import RemoteCalls.Proofs.CType.Operators
import RemoteCalls.Proofs.Outline.Taking

/-!
# The words of a printed type are read again

The words in front of a printed declarator are qualifiers and the words of a base. A reader takes
all of them, up to a token that is no such word, and they name the base and say nothing else.
-/

namespace RemoteCalls

/-- Whether a token is what some word stands for. -/
def Token.isWord : Token → Bool
  | .identifier _ | .builtin _ | .qualifier _ | .storage _ => true
  | .struct | .union | .enum | .typedef => true
  | _ => false

/-- A word is no mark. -/
theorem ofWord_ne {word : String} {t : Token} (h : t.isWord = false) : Token.ofWord word ≠ t := by
  unfold Token.ofWord
  repeat' split
  all_goals rintro rfl; cases h

/-- In front of a declarator around a word stand stars, a parenthesis, or the word. -/
theorem front_declaratorItems_ne {word : String} {more : List Item} (type : CType) {t mark : Token}
    (hword : mark.isWord = false) (hmark : mark ≠ .star ∧ mark ≠ .openParen) :
    Item.front t (type.declaratorItems (.token (.ofWord word) :: more)) ≠ mark := by
  cases type with
  | base b shape =>
    simp only [CType.declaratorItems, List.append_assoc, Item.front_append, front_starItems]
    split
    · exact ofWord_ne hword
    · exact hmark.1.symm
  | function result params variadic shape =>
    simp only [CType.declaratorItems, List.append_assoc, Item.front_append, front_starItems]
    split
    · exact hmark.2.symm
    · exact hmark.1.symm

namespace Reader

variable {α : Type} {setting : Setting} {tags : List Structure} {items more : List Item}
  {P : Token → Prop} {steps : Nat}

/-- Whether a token ends the words in front of a declarator. -/
def endsWords : Token → Bool
  | .storage _ | .qualifier _ | .builtin _ | .typedef | .struct | .union | .enum => false
  | .openBrace => false
  | .identifier name => !attributeWords.contains name && !ignoredWords.contains name
  | _ => true

/-- The specifiers name a type and say nothing else. -/
structure Specifies (leaf : CType) (specifiers : Specifiers) : Prop where
  storage : specifiers.storage = .empty
  notTypedef : specifiers.isTypedef = false
  type : specifiers.type = leaf
  tag : ∀ s, specifiers.tag ≠ .anonymous s

/-- The words amount to specifiers that name a type. -/
def Words (leaf : CType) (s : SpecifierWords) : Prop :=
  ∃ specifiers, s.specifiers? = some specifiers ∧ Specifies leaf specifiers

theorem specifierWords_end {s : SpecifierWords} (h : s.hasType = true) :
    Gives setting tags (specifierWords steps s) [] (endsWords · = true) s := by
  cases steps with
  | zero => exact .outOfSteps
  | succ steps =>
    unfold specifierWords
    refine .token fun t ht => ?_
    cases t with
    | identifier word =>
      simp only [endsWords, Bool.and_eq_true, Bool.not_eq_true'] at ht
      simp only [Item.front, ht.1, ht.2, h]
      exact .pure ⟨rfl, rfl⟩
    | storage word => cases ht
    | qualifier word => cases ht
    | builtin word => cases ht
    | typedef => cases ht
    | struct => cases ht
    | union => cases ht
    | enum => cases ht
    | _ => exact .pure ⟨rfl, rfl⟩

/-- Some items end the words in front of a declarator: behind a type they are taken with the words,
and say nothing. -/
structure EndsSpecifiers (setting : Setting) (tags : List Structure) (items : List Item) : Prop where
  front : ∀ t, endsWords t = true →
    isAttribute (Item.front t items) = false ∧ Item.front t items ≠ .openBrace
  gives : ∀ steps (s : SpecifierWords), s.hasType = true →
    Gives setting tags (specifierWords steps s) items (endsWords · = true) s

/-- A token that ends the words begins neither an attribute nor a body. -/
theorem isAttribute_of_endsWords {t : Token} (h : endsWords t = true) :
    isAttribute t = false ∧ t ≠ .openBrace := by
  cases t with
  | identifier name =>
    simp only [endsWords, Bool.and_eq_true, Bool.not_eq_true'] at h
    exact ⟨h.1, nofun⟩
  | openBrace => cases h
  | _ => exact ⟨rfl, nofun⟩

/-- The words end in front of what is no word. -/
theorem endsSpecifiers_nil : EndsSpecifiers setting tags [] :=
  ⟨fun _ ht => isAttribute_of_endsWords ht, fun _ _ hs => specifierWords_end hs⟩

/-- A word that is skipped may stand behind the words. -/
theorem endsSpecifiers_ignored {word : String} (hattribute : attributeWords.contains word = false)
    (hignored : ignoredWords.contains word = true) :
    EndsSpecifiers setting tags [.token (.identifier word)] := by
  refine ⟨fun _ _ => ⟨hattribute, nofun⟩, fun steps s hs => ?_⟩
  cases steps with
  | zero => exact .outOfSteps
  | succ steps =>
    unfold specifierWords
    refine .token fun t ht => ?_
    simp only [Item.front, hattribute, hignored]
    exact .advance ((specifierWords_end hs).at_token ht)

theorem specifierWords_qualifier {s : SpecifierWords} {word : String}
    {Q : SpecifierWords → List Structure → Prop}
    (h : ∀ steps, Takes setting tags (specifierWords steps (s.addQualifier word)) items P Q) :
    Takes setting tags (specifierWords steps s) (.token (.qualifier word) :: items) P Q := by
  cases steps with
  | zero => exact .outOfSteps
  | succ steps =>
    unfold specifierWords
    exact .token fun t ht => .advance ((h steps).at_token ht)

theorem specifierWords_builtin {s : SpecifierWords} {word : String}
    {Q : SpecifierWords → List Structure → Prop} (hbase : s.base = none)
    (h : ∀ steps, Takes setting tags (specifierWords steps { s with words := s.words ++ [word] })
      items P Q) :
    Takes setting tags (specifierWords steps s) (.token (.builtin word) :: items) P Q := by
  cases steps with
  | zero => exact .outOfSteps
  | succ steps =>
    unfold specifierWords
    refine .token fun t ht => ?_
    change Takes _ _ (if s.base.isSome = true then _ else _) _ _ _
    rw [if_neg (by simp [hbase])]
    exact .advance ((h steps).at_token ht)

theorem specifierWords_name {s : SpecifierWords} {name : String}
    {Q : SpecifierWords → List Structure → Prop} (hname : IsPlainName name)
    (htype : s.hasType = false)
    (h : ∀ steps, Takes setting tags (specifierWords steps { s with base := some (.named name) })
      items P Q) :
    Takes setting tags (specifierWords steps s) (.token (.identifier name) :: items) P Q := by
  cases steps with
  | zero => exact .outOfSteps
  | succ steps =>
    unfold specifierWords
    refine .token fun t ht => ?_
    simp only [Item.front, hname.noAttribute, hname.notIgnored, htype]
    exact .advance ((h steps).at_token ht)

/-- A name is taken where one is in front. -/
theorem name?_gives (name : String) :
    Gives setting tags name? [.token (.identifier name)] P (some name) :=
  .token fun _ _ => .advance (.pure ⟨rfl, rfl⟩)

theorem tagName_gives {name : String} (hname : IsFreeName name) :
    Gives setting tags (tagName (steps + 1)) [.token (.identifier name)]
      (isAttribute · = false) (some name) := by
  unfold tagName
  refine .skipAttributes (Gives.bind (P := (isAttribute · = false)) (name?_gives name) ?_ ?_) ?_
  · exact .skipAttributes (.pure ⟨rfl, rfl⟩) fun t ht => ht
  · exact fun t ht => ht
  · exact fun t _ => hname.noAttribute

/-- A tag that is only named. -/
theorem tagSpecifier_takes {keyword : Token} {name : String} (hname : IsFreeName name) :
    Takes setting tags (tagSpecifier steps) [.token keyword, .token (.identifier name)]
      (fun t => isAttribute t = false ∧ t ≠ .openBrace) fun r tags' =>
        (r.1 = Base.ofTag keyword name ∧ ∀ s, r.2 ≠ .anonymous s) ∧ tags' = tags := by
  cases steps with
  | zero => exact .outOfSteps
  | succ steps =>
    unfold tagSpecifier
    refine .position fun start => .token fun t ht => .advance ?_
    refine Gives.bind (tagName_gives hname) (.token fun u hu => ?_) ?_
    · rw [if_neg]
      · refine .pure ⟨⟨rfl, ?_⟩, rfl⟩
        intro s
        change (if _ then _ else _ : TagUse) ≠ _
        split <;> exact fun h => by cases h
      · obtain rfl : u = t := hu
        exact ht.2
    · rintro u rfl
      exact ht.1

theorem specifierWords_tag {s : SpecifierWords} {keyword : Token} {name : String}
    {Q : SpecifierWords → List Structure → Prop} (hname : IsFreeName name)
    (hkeyword : keyword = .struct ∨ keyword = .union ∨ keyword = .enum)
    (htype : s.hasType = false)
    (hfront : ∀ t, P t → isAttribute (Item.front t items) = false ∧
      Item.front t items ≠ .openBrace)
    (h : ∀ steps tag, (∀ inner, tag ≠ .anonymous inner) → Takes setting tags
      (specifierWords steps { s with base := some (Base.ofTag keyword name), tag := tag }) items
      P Q) :
    Takes setting tags (specifierWords steps s)
      (.token keyword :: .token (.identifier name) :: items) P Q := by
  cases steps with
  | zero => exact .outOfSteps
  | succ steps =>
    unfold specifierWords
    refine .token fun t ht => ?_
    have htag : Takes setting tags (tagSpecifier steps >>= fun r =>
        specifierWords steps { s with base := some r.1, tag := r.2 })
        ([.token keyword, .token (.identifier name)] ++ items) (· = t) Q := by
      refine Takes.bind (tagSpecifier_takes hname) ?_ fun u hu => hu ▸ hfront t ht
      rintro ⟨_, tag⟩ _ ⟨⟨rfl, htag⟩, rfl⟩
      exact (h steps tag htag).at_token ht
    rcases hkeyword with rfl | rfl | rfl <;>
    · simp only [Item.front, htype]
      exact htag

/-- The words of a base, behind some words of the same base. -/
theorem specifierWords_builtins {words : List String}
    (hend : EndsSpecifiers setting tags items)
    (hwords : ∀ word ∈ words, word ∈ Token.builtinWords) {s : SpecifierWords}
    (hbase : s.base = none) (hne : s.words ++ words ≠ []) :
    Gives setting tags (specifierWords steps s) (wordItems words ++ items) (endsWords · = true)
      { s with words := s.words ++ words } := by
  induction words generalizing steps s with
  | nil =>
    have hs : { s with words := s.words ++ [] } = s := by simp
    rw [hs]
    refine hend.gives _ _ ?_
    rw [List.append_nil] at hne
    cases hcase : s.words with
    | nil => exact absurd hcase hne
    | cons word words => simp [SpecifierWords.hasType, hcase]
  | cons word words ih =>
    have hword := (builtin_of_mem (hwords word (List.mem_cons_self ..))).2.1
    rw [wordItems, List.map_cons, hword]
    refine specifierWords_builtin hbase fun steps => ?_
    have hrest : Gives setting tags (specifierWords steps { s with words := s.words ++ [word] })
        (wordItems words ++ items) _ _ :=
      ih (fun other hother => hwords other (List.mem_cons_of_mem _ hother)) hbase (by simp)
    rw [List.append_assoc] at hrest
    exact hrest

/-- Behind a base that is no row of builtin words the words are at their end. -/
theorem specifierWords_done (hend : EndsSpecifiers setting tags items) (b : Base)
    (isConst isVolatile : Bool) {tag : TagUse} (htag : ∀ inner, tag ≠ .anonymous inner) :
    Takes setting tags
      (specifierWords steps ⟨.empty, false, isConst, isVolatile, [], some b, tag⟩) items
      (endsWords · = true) fun s tags' =>
        Words (.base b ⟨isConst, isVolatile, 0, []⟩) s ∧ tags' = tags := by
  refine (hend.gives _ _ rfl).mono ?_ fun t ht => ht
  rintro _ _ ⟨rfl, rfl⟩
  exact ⟨⟨_, rfl, rfl, rfl, rfl, htag⟩, rfl⟩

/-- The words of a base behind its qualifiers. -/
theorem specifierWords_base (hend : EndsSpecifiers setting tags items) {b : Base}
    (h : b.Printable) (isConst isVolatile : Bool) :
    Takes setting tags (specifierWords steps ⟨.empty, false, isConst, isVolatile, [], none, .other⟩)
      (wordItems b.words ++ items) (endsWords · = true) fun s tags' =>
        Words (.base b ⟨isConst, isVolatile, 0, []⟩) s ∧ tags' = tags := by
  have htagged : ∀ {keyword : Token} {name : String}, IsFreeName name →
      keyword = .struct ∨ keyword = .union ∨ keyword = .enum →
      Takes setting tags
        (specifierWords steps ⟨.empty, false, isConst, isVolatile, [], none, .other⟩)
        (.token keyword :: .token (.identifier name) :: items) (endsWords · = true) fun s tags' =>
          Words (.base (Base.ofTag keyword name) ⟨isConst, isVolatile, 0, []⟩) s ∧ tags' = tags :=
    fun hname hkeyword => specifierWords_tag hname hkeyword rfl hend.front fun steps tag htag =>
      specifierWords_done hend _ isConst isVolatile htag
  cases h with
  | builtin words hne hwords =>
    rw [words_builtin hne hwords]
    refine (specifierWords_builtins hend hwords rfl (by simpa using hne)).mono ?_ fun t ht => ht
    rintro _ _ ⟨rfl, rfl⟩
    have htext : (⟨.empty, false, isConst, isVolatile, [] ++ words, none, .other⟩ :
        SpecifierWords).specifiers? =
          some ⟨.empty, false, .base (.builtin (" ".intercalate words))
            ⟨isConst, isVolatile, 0, []⟩, .other⟩ := by
      simp [SpecifierWords.specifiers?, hne]
    exact ⟨⟨_, htext, rfl, rfl, rfl, fun _ h => by cases h⟩, rfl⟩
  | named hname =>
    rw [Base.words, wordItems, List.map_singleton, hname.token]
    exact specifierWords_name hname rfl fun steps =>
      specifierWords_done hend _ isConst isVolatile fun _ h => by cases h
  | struct hname =>
    rw [Base.words, wordItems, List.map_cons, List.map_singleton, hname.token]
    exact htagged hname (.inl rfl)
  | union hname =>
    rw [Base.words, wordItems, List.map_cons, List.map_singleton, hname.token]
    exact htagged hname (.inr (.inl rfl))
  | enum hname =>
    rw [Base.words, wordItems, List.map_cons, List.map_singleton, hname.token]
    exact htagged hname (.inr (.inr rfl))

/-- The words of a printable base with qualifiers name it. -/
theorem specifiers_base (hend : EndsSpecifiers setting tags items) {b : Base} (h : b.Printable)
    (shape : Shape) :
    Takes setting tags (specifiers steps) (wordItems (shape.qualifierWords ++ b.words) ++ items)
      (endsWords · = true) fun s tags' =>
        Specifies (.base b ⟨shape.isConst, shape.isVolatile, 0, []⟩) s ∧ tags' = tags := by
  cases steps with
  | zero => exact .outOfSteps
  | succ steps =>
    have hwords : Takes setting tags (specifierWords steps .empty)
        (wordItems (shape.qualifierWords ++ b.words) ++ items) (endsWords · = true) fun s tags' =>
          Words (.base b ⟨shape.isConst, shape.isVolatile, 0, []⟩) s ∧ tags' = tags := by
      obtain ⟨isConst, isVolatile, pointers, dimensions⟩ := shape
      cases isConst <;> cases isVolatile
      · exact specifierWords_base hend h false false
      · exact specifierWords_qualifier fun steps => specifierWords_base hend h false true
      · exact specifierWords_qualifier fun steps => specifierWords_base hend h true false
      · exact specifierWords_qualifier fun steps => specifierWords_qualifier fun steps =>
          specifierWords_base hend h true true
    unfold specifiers
    refine Takes.bind_nil hwords ?_
    rintro words _ ⟨⟨specifiers, hspecifiers, hspecifies⟩, rfl⟩
    rw [hspecifiers]
    exact .pure ⟨hspecifies, rfl⟩

/-- The words of a printable type name its base. -/
theorem specifiers_takes {type : CType} (h : type.Printable) :
    Takes setting tags (specifiers steps) (wordItems type.words) (endsWords · = true)
      fun s tags' => Specifies type.leaf s ∧ tags' = tags := by
  rw [← List.append_nil (wordItems type.words)]
  cases h with
  | base hb hshape => exact specifiers_base endsSpecifiers_nil hb _
  | function hb _ _ _ _ _ => exact specifiers_base endsSpecifiers_nil hb _

end Reader

end RemoteCalls
