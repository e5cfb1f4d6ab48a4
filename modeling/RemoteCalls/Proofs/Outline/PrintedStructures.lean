import RemoteCalls.Proofs.Outline.Prototypes

/-!
# Printed structures are read again

A structure with a tag and printed members is read as a declaration of the structure with these
members, one after the other up to the brace behind them. A marker statement among the members would
be a note, so that no function pointer among them may begin with a marker: only there a parenthesis
can stand right behind the first name.
-/

namespace RemoteCalls

/-- The items of the width of a member, if it is a bit-field. -/
def widthItems (width : Option String) : List Item :=
  width.toList.map .width

/-- The items of a member with the semicolon behind it. -/
def Field.items (field : Field) : List Item :=
  field.type.items (wordItems [field.name]) ++ (widthItems field.width ++ [.token .semicolon])

/-- No marker stands in front of a member that is a function pointer. -/
def Field.StartsPlain (rules : NoteRules) (field : Field) : Prop :=
  field.type.isFunctionPointer = true → RemoteCalls.StartsPlain rules field.items

/-- A member begins with a word of its type. -/
theorem Field.items_eq_cons {field : Field} {word : String} {words : List String}
    (hwords : field.type.words = word :: words) : field.items = .token (.ofWord word) ::
      (wordItems words ++ (field.type.declaratorItems (wordItems [field.name]) ++
        (widthItems field.width ++ [.token .semicolon]))) := by
  rw [Field.items, CType.items, hwords]
  simp [wordItems]

/-- The items of a structure with a tag, up to the semicolon behind it. -/
def structItems (tag : String) (fields : List Field) : List Item :=
  .token .struct :: .token (.ofWord tag) :: .token .openBrace ::
    (fields.flatMap Field.items ++ [.token .closeBrace, .token .semicolon])

namespace Reader

variable {setting : Setting} {tags : List Structure} {steps : Nat} {field : Field}
  {P : Token → Prop}

theorem memberHead_gives (h : field.Printable) {type : CType} (htype : type = field.type.leaf) :
    Gives setting tags (memberHead type (declarator steps false))
      (field.type.declaratorItems (wordItems [field.name])) (closes false · = true)
      (some field.name, field.type) := by
  subst htype
  unfold memberHead
  refine .token fun t ht => ?_
  have hcolon : Item.front t (field.type.declaratorItems (wordItems [field.name])) ≠ .colon :=
    front_declaratorItems_ne _ rfl ⟨nofun, nofun⟩
  have hreread : Gives setting tags (declarator steps false) _ _ _ :=
    declaratorReread h.type (declares_name h.name) steps
  rw [if_neg hcolon]
  refine Gives.bind_nil (hreread.at_token ht) ?_
  have hresolve : Declarator.resolve ⟨some field.name, [] ++ field.type.ops⟩ field.type.leaf =
      .ok (.object field.type) := Declared.ofOps_ops h.type
  rw [hresolve]
  exact .resolved (.pure ⟨rfl, rfl⟩)

/-- Behind the declarator of a member stands a colon or a semicolon. -/
theorem closes_widthItems (t : Token) (width : Option String) :
    closes false (Item.front t (widthItems width ++ [.token .semicolon])) = true := by
  cases width <;> rfl

/-- A lexeme stands in front of a token that ends an expression. -/
theorem exists_ender {behind : List Lexeme} (h : (headToken behind).endsExpression = true) :
    ∃ ender rest, behind = ender :: rest ∧ ender.token.endsExpression = true := by
  cases behind with
  | nil => cases h
  | cons ender rest => exact ⟨ender, rest, rfl, h⟩

/-- The width of a bit-field is taken up to the token behind it, if there is a width. -/
theorem expressionBehind?_gives (width : Option String) :
    Gives setting tags (expressionBehind? .colon) (widthItems width)
      (fun t => t.endsExpression = true ∧ t ≠ .colon) width := by
  unfold expressionBehind?
  cases width with
  | none => exact .accept_ne (.pure ⟨rfl, rfl⟩) fun t ht => ht.2
  | some text =>
    intro row behind kind hrow hbehind
    cases hrow with
    | @width colon inner row _ hcolon hexpression htext hrest =>
      cases hrest
      obtain ⟨ender, rest, rfl, hender⟩ := exists_ender hbehind.1
      have hsplit := Lexeme.splitExpression_of_isExpression hexpression hender
      rw [bind_apply, accept_apply, if_pos (by exact hcolon), List.append_nil]
      dsimp only
      rw [if_pos rfl, bind_apply, expression_apply]
      simp only [List.cons_append, List.tail_cons, hsplit]
      rw [if_neg (by simpa using htext)]
      exact ⟨rfl, rfl, rfl⟩

/-- The declarator of a member is taken with the semicolon behind it. -/
theorem memberDeclarators_gives (h : field.Printable) {type : CType}
    (htype : type = field.type.leaf) (s : Structure) :
    Gives setting tags (memberDeclarators steps type s)
      (field.type.declaratorItems (wordItems [field.name]) ++
        (widthItems field.width ++ [.token .semicolon])) (fun _ => True)
      { s with fields := s.fields ++ [field] } := by
  cases steps with
  | zero => exact .outOfSteps
  | succ steps =>
    unfold memberDeclarators
    refine Gives.bind (memberHead_gives h htype) ?_ fun t _ => closes_widthItems t field.width
    refine Gives.bind (expressionBehind?_gives field.width) ?_ fun _ _ => ?_
    · exact .skipAttributes (.accept_ne (.expect (.pure ⟨rfl, rfl⟩)) fun _ _ h => by cases h)
        fun _ _ => rfl
    · exact ⟨rfl, fun h => by cases h⟩

/-- A member is taken with its semicolon. -/
theorem member_gives (h : field.Printable) (s : Structure) :
    Gives setting tags (member steps s) field.items (fun _ => True)
      { s with fields := s.fields ++ [field] } := by
  cases steps with
  | zero => exact .outOfSteps
  | succ steps =>
    have hdeclares : Declares setting tags false (wordItems [field.name]) (some field.name) [] :=
      declares_name h.name
    unfold member
    rw [Field.items, CType.items, List.append_assoc]
    refine Takes.bind (specifiers_takes h.type) ?_ fun t _ => ?_
    · rintro specifiers _ ⟨hspecifies, rfl⟩
      refine .accept_ne (memberDeclarators_gives h hspecifies.type s) fun t _ => ?_
      rw [Item.front_append]
      exact front_declaratorItems_ne _ rfl ⟨by decide, by decide⟩
    · rw [Item.front_append]
      exact endsWords_declaratorItems hdeclares _ (closes_widthItems t field.width)

/-- A member does not begin as a marker statement does. -/
theorem beginsMarker_member {rules : NoteRules} (h : field.Printable)
    (hplain : field.StartsPlain rules) {word : String} {words : List String}
    (hwords : field.type.words = word :: words) (t : Token) :
    beginsMarker rules (.ofWord word) (Item.front t (wordItems words ++
      (field.type.declaratorItems (wordItems [field.name]) ++
        (widthItems field.width ++ [.token .semicolon])))) = false := by
  cases hfunction : field.type.isFunctionPointer with
  | true =>
    refine Outline.beginsMarker_of_not_marker (fun name hname => hplain hfunction name ?_) _
    rw [Field.items_eq_cons hwords, List.head?_cons, hname]
  | false =>
    cases hword : Token.ofWord word with
    | identifier name =>
      -- A name in front is the whole base, so that a star or the name of the member is behind it.
      obtain ⟨rfl, -⟩ := h.type.eq_nil_of_identifier hwords hword
      cases htype : field.type with
      | function result params variadic shape =>
        rw [htype] at hfunction
        cases hfunction
      | base b shape =>
        simp only [wordItems, List.map_nil, List.nil_append, CType.declaratorItems,
          List.append_assoc, Item.front_append, front_starItems]
        split
        · change beginsMarker rules _ (.ofWord field.name) = false
          rw [h.name.token]
          rfl
        · rfl
    | _ => rfl

/-- The members are taken one by one up to the brace behind them. There is no note among them. -/
theorem members_gives {fields : List Field} (h : ∀ field ∈ fields, field.Printable)
    (hplain : ∀ field ∈ fields, field.StartsPlain setting.rules) (opened : Position)
    (s : Structure) :
    Gives setting tags (members steps opened s) (fields.flatMap Field.items ++ [.token .closeBrace])
      (fun _ => True) { s with fields := s.fields ++ fields } := by
  induction fields generalizing steps s with
  | nil =>
    cases steps with
    | zero => exact .outOfSteps
    | succ steps =>
      unfold members
      have hs : s = { s with fields := s.fields ++ [] } := by simp
      exact .accept (.pure ⟨hs, rfl⟩)
  | cons field fields ih =>
    cases steps with
    | zero => exact .outOfSteps
    | succ steps =>
      have hfield := h field (List.mem_cons_self ..)
      have hrest : Gives setting tags
          (members steps opened { s with fields := s.fields ++ [field] }) _ _ _ :=
        ih (fun other hother => h other (List.mem_cons_of_mem _ hother))
          (fun other hother => hplain other (List.mem_cons_of_mem _ hother)) _
      rw [List.append_assoc] at hrest
      have hmember : Gives setting tags (member steps s) _ _ _ := member_gives hfield s
      have hnext := Gives.bind hmember hrest fun _ _ => trivial
      obtain ⟨word, words, hwords⟩ := List.exists_cons_of_ne_nil hfield.type.words_ne_nil
      have hmarker := beginsMarker_member hfield (hplain field (List.mem_cons_self ..)) hwords
      rw [Field.items_eq_cons hwords, List.cons_append] at hnext
      unfold members
      rw [List.flatMap_cons, List.append_assoc, Field.items_eq_cons hwords, List.cons_append]
      refine .accept_ne (.token fun t _ => ?_) fun t _ => ofWord_ne rfl
      rw [if_neg (by exact ofWord_ne rfl)]
      refine .accept_ne ?_ fun t _ => ofWord_ne rfl
      unfold atMarker
      rw [bind_assoc]
      refine .noteRules (.ahead fun u _ => ?_)
      rw [Item.front_append, hmarker, if_neg (by simp)]
      exact hnext.mono (fun _ _ hQ => hQ) fun _ _ => trivial

/-- A structure with a tag and some members, as its definition says. -/
def IsStructure (tag : String) (fields : List Field) (s : Structure) : Prop :=
  s.name = tag ∧ s.fields = fields ∧ s.isDefined = true

variable {tag : String} {fields : List Field}

theorem structureBody_takes (h : ∀ field ∈ fields, field.Printable)
    (hplain : ∀ field ∈ fields, field.StartsPlain setting.rules) (start : Position) :
    Takes setting tags (structureBody start tag (members steps))
      (.token .openBrace :: (fields.flatMap Field.items ++ [.token .closeBrace])) (fun _ => True)
      fun s tags' => IsStructure tag fields s ∧ tags' = tags := by
  unfold structureBody
  refine .kind fun outer => .modifyKind (fun _ => .struct) (.position fun opened => .advance ?_)
  refine .placeAt start (.origin (Gives.bind_nil (members_gives h hplain opened _) ?_))
  exact .modifyKind (fun _ => outer) (.pure ⟨⟨rfl, rfl, rfl⟩, rfl⟩)

/-- A structure with a tag is put behind the others. -/
theorem defineTag_takes (tag : String) (s : Structure) :
    Takes setting tags (defineTag (some tag) s) [] P
      fun use tags' => use = .other ∧ tags' = tags ++ [s] := by
  unfold defineTag
  rw [Option.isSome_some, if_pos rfl]
  exact .modifyTags (· ++ [s]) (.pure ⟨rfl, rfl⟩)

theorem tagSpecifier_body (htag : IsPlainName tag) (h : ∀ field ∈ fields, field.Printable)
    (hplain : ∀ field ∈ fields, field.StartsPlain setting.rules) :
    Takes setting tags (tagSpecifier steps) (.token .struct :: .token (.identifier tag) ::
      .token .openBrace :: (fields.flatMap Field.items ++ [.token .closeBrace])) (fun _ => True)
      fun r tags' => r = (.struct tag, .other) ∧
        ∃ s, IsStructure tag fields s ∧ tags' = tags ++ [s] := by
  cases steps with
  | zero => exact .outOfSteps
  | succ steps =>
    unfold tagSpecifier
    refine .position fun start => .token fun t _ => .advance ?_
    refine Gives.bind (tagName_gives htag.free) (.token fun u hu => ?_) ?_
    · simp only [Item.front, if_true]
      refine Takes.bind_nil ((structureBody_takes h hplain start).mono (fun _ _ hQ => hQ)
        fun _ _ => trivial) ?_
      rintro s _ ⟨hs, rfl⟩
      refine Takes.bind_nil (defineTag_takes tag s) ?_
      rintro _ _ ⟨rfl, rfl⟩
      exact .pure ⟨rfl, s, hs, rfl⟩
    · exact fun _ _ => rfl

/-- The definition of a structure ends the words in front of a declarator. -/
theorem specifiers_body (htag : IsPlainName tag) (h : ∀ field ∈ fields, field.Printable)
    (hplain : ∀ field ∈ fields, field.StartsPlain setting.rules) :
    Takes setting [] (specifiers steps) (.token .struct :: .token (.identifier tag) ::
      .token .openBrace :: (fields.flatMap Field.items ++ [.token .closeBrace]))
      (endsWords · = true)
      fun specifiers tags' => specifiers.tag = .other ∧
        ∃ s, IsStructure tag fields s ∧ tags' = [s] := by
  cases steps with
  | zero => exact .outOfSteps
  | succ steps =>
    unfold specifiers
    cases steps with
    | zero => exact .outOfSteps
    | succ steps =>
      have hwords : Takes setting [] (specifierWords (steps + 1) .empty) (.token .struct ::
          .token (.identifier tag) :: .token .openBrace ::
            (fields.flatMap Field.items ++ [.token .closeBrace])) (endsWords · = true)
          fun words tags' => words = { SpecifierWords.empty with
            base := some (.struct tag), tag := .other } ∧
              ∃ s, IsStructure tag fields s ∧ tags' = [s] := by
        unfold specifierWords
        refine .token fun t ht => ?_
        refine Takes.bind_nil ((tagSpecifier_body htag h hplain).mono (fun _ _ hQ => hQ)
          fun _ _ => trivial) ?_
        rintro _ _ ⟨rfl, s, hs, rfl⟩
        refine ((specifierWords_end rfl).mono ?_ fun _ hu => hu ▸ ht)
        rintro _ _ ⟨rfl, rfl⟩
        exact ⟨rfl, s, hs, rfl⟩
      refine Takes.bind_nil hwords ?_
      rintro _ _ ⟨rfl, hs⟩
      exact .pure ⟨rfl, hs⟩

/-- The definition of a structure, with a semicolon behind it, declares the structure alone. -/
theorem external_struct (htag : IsPlainName tag) (h : ∀ field ∈ fields, field.Printable)
    (hplain : ∀ field ∈ fields, field.StartsPlain setting.rules) :
    Takes setting [] (external steps) (structItems tag fields) (fun _ => True)
      fun declared _ => ∃ s, declared = [.struct s] ∧ IsStructure tag fields s := by
  have hitems : structItems tag fields = (.token .struct :: .token (.identifier tag) ::
      .token .openBrace :: (fields.flatMap Field.items ++ [.token .closeBrace])) ++
        [.token .semicolon] := by
    simp [structItems, htag.token]
  rw [hitems]
  unfold external
  refine .position fun start => Takes.bind (specifiers_body htag h hplain) ?_ fun _ _ => rfl
  rintro specifiers _ ⟨hother, s, hs, rfl⟩
  refine .modifyKind (fun kind => if specifiers.isTypedef then .typedef else kind) (.takeTags ?_)
  rw [namedStructure?_of_other hother, pure_bind]
  refine .token fun t _ => ?_
  simp only [Item.front, if_true]
  exact .advance (.pure ⟨s, rfl, hs⟩)

end Reader

namespace Outline

variable {setting : Setting} {tag : String} {fields : List Field}

/-- The definition of a structure stands for the structure. -/
theorem standsFor_struct (htag : IsPlainName tag) (h : ∀ field ∈ fields, field.Printable)
    (hplain : ∀ field ∈ fields, field.StartsPlain setting.rules) :
    StandsFor setting (structItems tag fields) fun found =>
      ∃ s, found = [.declaration (.struct s)] ∧ Reader.IsStructure tag fields s := by
  refine (standsFor_declaration (List.cons_ne_nil _ _)
    (fun steps => Reader.external_struct htag h hplain) fun row behind hrow => ?_).mono ?_
  · have hhead := Spells.headToken hrow behind
    refine Front.of_declaration (by rw [hhead]; rfl) fun name hname => ?_
    rw [hhead] at hname
    cases hname
  · rintro _ ⟨_, ⟨s, rfl, hs⟩, rfl⟩
    exact ⟨_, rfl, hs⟩

end Outline

end RemoteCalls
