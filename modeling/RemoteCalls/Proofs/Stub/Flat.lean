import RemoteCalls.Proofs.CType.Spelling
import RemoteCalls.Proofs.Stub.Bodies

/-!
# Declarations without braces

The text that declares something with a type from a source text is flat, whatever the type is: it
closes the groups that it opens, and braces stand in array sizes only. What it begins with is known,
too, also where it is no declaration in the language: where a tag is missing, and where a function
pointer returns a function pointer.
-/

namespace RemoteCalls

/-! ## Flat items -/

/-- An item that opens no brace, and no bracket but that of an array size. -/
def Item.isFlat : Item → Bool
  | .token t => t != .openBrace && t != .openBracket
  | .dimension _ => true
  | .width _ => false

/-- Some items close the groups that they open, and have braces in array sizes only. -/
structure Item.Flat (items : List Item) : Prop where
  balanced : Balanced items
  isFlat : ∀ item ∈ items, item.isFlat = true

namespace Item.Flat

variable {items more : List Item}

theorem nil : Flat [] := ⟨.nil, fun _ hitem => absurd hitem List.not_mem_nil⟩

theorem append (h : Flat items) (hmore : Flat more) : Flat (items ++ more) :=
  ⟨h.balanced.append hmore.balanced, fun item hitem =>
    (List.mem_append.mp hitem).elim (h.isFlat item) (hmore.isFlat item)⟩

/-- A token that neither opens nor closes a group. -/
theorem cons {t : Token} (hopener : t.isOpener = false) (hcloser : t.isCloser = false)
    (h : Flat items) : Flat (.token t :: items) := by
  refine ⟨.cons hopener hcloser h.balanced, List.forall_mem_cons.mpr ⟨?_, h.isFlat⟩⟩
  cases t <;> first | rfl | cases hopener

/-- Items in parentheses. -/
theorem parens (h : Flat items) : Flat (.token .openParen :: (items ++ [.token .closeParen])) :=
  ⟨.group rfl rfl h.balanced, List.forall_mem_cons.mpr ⟨rfl, fun item hitem =>
    (List.mem_append.mp hitem).elim (h.isFlat item) fun hlast => by
      rw [List.mem_singleton.mp hlast]
      rfl⟩⟩

theorem composes : Composes Flat where
  nil := nil
  append := append
  token hopener hcloser := cons hopener hcloser nil
  dimension _ := ⟨rfl, List.forall_mem_singleton.mpr rfl⟩

theorem dimensions (sizes : List (Option String)) : Flat (sizes.map .dimension) :=
  composes.dimensions sizes

theorem words (words : List String) : Flat (wordItems words) :=
  composes.words words

theorem stars (n : Nat) : Flat (starItems n) :=
  composes.stars n

theorem list {rows : List (List Item)} (h : ∀ row ∈ rows, Flat row) (variadic : Bool) :
    Flat (listItems rows variadic) :=
  composes.list h variadic

end Item.Flat

/-- A row that is spelled by flat items has no brace outside of brackets. -/
theorem Spells.braceless {items : List Item} {row : List Lexeme} (h : Spells items row)
    (hflat : ∀ item ∈ items, item.isFlat = true) : Token.Braceless (Lexeme.tokens row) := by
  unfold Token.Braceless
  induction h with
  | nil => rw [Lexeme.tokens, List.map_nil, Token.bracketed]
  | @token lexeme row items hrest ih =>
    obtain ⟨hfirst, hothers⟩ := List.forall_mem_cons.mp hflat
    simp only [Item.isFlat, Bool.and_eq_true, bne_iff_ne, ne_eq] at hfirst
    rw [Lexeme.tokens, List.map_cons, Token.bracketed, if_neg hfirst.1, if_neg hfirst.2]
    exact ih hothers
  | @dimension opener closer inner row items size hopener hcloser hbalanced hsize hrest ih =>
    have hinside := Token.bracketed_of_nest hbalanced
    have htokens : Lexeme.tokens (opener :: (inner ++ closer :: row)) =
        .openBracket :: (Lexeme.tokens inner ++ .closeBracket :: Lexeme.tokens row) := by
      simp [Lexeme.tokens, hopener, hcloser]
    rw [htokens, Token.bracketed, if_neg (by decide), if_pos rfl, Token.bracketed_append, hinside,
      Option.bind_some, Token.bracketed]
    exact ih (List.forall_mem_cons.mp hflat).2
  | width _ _ _ _ => cases (List.forall_mem_cons.mp hflat).1

/-- A text is flat: it is printed from flat items. -/
def IsFlat (text : String) : Prop := ∃ items, Prints text items ∧ Item.Flat items

theorem IsFlat.isCode {text : String} (h : IsFlat text) : IsCode text := by
  obtain ⟨items, hprints, hflat⟩ := h
  exact ⟨items, hprints, hflat.balanced⟩

/-! ## Types from a source text -/

/-- Whether a token is a word behind which a tag stands. -/
def Token.IsTagWord (t : Token) : Prop := t = .struct ∨ t = .union ∨ t = .enum

/-- A base with a tag that is missing in the source text. -/
def Base.IsAnonymous (b : Base) : Prop :=
  ∃ keyword, keyword.IsTagWord ∧ b = Base.ofTag keyword Structure.anonymousTag

theorem Base.Scanned.printable_or {b : Base} (h : b.Scanned) : b.Printable ∨ b.IsAnonymous := by
  cases h with
  | builtin words hne hwords => exact .inl (.builtin words hne hwords)
  | named h => exact .inl (.named h)
  | struct h => exact h.symm.imp .struct fun h => ⟨.struct, .inl rfl, by rw [h]; rfl⟩
  | union h => exact h.symm.imp .union fun h => ⟨.union, .inr (.inl rfl), by rw [h]; rfl⟩
  | enum h => exact h.symm.imp .enum fun h => ⟨.enum, .inr (.inr rfl), by rw [h]; rfl⟩

/-- The text of a base without a tag is a keyword with a word in parentheses behind it. -/
theorem Base.IsAnonymous.exists_items {b : Base} (h : b.IsAnonymous) : ∃ keyword more,
    keyword.IsTagWord ∧ Prints b.text (.token keyword :: .token .openParen :: more) ∧
      Item.Flat (.token keyword :: .token .openParen :: more) := by
  obtain ⟨keyword, hkeyword, rfl⟩ := h
  have hgroup : Prints Structure.anonymousTag
      (.token .openParen :: (wordItems ["anonymous"] ++ [.token .closeParen])) := by
    refine ⟨fun rest _ => ?_, by decide⟩
    have hword : Prints "anonymous" (wordItems ["anonymous"]) := prints_word (by decide)
    have hchars : Structure.anonymousTag.toList ++ rest =
        '(' :: ("anonymous".toList ++ ')' :: rest) := rfl
    rw [hchars]
    exact .mark rfl ((hword.written _ (fits_closeParen rest)).append (.mark rfl (.done rest)))
  have hprints : ∀ {word : String}, Configuration.isIdentifier word = true →
      Prints (word ++ " " ++ Structure.anonymousTag) (wordItems [word] ++
        .token .openParen :: (wordItems ["anonymous"] ++ [.token .closeParen])) := by
    intro word hword
    refine (prints_word hword).space hgroup ?_
    rintro rfl
    cases hword
  have hflat := (Item.Flat.words ["anonymous"]).parens
  refine ⟨keyword, wordItems ["anonymous"] ++ [.token .closeParen], hkeyword, ?_, ?_⟩
  · rcases hkeyword with rfl | rfl | rfl
    · exact hprints (by decide : Configuration.isIdentifier "struct" = true)
    · exact hprints (by decide : Configuration.isIdentifier "union" = true)
    · exact hprints (by decide : Configuration.isIdentifier "enum" = true)
  · rcases hkeyword with rfl | rfl | rfl <;> exact .cons rfl rfl hflat

/-- Some items in the text that declares something with a type, whose own items are `inner`. What
they begin with depends on the innermost result of the type, and on whether a function pointer
returns one: then its parentheses come second. -/
inductive CType.DeclaredBy (inner : List Item) : CType → List Item → Prop
  | anonymous {type : CType} {shape : Shape} {keyword : Token} {more : List Item}
      (hkeyword : keyword.IsTagWord) : DeclaredBy inner type
        (wordItems shape.qualifierWords ++ .token keyword :: .token .openParen :: more)
  | base {b : Base} {shape : Shape} (hbase : b.Printable) :
      DeclaredBy inner (.base b shape) ((CType.base b shape).items inner)
  | pointer {b : Base} {around outer : Shape} {params : List CType} {variadic : Bool}
      {list : List Item} (hbase : b.Printable) (hlist : Item.Flat list) :
      DeclaredBy inner (.function (.base b around) params variadic outer)
        (wordItems (around.qualifierWords ++ b.words) ++ (starItems around.pointers ++
          .token .openParen :: (starItems (max outer.pointers 1) ++ inner ++ outer.dimensionItems) ++
            [.token .closeParen, .token .openParen] ++ list ++ [.token .closeParen]))
  | nameless {result : CType} {params : List CType} {variadic : Bool} {outer : Shape}
      {n m : Nat} {more : List Item} (hleaf : result.leaf.Printable)
      (hresult : result.isFunctionPointer = true) :
      DeclaredBy inner (.function result params variadic outer) (wordItems result.words ++
        (starItems n ++ .token .openParen :: (starItems (m + 1) ++ .token .closeParen :: more)))

namespace CType

variable {type : CType} {text : String} {inner items more : List Item}

/-- What a function pointer begins with is what its result begins with. -/
theorem DeclaredBy.function {result : CType} {params : List CType} {variadic : Bool} {outer : Shape}
    {list : List Item} (h : result.DeclaredBy [] items) (hdimensions : result.shape.dimensions = [])
    (hlist : Item.Flat list) :
    (CType.function result params variadic outer).DeclaredBy inner (items ++ .token .openParen ::
      (starItems (max outer.pointers 1) ++ inner ++ outer.dimensionItems) ++
      [.token .closeParen, .token .openParen] ++ list ++ [.token .closeParen]) := by
  cases h with
  | anonymous hkeyword =>
    rw [List.append_assoc, List.append_assoc, List.append_assoc, List.append_assoc]
    exact .anonymous hkeyword
  | @base b shape hbase =>
    have hpointer : (CType.function (.base b shape) params variadic outer).DeclaredBy inner _ :=
      .pointer hbase hlist
    have hnone : shape.dimensions = [] := hdimensions
    simpa [CType.items, declaratorItems, words, Shape.dimensionItems, hnone] using hpointer
  | @pointer b around outer' params' variadic' list' hbase hlist' =>
    obtain ⟨m, hm⟩ := Nat.exists_eq_add_of_le' (Nat.le_max_right outer'.pointers 1)
    have hnone : outer'.dimensions = [] := hdimensions
    simp only [hm, Shape.dimensionItems, hnone, List.map_nil, List.append_nil, List.append_assoc,
      List.cons_append, List.nil_append]
    exact .nameless (.base hbase fun _ h => absurd h List.not_mem_nil) rfl
  | @nameless result' params' variadic' outer' n m more hleaf hresult =>
    simp only [List.append_assoc, List.cons_append]
    exact .nameless hleaf rfl

/-- No array size in a type has a directive in it. -/
def NoDirective (type : CType) : Prop :=
  ∀ part ∈ type.parts, ∀ size ∈ part.shape.dimensions.filterMap id, WithoutDirective size

instance (type : CType) : Decidable type.NoDirective :=
  inferInstanceAs (Decidable (∀ part ∈ type.parts, ∀ size ∈ part.shape.dimensions.filterMap id,
    WithoutDirective size))

end CType

/-- A base with qualifiers is printed from flat items, which are its words unless its tag is missing.
-/
theorem Base.Scanned.exists_front {b : Base} (h : b.Scanned) (shape : Shape) : ∃ front,
    Prints (shape.qualifiers ++ b.text) front ∧ Item.Flat front ∧
      ((b.Printable ∧ front = wordItems (shape.qualifierWords ++ b.words)) ∨
        ∃ keyword more, keyword.IsTagWord ∧
          front = wordItems shape.qualifierWords ++ .token keyword :: .token .openParen :: more) := by
  rcases h.printable_or with hb | hb
  · exact ⟨_, hb.prints shape, .words _, .inl ⟨hb, rfl⟩⟩
  · obtain ⟨keyword, more, hkeyword, hprints, hflat⟩ := hb.exists_items
    exact ⟨_, prints_qualified shape hprints, (Item.Flat.words _).append hflat,
      .inr ⟨keyword, more, hkeyword, rfl⟩⟩

/-- The texts of some parameters are printed from one row of items each. -/
theorem exists_rows {α : Type} {params : List α} {text : α → String} {R : List Item → Prop}
    (h : ∀ param ∈ params, ∃ row, Prints (text param) row ∧ R row) :
    ∃ rows, List.Forall₂ Prints (params.map text) rows ∧ ∀ row ∈ rows, R row := by
  induction params with
  | nil => exact ⟨[], .nil, fun _ hrow => absurd hrow List.not_mem_nil⟩
  | cons param params ih =>
    obtain ⟨⟨row, hprints, hrow⟩, hothers⟩ := List.forall_mem_cons.mp h
    obtain ⟨rows, hall, hrows⟩ := ih hothers
    exact ⟨row :: rows, .cons hprints hall, List.forall_mem_cons.mpr ⟨hrow, hrows⟩⟩

namespace CType

variable {type : CType}

/-- A type from a source text without directives in its sizes is spelled by flat items, and declares
what is printed from flat items with flat items. -/
theorem Scanned.exists_items (h : type.Scanned) (hsizes : type.NoDirective) :
    (∃ items, Prints type.spelling items ∧ Item.Flat items ∧ type.DeclaredBy [] items) ∧
      ∀ text inner, Prints text inner → Item.Flat inner →
        ∃ items, Prints (type.declare text) items ∧ Item.Flat items ∧
          type.DeclaredBy inner items := by
  induction h with
  | @base b shape hbase hshape =>
    obtain ⟨front, hfront, hflat, hcases⟩ := hbase.exists_front shape
    have hprintable : shape.Printable := hshape.printable (hsizes _ (mem_parts_self _))
    have hdeclared : ∀ inner, (CType.base b shape).DeclaredBy inner
        (front ++ (CType.base b shape).declaratorItems inner) := by
      intro inner
      rcases hcases with ⟨hb, rfl⟩ | ⟨keyword, more, hkeyword, rfl⟩
      · exact .base hb
      · rw [List.append_assoc]
        exact .anonymous hkeyword
    have hitems : ∀ inner, Item.Flat inner →
        Item.Flat (front ++ (CType.base b shape).declaratorItems inner) := by
      intro inner hinner
      rw [declaratorItems]
      exact hflat.append (((Item.Flat.stars _).append hinner).append (.dimensions _))
    exact ⟨⟨_, prints_spelling_base hfront hprintable, hitems [] .nil, hdeclared []⟩,
      fun text inner hinner hflat =>
        ⟨_, prints_declare_base hfront hprintable hinner, hitems inner hflat, hdeclared inner⟩⟩
  | @function result params variadic outer _ hdimensions _ houter hshape ihresult ihparams =>
    have hprintable : outer.Printable := hshape.printable (hsizes _ (mem_parts_self _))
    obtain ⟨⟨front, hfront, hflat, hdeclared⟩, -⟩ := ihresult fun part hpart =>
      hsizes part (List.mem_cons_of_mem _ (List.mem_append_left _ hpart))
    obtain ⟨rows, hrows, hflats⟩ : ∃ rows, List.Forall₂ Prints (params.map spelling) rows ∧
        ∀ row ∈ rows, Item.Flat row := by
      refine exists_rows fun param hparam => ?_
      obtain ⟨⟨row, hprints, hflat, -⟩, -⟩ := ihparams param hparam fun part hpart => hsizes part
        (List.mem_cons_of_mem _ (List.mem_append_right _ (mem_partsOf.mpr ⟨param, hparam, hpart⟩)))
      exact ⟨row, hprints, hflat⟩
    have hlist := prints_parameterText hrows variadic
    have hlistFlat := Item.Flat.list hflats variadic
    rw [← spellings_eq_map] at hlist
    have hall : ∀ text inner, Prints text inner → Item.Flat inner →
        ∃ items, Prints ((CType.function result params variadic outer).declare text) items ∧
          Item.Flat items ∧
          (CType.function result params variadic outer).DeclaredBy inner items := by
      intro text inner hinner hinnerFlat
      refine ⟨_, prints_declare_function hfront houter hprintable hlist hinner, ?_,
        hdeclared.function hdimensions hlistFlat⟩
      have hdeclarator := ((Item.Flat.stars (max outer.pointers 1)).append hinnerFlat).append
        (.dimensions outer.dimensions)
      have hitems := (hflat.append hdeclarator.parens).append hlistFlat.parens
      simpa [Shape.dimensionItems] using hitems
    refine ⟨?_, hall⟩
    rw [spelling_function]
    exact hall "" [] prints_nil .nil

/-- A name is declared with flat items. -/
theorem Scanned.declare_isFlat (h : type.Scanned) (hsizes : type.NoDirective) {name : String}
    (hname : Configuration.isIdentifier name = true) : IsFlat (type.declare name) := by
  obtain ⟨items, hprints, hflat, -⟩ :=
    (h.exists_items hsizes).2 name _ (prints_word hname) (.words [name])
  exact ⟨items, hprints, hflat⟩

/-- Another shape with the same dimensions keeps a type one from a source text; that of a function
pointer has to be one of a pointer. -/
theorem Scanned.withShape (h : type.Scanned) {shape : Shape}
    (hdimensions : shape.dimensions = type.shape.dimensions)
    (hpointer : type.isFunctionPointer = true → type.shape.IsPointer → shape.IsPointer) :
    (type.withShape shape).Scanned := by
  have hscanned : ∀ {outer : Shape}, outer.Scanned → shape.dimensions = outer.dimensions →
      shape.Scanned := by
    intro outer houter hsame size hsize
    exact houter size (hsame ▸ hsize)
  cases h with
  | base hbase hshape => exact .base hbase (hscanned hshape hdimensions)
  | function hresult hinner hparams houter hshape =>
    exact .function hresult hinner hparams (hpointer rfl houter) (hscanned hshape hdimensions)

/-- A shape with the same dimensions adds no directive. -/
theorem NoDirective.withShape (h : type.NoDirective) {shape : Shape}
    (hdimensions : shape.dimensions = type.shape.dimensions) : (type.withShape shape).NoDirective := by
  intro part hpart size hsize
  cases type with
  | base b outer =>
    rw [List.mem_singleton.mp hpart] at hsize
    refine h _ (mem_parts_self _) size ?_
    rwa [← hdimensions]
  | function result params variadic outer =>
    rcases List.mem_cons.mp hpart with rfl | hpart
    · refine h _ (mem_parts_self _) size ?_
      rwa [← hdimensions]
    · exact h part (List.mem_cons_of_mem _ hpart) size hsize

end CType

/-! ## Functions from a source text -/

/-- No array size in the prototype of a function has a directive in it. -/
def Function.NoDirective (f : Function) : Prop :=
  ∀ part ∈ f.types, ∀ size ∈ part.shape.dimensions.filterMap id, WithoutDirective size

instance (f : Function) : Decidable f.NoDirective :=
  inferInstanceAs (Decidable (∀ part ∈ f.types, ∀ size ∈ part.shape.dimensions.filterMap id,
    WithoutDirective size))

namespace Function.NoDirective

variable {f : Function}

theorem result (h : f.NoDirective) : f.result.NoDirective :=
  fun part hpart => h part (List.mem_append_left _ hpart)

theorem param (h : f.NoDirective) {param : Param} (hparam : param ∈ f.params.params) :
    param.type.NoDirective :=
  fun part hpart => h part (List.mem_append_right _
    (CType.mem_partsOf.mpr ⟨param.type, List.mem_map_of_mem hparam, hpart⟩))

end Function.NoDirective

/-- A name is declared with flat items, too, with the type in which a parameter is kept. -/
theorem RemoteParam.storage_isFlat {param : RemoteParam} (h : param.type.Scanned)
    (hsizes : param.type.NoDirective) {name : String}
    (hname : Configuration.isIdentifier name = true) : IsFlat (param.storageType.declare name) := by
  obtain ⟨shape, hdeclare, hdimensions, hpointer⟩ := param.exists_shape
  rw [hdeclare]
  exact (h.withShape hdimensions hpointer).declare_isFlat (hsizes.withShape hdimensions) hname

/-- Each parameter of a remote function is called by a word, and its type is one from a source text
if the function is. -/
theorem RemoteFunction.Parts.scanned {f : Function} {remote : RemoteFunction}
    {declared returned : List RemoteParam} (h : Parts f remote declared returned) (hf : f.Scanned)
    (hsizes : f.NoDirective) {param : RemoteParam} (hparam : param ∈ remote.params) :
    Configuration.isIdentifier param.name = true ∧ param.type.Scanned ∧ param.type.NoDirective := by
  rcases h.mem_params hparam with hparam | ⟨-, rfl⟩
  · have hmem : ⟨some param.name, param.type⟩ ∈ f.params.params := by
      rw [h.declared.origins_eq]
      exact List.mem_map_of_mem hparam
    obtain ⟨htype, hname⟩ := hf.params _ hmem
    exact ⟨(hname _ rfl).word, htype, hsizes.param hmem⟩
  · exact ⟨RemoteFunction.Declarable.isIdentifier_resultName, hf.result, hsizes.result⟩

end RemoteCalls
