import RemoteCalls.Proofs.Outline.Allowing
import RemoteCalls.Proofs.Outline.Bodies
import RemoteCalls.Proofs.Outline.Closing
import RemoteCalls.Proofs.Outline.PrintedStructures
import RemoteCalls.Proofs.Outline.Signature
import RemoteCalls.Proofs.Stub.Flat

/-!
# What a reader can make of a declaration

Where it is not known whether a declaration is read again, it is still known what can be read: a
reader that has a result takes flat items in parentheses or braces as far as the group goes, so that
a name with a list behind it can only be declared as a function, and members in braces only belong to
the structure around them.
-/

namespace RemoteCalls

/-! ## What declarations begin with -/

/-- The words in front of a declarator are a name alone, or begin with no name. -/
theorem Base.Printable.words_cases {b : Base} (h : b.Printable) (shape : Shape) :
    (∃ word words, shape.qualifierWords ++ b.words = word :: words ∧
      Outline.beginsDeclaration (.ofWord word) = true ∧ ∀ name, Token.ofWord word ≠ .identifier name) ∨
      ∃ name, IsPlainName name ∧ shape.qualifierWords ++ b.words = [name] := by
  have htype : (CType.base b { shape with dimensions := [] }).Printable := .base h nofun
  obtain ⟨word, words, hwords⟩ := List.exists_cons_of_ne_nil htype.words_ne_nil
  by_cases hname : ∃ name, Token.ofWord word = .identifier name
  · obtain ⟨name, hname⟩ := hname
    obtain ⟨rfl, hidentifier⟩ := htype.eq_nil_of_identifier hwords hname
    obtain rfl : name = word := by rw [← Token.text_ofWord word, hname]; rfl
    refine .inr ⟨name, ?_, hwords⟩
    have hlength := congrArg List.length hwords
    cases h with
    | @named other hplain =>
      have heq : name = other := by
        simpa [CType.parts, CType.identifier?, Base.identifier?] using hidentifier
      exact heq ▸ hplain
    | builtin _ _ _ => simp [CType.parts, CType.identifier?, Base.identifier?] at hidentifier
    | _ => simp [CType.words, Base.words] at hlength
  · refine .inl ⟨word, words, hwords, htype.beginsDeclaration_of_mem ?_, fun name h => hname ⟨name, h⟩⟩
    rw [hwords]
    exact List.mem_cons_self ..

/-- What the declaration of something begins with whose own items are `inner`. Behind a name that
comes first stands a star, a pair of parentheses that begins with one, or what is declared. -/
inductive CType.BeginsBy (inner : List Item) : List Item → Prop
  | word {t : Token} {more : List Item} (h : Outline.beginsDeclaration t = true)
      (hword : ∀ name, t ≠ .identifier name) : BeginsBy inner (.token t :: more)
  | star {name : String} {more : List Item} (hname : IsPlainName name) :
      BeginsBy inner (.token (.identifier name) :: .token .star :: more)
  | pointer {name : String} {more : List Item} (hname : IsPlainName name) :
      BeginsBy inner (.token (.identifier name) :: .token .openParen :: .token .star :: more)
  | name {name : String} (hname : IsPlainName name) (sizes : List (Option String)) :
      BeginsBy inner (.token (.identifier name) :: (inner ++ sizes.map .dimension))

theorem CType.DeclaredBy.beginsBy {inner items : List Item} {type : CType}
    (h : type.DeclaredBy inner items) : BeginsBy inner items := by
  have hpointer : ∀ {b : Base}, b.Printable → ∀ (shape : Shape) (n m : Nat) (more : List Item),
      BeginsBy inner (wordItems (shape.qualifierWords ++ b.words) ++
        (starItems n ++ .token .openParen :: (starItems (m + 1) ++ more))) := by
    intro b hb shape n m more
    rcases hb.words_cases shape with ⟨word, words, hwords, hbegins, hword⟩ | ⟨name, hname, hwords⟩
    · rw [hwords]
      exact .word hbegins hword
    · rw [hwords, wordItems, List.map_singleton, hname.token]
      cases n with
      | zero => exact .pointer hname
      | succ n => exact .star hname
  cases h with
  | @anonymous _ shape keyword more hkeyword =>
    obtain ⟨isConst, isVolatile, pointers, dimensions⟩ := shape
    have hqualifier : ∀ {word : String} {more : List Item},
        BeginsBy inner (.token (.qualifier word) :: more) := .word rfl fun _ h => by cases h
    cases isConst
    · cases isVolatile
      · rcases hkeyword with rfl | rfl | rfl <;> exact .word rfl fun _ h => by cases h
      · exact hqualifier
    · exact hqualifier
  | @base b shape hbase =>
    rcases hbase.words_cases shape with ⟨word, words, hwords, hbegins, hword⟩ | ⟨name, hname, hwords⟩
    · rw [items, CType.words, hwords]
      exact .word hbegins hword
    · rw [items, CType.words, hwords, wordItems, List.map_singleton, hname.token,
        declaratorItems]
      obtain ⟨isConst, isVolatile, pointers, dimensions⟩ := shape
      cases pointers with
      | zero => exact .name hname dimensions
      | succ n => exact .star hname
  | @pointer b around outer params variadic list hbase hlist =>
    obtain ⟨m, hm⟩ := Nat.exists_eq_add_of_le' (Nat.le_max_right outer.pointers 1)
    simp only [hm, List.append_assoc, List.cons_append]
    exact hpointer hbase around around.pointers m _
  | @nameless result params variadic outer n m more hleaf hresult =>
    rw [← CType.words_leaf]
    generalize result.leaf = leaf at hleaf ⊢
    cases hleaf with
    | @base b shape hbase _ => exact hpointer hbase shape n m _
    | @function b around outer params variadic hbase _ _ _ _ _ => exact hpointer hbase around n m _

namespace Reader

variable {setting : Setting} {tags : List Structure} {items more : List Item} {P : Token → Prop}
  {steps : Nat}

/-- A reader that closes the group around it, in front of flat items and a closing delimiter. -/
theorem Passes.rest_eq_of_flat {cursor next : Cursor} (h : Passes true cursor next)
    {list : List Item} (hlist : Item.Flat list) {t : Token} (ht : t.isCloser = true)
    {row behind : List Lexeme} (hrow : Spells (list ++ [.token t]) row)
    (hrest : cursor.rest = row ++ behind) : next.rest = behind ∧ next.tags = cursor.tags := by
  obtain ⟨inner, back, rfl, hinner, hback⟩ := hrow.of_append
  cases hback with
  | @token closer _ _ hnil =>
    cases hnil
    have hbalanced : Token.Balanced (Lexeme.tokens inner) := (hinner.nest 0).trans hlist.balanced
    have hsplit : cursor.rest = inner ++ closer :: behind := by simpa using hrest
    obtain ⟨hnext, htags⟩ := h.rest_eq hsplit hbalanced ht
    exact ⟨hnext, htags (hinner.braceless hlist.isFlat)⟩

/-! ## Functions -/

/-- A flat list in parentheses is taken as parameters if it can be. -/
theorem parameters_allows {list : List Item} (hlist : Item.Flat list) :
    Allows setting tags (parameters steps) (.token .openParen :: list ++ [.token .closeParen])
      (fun _ => True) fun _ tags' => tags' = tags := by
  intro row behind kind params next hrow _ hrun
  obtain ⟨opener, rest, rfl, hrest⟩ := hrow.exists_cons
  exact ((allMove steps).parameters hrun).rest_eq_of_flat hlist rfl hrest rfl

/-- A list behind a declarator makes it a function with some parameters. -/
theorem declaratorSuffixes_allows {abstract : Bool} {list : List Item} (hlist : Item.Flat list)
    (ops : List DeclaratorOp) :
    Allows setting tags (declaratorSuffixes steps ops)
      (.token .openParen :: list ++ [.token .closeParen]) (closes abstract · = true)
      fun ops' tags' => (∃ params, ops' = ops ++ [.function params]) ∧ tags' = tags := by
  cases steps with
  | zero => exact Takes.outOfSteps.allows
  | succ steps =>
    unfold declaratorSuffixes
    refine .token fun t ht => ?_
    change Allows _ _ (do
      nameFunction
      let params ← parameters steps
      declaratorSuffixes steps (ops ++ [.function params])) _ _ _
    refine .modifyKind (fun kind => if kind = .variable then .function else kind) ?_
    refine Allows.bind_nil ((parameters_allows hlist).mono (fun _ _ hQ => hQ) fun _ _ => trivial) ?_
    rintro params _ rfl
    refine ((declaratorSuffixes_dimensions [] _).allows.at_token ht).mono ?_ fun _ hu => hu
    rintro _ _ ⟨rfl, rfl⟩
    exact ⟨⟨params, List.append_nil _⟩, rfl⟩

/-- A declarator declares a name as a function. -/
def IsCall (name : String) (declarator : Declarator) : Prop :=
  declarator.name = some name ∧ ∃ params ops, declarator.ops = .function params :: ops

theorem IsCall.append {name : String} {declarator : Declarator} (h : IsCall name declarator)
    (outer : List DeclaratorOp) : IsCall name ⟨declarator.name, declarator.ops ++ outer⟩ := by
  obtain ⟨hname, params, ops, hops⟩ := h
  exact ⟨hname, params, ops ++ outer, by simp [hops]⟩

/-- Pointers in front of what a declarator consists of otherwise. -/
theorem declarator_of_core {abstract : Bool} {name : String} (n : Nat)
    (hfront : ∀ t, P t → EndsPointers (Item.front t items))
    (h : ∀ steps, Allows setting tags (declaratorCore steps abstract) items P
      fun core tags' => IsCall name core ∧ tags' = tags) :
    Allows setting tags (declarator steps abstract) (starItems n ++ items) P
      fun declarator tags' => IsCall name declarator ∧ tags' = tags := by
  cases steps with
  | zero => exact Takes.outOfSteps.allows
  | succ steps =>
    rw [declarator_succ]
    refine Allows.bind (pointers_stars n 0).allows ?_ hfront
    rintro count _ ⟨rfl, rfl⟩
    refine Allows.bind_nil (h steps) ?_
    rintro core _ ⟨hcore, rfl⟩
    exact (Takes.pure ⟨hcore.append _, rfl⟩).allows

/-- A name with a list behind it is declared as a function. -/
theorem declarator_call {abstract : Bool} {name : String} (hname : IsFreeName name)
    {list : List Item} (hlist : Item.Flat list) (n : Nat) :
    Allows setting tags (declarator steps abstract)
      (starItems n ++ (.token (.identifier name) :: .token .openParen :: list ++
        [.token .closeParen])) (closes abstract · = true)
      fun declarator tags' => IsCall name declarator ∧ tags' = tags := by
  refine declarator_of_core n (fun t _ => ⟨nofun, hname.noAttribute, nofun⟩) fun steps => ?_
  unfold declaratorCore
  change Allows _ _ _ ([.token (.identifier name)] ++
    (.token .openParen :: list ++ [.token .closeParen])) _ _
  refine Allows.bind (declaratorHead_name hname).allows ?_ fun _ _ => trivial
  rintro _ _ ⟨rfl, rfl⟩
  refine Allows.bind_nil (declaratorSuffixes_allows hlist []) ?_
  rintro _ _ ⟨⟨params, rfl⟩, rfl⟩
  exact (Takes.pure ⟨⟨rfl, params, [], rfl⟩, rfl⟩).allows

/-- A declarator in parentheses with a list behind it declares the same name as a function. -/
theorem declarator_nested {abstract : Bool} {name : String} {inner list : List Item}
    (hinner : ∀ steps, Allows setting tags (declarator steps abstract) (.token .star :: inner)
      (closes abstract · = true) fun declarator tags' => IsCall name declarator ∧ tags' = tags)
    (hlist : Item.Flat list) (n : Nat) :
    Allows setting tags (declarator steps abstract)
      (starItems n ++ ((.token .openParen :: .token .star :: inner ++ [.token .closeParen]) ++
        (.token .openParen :: list ++ [.token .closeParen]))) (closes abstract · = true)
      fun declarator tags' => IsCall name declarator ∧ tags' = tags := by
  refine declarator_of_core n (fun t _ => ⟨nofun, rfl, nofun⟩) fun steps => ?_
  have hhead : Allows setting tags (declaratorHead abstract (declarator steps abstract))
      (.token .openParen :: .token .star :: inner ++ [.token .closeParen]) (fun _ => True)
      fun declarator tags' => IsCall name declarator ∧ tags' = tags := by
    unfold declaratorHead
    refine .ahead fun t _ => .advance (Allows.bind (hinner steps) ?_ fun _ _ => rfl)
    rintro declarator _ ⟨hcall, rfl⟩
    exact .expect (Takes.pure ⟨hcall, rfl⟩).allows
  unfold declaratorCore
  refine Allows.bind hhead ?_ fun _ _ => trivial
  rintro declarator _ ⟨hcall, rfl⟩
  refine Allows.bind_nil (declaratorSuffixes_allows hlist _) ?_
  rintro _ _ ⟨⟨params, rfl⟩, rfl⟩
  exact (Takes.pure ⟨hcall.append _, rfl⟩).allows

/-- A declarator of a function has no other meaning than a function. -/
theorem IsCall.exists_meaning {name : String} {declarator : Declarator} (h : IsCall name declarator)
    {base : CType} {meaning : Declared} (hmeaning : declarator.resolve base = .ok meaning) :
    ∃ result params, meaning = .function result params := by
  obtain ⟨-, params, ops, hops⟩ := h
  rw [Declarator.resolve, hops, Declared.ofOps] at hmeaning
  cases hinner : Declared.ofOps base ops with
  | error fault =>
    rw [hinner] at hmeaning
    cases hmeaning
  | ok inner =>
    rw [hinner] at hmeaning
    change inner.derive (.function params) = .ok meaning at hmeaning
    cases inner with
    | function result params' => cases hmeaning
    | object type =>
      rw [Declared.derive] at hmeaning
      split at hmeaning
      · exact ⟨type, params, (Except.ok.inj hmeaning).symm⟩
      · cases hmeaning

/-- A declaration is one of a function with the given name. -/
def IsFunctionNamed (name : String) (d : Declaration) : Prop :=
  ∃ g, d = .function g ∧ g.name = name

/-- A body behind the declarator of a function. -/
theorem declarators_allows {name : String} {start : Position} {specifiers : Specifiers}
    (hnotTypedef : specifiers.isTypedef = false) (htag : ∀ s, specifiers.tag ≠ .anonymous s)
    (hdeclarator : ∀ steps, Allows setting [] (declarator steps false) items
      (closes false · = true) fun declarator tags' => IsCall name declarator ∧ tags' = [])
    {body : List Item} (hbody : Item.Balanced body) :
    Allows setting [] (declarators start steps specifiers [])
      (items ++ .token .openBrace :: (body ++ [.token .closeBrace])) (fun _ => True)
      fun declared _ => ∃ d, declared = [d] ∧ IsFunctionNamed name d := by
  cases steps with
  | zero => exact Takes.outOfSteps.allows
  | succ steps =>
    unfold declarators
    refine Allows.bind (hdeclarator steps) ?_ fun _ _ => rfl
    rintro ⟨_, ops⟩ _ ⟨hcall, rfl⟩
    obtain rfl : _ = some name := hcall.1
    simp only [nameAnonymous_eq htag]
    refine .resolved fun meaning hmeaning => ?_
    obtain ⟨result, params, rfl⟩ := hcall.exists_meaning hmeaning
    -- Only the prototype matters, so that any record with it will do.
    let f : Function := ⟨name, result, params, .empty, .input, setting.place start, false, none, []⟩
    have hdeclared : Takes setting [] (declared (steps + 1) start specifiers name
        (.function result params)) [] (isAttribute · = false)
        fun d tags' => IsFunction f false d ∧ tags' = [] :=
      declared_takes (f := f) hnotTypedef
    rw [← List.nil_append (Item.token .openBrace :: _)]
    refine Allows.bind hdeclared.allows ?_ fun _ _ => rfl
    rintro d _ ⟨hd, rfl⟩
    rw [List.append_nil]
    have hend : Takes setting [] (declarationEnd start steps specifiers [] d) _ _ _ :=
      declarationEnd_body hd hbody
    refine hend.allows.mono ?_ fun _ ht => ht
    rintro _ _ ⟨e, rfl, g, rfl, hsame, -⟩
    exact ⟨_, rfl, g, rfl, hsame.name⟩

/-- The words of a printable base with a declarator of a function and a body behind them. -/
theorem external_allows {name : String} {b : Base} (hbase : b.Printable) (shape : Shape)
    (hwords : ∀ t, endsWords (Item.front t items) = true)
    (hsemicolon : ∀ t, Item.front t items ≠ .semicolon)
    (hdeclarator : ∀ steps, Allows setting [] (declarator steps false) items
      (closes false · = true) fun declarator tags' => IsCall name declarator ∧ tags' = [])
    {body : List Item} (hbody : Item.Balanced body) :
    Allows setting [] (external steps) (wordItems (shape.qualifierWords ++ b.words) ++
        (items ++ .token .openBrace :: (body ++ [.token .closeBrace]))) (fun _ => True)
      fun declared _ => ∃ d, declared = [d] ∧ IsFunctionNamed name d := by
  have hspecifiers : Takes setting [] (specifiers steps)
      (wordItems (shape.qualifierWords ++ b.words)) _ _ :=
    List.append_nil (wordItems _) ▸ specifiers_base endsSpecifiers_nil hbase shape
  unfold external
  refine .position fun start => Allows.bind hspecifiers.allows ?_ fun t _ => ?_
  · rintro specifiers _ ⟨hspecifies, rfl⟩
    refine .modifyKind (fun kind => if specifiers.isTypedef then .typedef else kind) ?_
    refine .takeTags (.namedStructure? fun named => .token fun t _ => ?_)
    rw [if_neg (by rw [Item.front_append]; exact hsemicolon _)]
    exact (declarators_allows hspecifies.notTypedef hspecifies.tag hdeclarator hbody).mono
      (fun _ _ hQ => hQ) fun _ _ => trivial
  · rw [Item.front_append]
    exact hwords _

/-- A declarator declares no function but an array or what its specifiers name. -/
def IsObject (declarator : Declarator) : Prop :=
  ∃ sizes : List (Option String), declarator.ops = sizes.map .array

/-- No body stands behind the declarator of anything but a function. -/
theorem declarators_object {start : Position} {specifiers : Specifiers}
    {found : List Declaration} (hnotTypedef : specifiers.isTypedef = false)
    (htag : ∀ s, specifiers.tag ≠ .anonymous s)
    (hdeclarator : ∀ steps, Allows setting [] (declarator steps false) items (· = .openBrace)
      fun declarator tags' => IsObject declarator ∧ tags' = []) :
    Refuses setting [] (declarators start steps specifiers found)
      (items ++ .token .openBrace :: more) := by
  cases steps with
  | zero => exact .outOfSteps
  | succ steps =>
    unfold declarators
    refine (hdeclarator steps).refuses ?_ fun _ => rfl
    rintro ⟨name, ops⟩ _ ⟨⟨sizes, hops⟩, rfl⟩
    obtain rfl : ops = _ := hops
    cases name with
    | none => exact .malformed _
    | some name =>
      simp only [nameAnonymous_eq htag]
      rw [Declarator.resolve, Declared.ofOps_arrays, ← List.nil_append (Item.token .openBrace :: more)]
      refine .resolved ?_
      refine Refuses.behind (P := (closes false · = true)) (declared_object hnotTypedef) ?_
        fun _ => rfl
      rintro _ _ ⟨⟨v, rfl, -⟩, rfl⟩
      refine .token fun t => ?_
      rw [if_neg (fun h => Bool.false_ne_true h.1)]
      refine .accept_ne (Refuses.bind (.expect_ne ?_)) fun _ h => by cases h
      exact fun _ h => by cases h

/-- The head of a declarator that begins with a name in parentheses. -/
theorem declaratorHead_paren {name : String} (hname : IsPlainName name) {nested : Reader Declarator}
    {Q : Declarator → List Structure → Prop}
    (h : Allows setting tags (do
      let inner ← nested
      expect .closeParen .declaratorEnd
      return inner) (.token (.identifier name) :: items) P Q) :
    Allows setting tags (declaratorHead false nested)
      (.token .openParen :: .token (.identifier name) :: items) P Q := by
  unfold declaratorHead
  refine .ahead fun t ht => ?_
  have hnested : beginsNested false .openParen (.identifier name) = true := by
    simp only [beginsNested, hname.noAttribute]
    rfl
  have hfront : Item.front t (Item.token (.identifier name) :: items) = .identifier name := rfl
  rw [hfront, hnested, if_pos rfl]
  exact (Allows.advance h).at_token ht

/-- A name is a declarator in front of what begins neither a dimension nor parameters. -/
theorem declarator_name {abstract : Bool} {name : String} (hname : IsFreeName name) :
    Gives setting tags (declarator steps abstract) [.token (.identifier name)]
      (fun t => t ≠ .openBracket ∧ t ≠ .openParen) ⟨some name, []⟩ := by
  cases steps with
  | zero => exact .outOfSteps
  | succ steps =>
    have hcore : Gives setting tags (declaratorCore steps abstract) [.token (.identifier name)]
        (fun t => t ≠ .openBracket ∧ t ≠ .openParen) ⟨some name, []⟩ := by
      unfold declaratorCore
      change Takes _ _ _ ([Item.token (.identifier name)] ++ []) _ _
      refine Gives.bind (declaratorHead_name hname) ?_ fun _ _ => trivial
      exact Gives.bind_nil (declaratorSuffixes_nil []) (.pure ⟨rfl, rfl⟩)
    rw [declarator_succ, ← List.nil_append [Item.token (.identifier name)]]
    refine Gives.bind (pointers_stars 0 0) ?_ fun _ _ =>
      ⟨(fun h => by cases h), hname.noAttribute, fun _ h => by cases h⟩
    exact Gives.bind_nil hcore (.pure ⟨rfl, rfl⟩)

/-- A declarator in parentheses is refused behind a name with neither a dimension nor parameters nor
the closing parenthesis behind it. -/
theorem declaratorHead_refuses {name : String} (hname : IsPlainName name) {t : Token}
    (hbracket : t ≠ .openBracket) (hparen : t ≠ .openParen) (hclose : t ≠ .closeParen)
    {Q : Declarator → List Structure → Prop} :
    Allows setting tags (declaratorHead false (declarator steps false))
      (.token .openParen :: .token (.identifier name) :: .token t :: items) P Q := by
  refine declaratorHead_paren hname ?_
  change Allows _ _ _ ([Item.token (.identifier name)] ++ (.token t :: items)) _ _
  refine Refuses.allows (Refuses.behind_gives (declarator_name hname.free) ?_ fun _ =>
    ⟨hbracket, hparen⟩)
  have hexpect : Refuses setting tags (expect .closeParen .declaratorEnd) (.token t :: items) :=
    .expect_ne fun _ => hclose
  exact hexpect.bind

/-- A declarator in parentheses is refused if it begins with neither a name nor a declarator. -/
theorem declaratorHead_word {t : Token} (h : beginsNested false .openParen t = false)
    {nested : Reader Declarator} :
    Refuses setting tags (declaratorHead false nested) (.token .openParen :: .token t :: items) := by
  unfold declaratorHead
  refine .ahead fun u => ?_
  have hfront : Item.front u (Item.token t :: items) = t := rfl
  rw [hfront, h]
  exact .token fun u => .unexpected _

/-- What begins with a parameter in parentheses is read as no function in a declaration. -/
theorem declaratorHead_param {name : Option String} {row : List Item}
    (hrow : CType.BeginsBy (wordItems name.toList) row)
    (hmore : more = [.token .closeParen] ∨ ∃ rest, more = .token .comma :: rest) :
    Allows setting tags (declaratorHead false (declarator steps false))
      (.token .openParen :: (row ++ more)) (· = .openBrace)
      fun inner tags' => IsObject inner ∧ tags' = tags := by
  cases hrow with
  | @word t rest hbegins hword =>
    refine (declaratorHead_word ?_).allows
    cases t with
    | star => cases hbegins
    | openParen => cases hbegins
    | identifier name => exact absurd rfl (hword name)
    | _ => rfl
  | @star base rest hbase =>
    exact declaratorHead_refuses hbase (t := .star) (fun h => by cases h) (fun h => by cases h)
      fun h => by cases h
  | @name base hbase sizes =>
    cases name with
    | some name =>
      exact declaratorHead_refuses hbase (ofWord_ne rfl) (ofWord_ne rfl) (ofWord_ne rfl)
    | none =>
      have hdeclarator : Gives setting tags (declarator steps false)
          (.token (.identifier base) :: sizes.map .dimension) (closes false · = true)
          ⟨some base, [] ++ CType.shapeOps 0 sizes⟩ := by
        rw [← hbase.token]
        exact (declares_name hbase).shape 0 sizes
      refine declaratorHead_paren hbase ?_
      rcases hmore with rfl | ⟨rest, rfl⟩
      · refine Allows.bind hdeclarator.allows ?_ fun _ _ => rfl
        rintro _ _ ⟨rfl, rfl⟩
        exact .expect (Takes.pure ⟨⟨sizes, by simp [CType.shapeOps]⟩, rfl⟩).allows
      · refine (Refuses.behind_gives hdeclarator ?_ fun _ => rfl).allows
        exact Refuses.bind (.expect_ne fun _ h => by cases h)
  | @pointer base rest hbase =>
    refine declaratorHead_paren hbase (Refuses.bind ?_).allows
    cases steps with
    | zero => exact .outOfSteps
    | succ steps =>
      rw [declarator_succ, ← List.nil_append (Item.token (.identifier base) :: _)]
      refine Refuses.behind_gives (pointers_stars 0 0) (Refuses.bind ?_) fun _ =>
        ⟨(fun h => by cases h), hbase.noAttribute, fun _ h => by cases h⟩
      unfold declaratorCore
      change Refuses _ _ _ ([Item.token (.identifier base)] ++
        (.token .openParen :: .token .star :: (rest ++ more)))
      refine Refuses.behind_gives (declaratorHead_name hbase.free) ?_ fun _ => trivial
      exact (declaratorSuffixes_refuses fun _ => parameters_star).bind

/-- A list of parameters with the parenthesis behind it begins with one of them, or with a word that
is no name. -/
inductive BeginsList : List Item → Prop
  | param {name : Option String} {row more : List Item}
      (hrow : CType.BeginsBy (wordItems name.toList) row)
      (hmore : more = [.token .closeParen] ∨ ∃ rest, more = .token .comma :: rest) :
      BeginsList (row ++ more)
  | word {t : Token} {more : List Item} (h : beginsNested false .openParen t = false) :
      BeginsList (.token t :: more)

/-- A list of parameters begins as one of them if there are any. -/
theorem beginsList_listItems {rows : List (List Item)}
    (h : ∀ row ∈ rows, ∃ name : Option String, CType.BeginsBy (wordItems name.toList) row)
    (variadic : Bool) : BeginsList (listItems rows variadic ++ [.token .closeParen]) := by
  cases rows with
  | nil =>
    cases variadic
    · exact .word (t := .builtin "void") rfl
    · exact .word (t := .ellipsis) rfl
  | cons row rows =>
    obtain ⟨name, hrow⟩ := h row (List.mem_cons_self ..)
    rw [listItems_cons]
    refine .param hrow ?_
    split
    · exact .inr ⟨_, rfl⟩
    · exact .inl rfl

/-- A list of parameters is read as no function where a declarator should stand. -/
theorem declarator_list (h : BeginsList items) :
    Allows setting tags (declarator steps false) (.token .openParen :: items)
      (· = .openBrace) fun declarator tags' => IsObject declarator ∧ tags' = tags := by
  cases steps with
  | zero => exact Takes.outOfSteps.allows
  | succ steps =>
    have hhead : Allows setting tags (declaratorHead false (declarator steps false))
        (.token .openParen :: items) (· = .openBrace)
        fun inner tags' => IsObject inner ∧ tags' = tags := by
      cases h with
      | param hrow hmore => exact declaratorHead_param hrow hmore
      | word h => exact (declaratorHead_word h).allows
    rw [declarator_succ, ← List.nil_append (Item.token .openParen :: items)]
    refine Allows.bind (pointers_stars 0 0).allows ?_ fun _ _ => ⟨nofun, rfl, nofun⟩
    rintro count _ ⟨rfl, rfl⟩
    unfold declaratorCore
    rw [bind_assoc]
    refine Allows.bind_nil hhead ?_
    rintro inner _ ⟨⟨sizes, hops⟩, rfl⟩
    rw [bind_assoc]
    refine Allows.bind_nil ((declaratorSuffixes_nil inner.ops).allows.mono
      (fun _ _ hQ => hQ) ?_) ?_
    · rintro _ rfl
      exact ⟨nofun, nofun⟩
    · rintro _ _ ⟨rfl, rfl⟩
      exact (Takes.pure ⟨⟨sizes, by simp [hops]⟩, rfl⟩).allows

/-- A name that is skipped leaves no function behind the words of a type. -/
theorem external_ignored {name : String} (hname : IsFreeName name)
    (hignored : ignoredWords.contains name = true) {b : Base} (hbase : b.Printable) (shape : Shape)
    {list : List Item} (hlist : BeginsList (list ++ [.token .closeParen])) :
    Refuses setting [] (external steps) (wordItems (shape.qualifierWords ++ b.words) ++
      (.token (.identifier name) :: .token .openParen :: list ++ [.token .closeParen]) ++
        .token .openBrace :: more) := by
  have hspecifiers : Takes setting [] (specifiers steps)
      (wordItems (shape.qualifierWords ++ b.words) ++ [.token (.identifier name)]) _ _ :=
    specifiers_base (endsSpecifiers_ignored hname.noAttribute hignored) hbase shape
  have hall : wordItems (shape.qualifierWords ++ b.words) ++
      (.token (.identifier name) :: .token .openParen :: list ++ [.token .closeParen]) ++
        .token .openBrace :: more =
      (wordItems (shape.qualifierWords ++ b.words) ++ [.token (.identifier name)]) ++
        ((.token .openParen :: (list ++ [.token .closeParen])) ++ .token .openBrace :: more) := by
    simp
  rw [hall]
  unfold external
  refine .position fun start => Refuses.behind hspecifiers ?_ fun _ => rfl
  rintro specifiers _ ⟨hspecifies, rfl⟩
  refine .modifyKind (fun kind => if specifiers.isTypedef then .typedef else kind) ?_
  refine .takeTags (.namedStructure? fun named => .token fun t => ?_)
  rw [if_neg (by exact nofun)]
  exact declarators_object hspecifies.notTypedef hspecifies.tag fun steps =>
    declarator_list hlist

/-- No tag stands in front of a parenthesis. -/
theorem tagName_openParen :
    Gives setting tags (tagName (steps + 1)) [] (· = .openParen) none := by
  have hname : Gives setting tags name? [] (· = .openParen) none := by
    refine .token fun t ht => ?_
    subst ht
    exact .pure ⟨rfl, rfl⟩
  unfold tagName
  refine .skipAttributes (Gives.bind_nil hname (.skipAttributes (.pure ⟨rfl, rfl⟩) ?_)) ?_
  · rintro _ rfl
    rfl
  · rintro _ rfl
    rfl

/-- Behind a qualifier words are refused. -/
theorem specifierWords_refuses {s : SpecifierWords} {word : String}
    (h : ∀ steps, Refuses setting tags (specifierWords steps (s.addQualifier word)) items) :
    Refuses setting tags (specifierWords steps s) (.token (.qualifier word) :: items) := by
  cases steps with
  | zero => exact .outOfSteps
  | succ steps =>
    unfold specifierWords
    exact .token fun t => .advance (h steps)

/-- A tag that is missing is not read. -/
theorem specifiers_anonymous (shape : Shape) {keyword : Token} (hkeyword : keyword.IsTagWord) :
    Refuses setting tags (specifiers steps)
      (wordItems shape.qualifierWords ++ .token keyword :: .token .openParen :: more) := by
  have htag : ∀ steps, Refuses setting tags (tagSpecifier steps)
      (.token keyword :: .token .openParen :: more) := by
    intro steps
    cases steps with
    | zero => exact .outOfSteps
    | succ steps =>
      unfold tagSpecifier
      refine .position fun start => .token fun t => .advance ?_
      rw [← List.nil_append (Item.token .openParen :: more)]
      refine Refuses.behind_gives tagName_openParen (.token fun u => ?_) fun _ => rfl
      rw [if_neg fun h => by cases h]
      exact .malformed _
  have hwords : ∀ isConst isVolatile steps, Refuses setting tags
      (specifierWords steps ⟨.empty, false, isConst, isVolatile, [], none, .other⟩)
      (.token keyword :: .token .openParen :: more) := by
    intro isConst isVolatile steps
    cases steps with
    | zero => exact .outOfSteps
    | succ steps =>
      unfold specifierWords
      refine .token fun t => ?_
      rcases hkeyword with rfl | rfl | rfl <;> exact (htag steps).bind
  cases steps with
  | zero => exact .outOfSteps
  | succ steps =>
    unfold specifiers
    refine Refuses.bind ?_
    obtain ⟨isConst, isVolatile, pointers, dimensions⟩ := shape
    cases isConst <;> cases isVolatile
    · exact hwords false false steps
    · exact specifierWords_refuses fun steps => hwords false true steps
    · exact specifierWords_refuses fun steps => hwords true false steps
    · exact specifierWords_refuses fun steps => specifierWords_refuses fun steps =>
        hwords true true steps

/-- Nothing is declared where the specifiers are refused. -/
theorem external_specifiers (h : ∀ steps, Refuses setting [] (specifiers steps) items) :
    Refuses setting [] (external steps) items := by
  unfold external
  exact .position fun start => (h steps).bind

/-- In a declaration a name is missing in the parentheses of a function pointer behind the words of
a printable type. -/
theorem external_nameless {type : CType} (htype : type.Printable) (n m : Nat) :
    Refuses setting [] (external steps) (wordItems type.words ++
      (starItems n ++ .token .openParen :: (starItems (m + 1) ++ .token .closeParen :: more))) := by
  have hfront : ∀ t, Item.front t (starItems n ++ .token .openParen ::
      (starItems (m + 1) ++ .token .closeParen :: more)) = .star ∨
      Item.front t (starItems n ++ .token .openParen ::
        (starItems (m + 1) ++ .token .closeParen :: more)) = .openParen := by
    intro t
    rw [Item.front_append, front_starItems]
    split
    · exact .inr rfl
    · exact .inl rfl
  unfold external
  refine .position fun start => Refuses.behind (specifiers_takes htype) ?_ fun t => ?_
  · rintro specifiers _ ⟨-, rfl⟩
    refine .modifyKind (fun kind => if specifiers.isTypedef then .typedef else kind) ?_
    refine .takeTags (.namedStructure? fun named => .token fun t => ?_)
    rw [if_neg]
    · cases steps with
      | zero => exact .outOfSteps
      | succ steps =>
        unfold declarators
        exact (declarator_stars n m).bind
    · rcases hfront t with hfront | hfront <;> simp [hfront]
  · rcases hfront t with hfront | hfront <;> simp [hfront, endsWords]

/-- A function that is declared with a type from a source text, with a body behind it, can only be
declared as a function of its name. -/
theorem external_declaredBy {type : CType} {name : String} {list body : List Item}
    (hname : IsFreeName name) (hlist : Item.Flat list) (hbegins : BeginsList (list ++ [.token .closeParen]))
    (hdimensions : type.shape.dimensions = []) (h : type.DeclaredBy
      (.token (.identifier name) :: .token .openParen :: list ++ [.token .closeParen]) items)
    (hbody : Item.Balanced body) :
    Allows setting [] (external steps) (items ++ .token .openBrace :: (body ++ [.token .closeBrace]))
      (fun _ => True) fun declared _ => ∃ d, declared = [d] ∧ IsFunctionNamed name d := by
  cases h with
  | @anonymous _ shape keyword more hkeyword =>
    rw [List.append_assoc]
    exact (external_specifiers fun _ => specifiers_anonymous shape hkeyword).allows
  | @base b shape hbase =>
    have hnone : shape.dimensions = [] := hdimensions
    have hitems : (CType.base b shape).items
        (.token (.identifier name) :: .token .openParen :: list ++ [.token .closeParen]) =
        wordItems (shape.qualifierWords ++ b.words) ++ (starItems shape.pointers ++
          (.token (.identifier name) :: .token .openParen :: list ++ [.token .closeParen])) := by
      simp [CType.items, CType.words, CType.declaratorItems, Shape.dimensionItems, hnone]
    rw [hitems]
    by_cases hskipped : shape.pointers = 0 ∧ ignoredWords.contains name = true
    · rw [hskipped.1]
      exact (external_ignored hname hskipped.2 hbase shape hbegins).allows
    rw [List.append_assoc]
    refine external_allows hbase shape ?_ ?_ (fun steps => declarator_call hname hlist _) hbody
    · intro t
      rw [Item.front_append, front_starItems]
      split
      · next hpointers =>
        have hword : ignoredWords.contains name = false :=
          Bool.eq_false_iff.mpr fun hignored => hskipped ⟨hpointers, hignored⟩
        change (!attributeWords.contains name && !ignoredWords.contains name) = true
        rw [hname.noAttribute, hword]
        rfl
      · rfl
    · intro t
      rw [Item.front_append, front_starItems]
      split <;> exact fun h => by cases h
  | @pointer b around outer params variadic list' hbase hlist' =>
    obtain ⟨m, hm⟩ := Nat.exists_eq_add_of_le' (Nat.le_max_right outer.pointers 1)
    have hnone : outer.dimensions = [] := hdimensions
    have hinner : ∀ steps, Allows setting [] (declarator steps false) (.token .star ::
        (starItems m ++ (.token (.identifier name) :: .token .openParen :: list ++
          [.token .closeParen]))) (closes false · = true)
        fun declarator tags' => IsCall name declarator ∧ tags' = [] :=
      fun steps => declarator_call hname hlist (m + 1)
    have hitems : wordItems (around.qualifierWords ++ b.words) ++ (starItems around.pointers ++
        .token .openParen :: (starItems (max outer.pointers 1) ++ (.token (.identifier name) ::
          .token .openParen :: list ++ [.token .closeParen]) ++ outer.dimensionItems) ++
        [.token .closeParen, .token .openParen] ++ list' ++ [.token .closeParen]) =
        wordItems (around.qualifierWords ++ b.words) ++ (starItems around.pointers ++
          ((.token .openParen :: .token .star :: (starItems m ++ (.token (.identifier name) ::
            .token .openParen :: list ++ [.token .closeParen])) ++ [.token .closeParen]) ++
            (.token .openParen :: list' ++ [.token .closeParen]))) := by
      simp [hm, Shape.dimensionItems, hnone, starItems, List.replicate_succ]
    rw [hitems, List.append_assoc]
    refine external_allows hbase around ?_ ?_
      (fun steps => declarator_nested hinner hlist' around.pointers) hbody
    · intro t
      rw [Item.front_append, front_starItems]
      split <;> rfl
    · intro t
      rw [Item.front_append, front_starItems]
      split <;> exact fun h => by cases h
  | @nameless result params variadic outer n m more hleaf hresult =>
    rw [← CType.words_leaf]
    exact ((external_nameless hleaf n m).append _).allows

/-! ## Structures -/

/-- Flat items up to a closing brace are taken as the members of a structure if they can be, which
has the same name then. -/
theorem members_allows {list : List Item} (hlist : Item.Flat list) (opened : Position)
    (s : Structure) : Allows setting tags (members steps opened s) (list ++ [.token .closeBrace])
      (fun _ => True) fun t tags' => t.name = s.name ∧ tags' = tags := by
  intro row behind kind t next hrow _ hrun
  obtain ⟨-, -, -, -, -, hname⟩ := members_eq_ok hrun
  have hpasses := (allMove steps).members opened s setting _ t next trivial hrun
  obtain ⟨hrest, htags⟩ := hpasses.rest_eq_of_flat hlist rfl hrow rfl
  exact ⟨hrest, hname, htags⟩

variable {tag : String} {list : List Item}

theorem structureBody_allows (hlist : Item.Flat list) (start : Position) :
    Allows setting tags (structureBody start tag (members steps))
      (.token .openBrace :: (list ++ [.token .closeBrace])) (fun _ => True)
      fun s tags' => s.name = tag ∧ tags' = tags := by
  unfold structureBody
  refine .kind fun outer => .modifyKind (fun _ => .struct) (.position fun opened => .advance ?_)
  refine .placeAt start (.origin (Allows.bind_nil (members_allows hlist opened _) ?_))
  rintro s _ ⟨hname, rfl⟩
  exact .modifyKind (fun _ => outer) (Takes.pure ⟨hname, rfl⟩).allows

theorem tagSpecifier_allows (htag : IsFreeName tag) (hlist : Item.Flat list) :
    Allows setting tags (tagSpecifier steps) (.token .struct :: .token (.identifier tag) ::
      .token .openBrace :: (list ++ [.token .closeBrace])) (fun _ => True)
      fun r tags' => r = (.struct tag, .other) ∧ ∃ s : Structure, s.name = tag ∧ tags' = tags ++ [s] := by
  cases steps with
  | zero => exact Takes.outOfSteps.allows
  | succ steps =>
    unfold tagSpecifier
    refine .position fun start => .token fun t _ => .advance ?_
    refine Allows.bind (tagName_gives htag).allows ?_ fun _ _ => rfl
    rintro _ _ ⟨rfl, rfl⟩
    refine .token fun u _ => ?_
    simp only [Item.front, if_true]
    refine Allows.bind_nil ((structureBody_allows hlist start).mono (fun _ _ hQ => hQ)
      fun _ _ => trivial) ?_
    rintro s _ ⟨hname, rfl⟩
    refine Allows.bind_nil (defineTag_takes tag s).allows ?_
    rintro _ _ ⟨rfl, rfl⟩
    exact (Takes.pure ⟨rfl, s, hname, rfl⟩).allows

/-- Flat members in braces behind a tag end the words in front of a declarator. -/
theorem specifiers_allows (htag : IsFreeName tag) (hlist : Item.Flat list) :
    Allows setting [] (specifiers steps) (.token .struct :: .token (.identifier tag) ::
      .token .openBrace :: (list ++ [.token .closeBrace])) (endsWords · = true)
      fun specifiers tags' => specifiers.tag = .other ∧
        ∃ s : Structure, s.name = tag ∧ tags' = [s] := by
  cases steps with
  | zero => exact Takes.outOfSteps.allows
  | succ steps =>
    unfold specifiers
    cases steps with
    | zero => exact Refuses.allows (Refuses.bind .outOfSteps)
    | succ steps =>
      have hwords : Allows setting [] (specifierWords (steps + 1) .empty) (.token .struct ::
          .token (.identifier tag) :: .token .openBrace :: (list ++ [.token .closeBrace]))
          (endsWords · = true) fun words tags' => words = { SpecifierWords.empty with
            base := some (.struct tag), tag := .other } ∧
              ∃ s : Structure, s.name = tag ∧ tags' = [s] := by
        unfold specifierWords
        refine .token fun t ht => ?_
        refine Allows.bind_nil ((tagSpecifier_allows htag hlist).mono (fun _ _ hQ => hQ)
          fun _ _ => trivial) ?_
        rintro _ _ ⟨rfl, s, hname, rfl⟩
        refine (specifierWords_end rfl).allows.mono ?_ fun _ hu => hu ▸ ht
        rintro _ _ ⟨rfl, rfl⟩
        exact ⟨rfl, s, hname, rfl⟩
      refine Allows.bind_nil hwords ?_
      rintro _ _ ⟨rfl, hs⟩
      exact (Takes.pure ⟨rfl, hs⟩).allows

/-- Flat members in braces behind a tag, with a semicolon behind them, can only be declared as the
structure of the tag. -/
theorem external_members (htag : IsFreeName tag) (hlist : Item.Flat list) :
    Allows setting [] (external steps) (.token .struct :: .token (.identifier tag) ::
      .token .openBrace :: (list ++ [.token .closeBrace, .token .semicolon])) (fun _ => True)
      fun declared _ => ∃ s : Structure, declared = [.struct s] ∧ s.name = tag := by
  have hitems : Item.token .struct :: .token (.identifier tag) :: .token .openBrace ::
      (list ++ [.token .closeBrace, .token .semicolon]) = (.token .struct ::
        .token (.identifier tag) :: .token .openBrace :: (list ++ [.token .closeBrace])) ++
        [.token .semicolon] := by simp
  rw [hitems]
  unfold external
  refine .position fun start => Allows.bind (specifiers_allows htag hlist) ?_ fun _ _ => rfl
  rintro specifiers _ ⟨hother, s, hname, rfl⟩
  refine .modifyKind (fun kind => if specifiers.isTypedef then .typedef else kind) (.takeTags ?_)
  rw [namedStructure?_of_other hother, pure_bind]
  refine .token fun t _ => ?_
  simp only [Item.front, if_true]
  exact .advance (Takes.pure ⟨s, rfl, hname⟩).allows

end Reader

end RemoteCalls
