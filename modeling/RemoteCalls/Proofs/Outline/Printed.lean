import RemoteCalls.Proofs.Outline.Words

/-!
# Printed declarators are read again

A printed declarator gives the operators that make its type, and a printed parameter list gives its
parameters. The parameters of a function pointer have declarators again, so that the induction is on
the type that is printed.
-/

namespace RemoteCalls

namespace Reader

variable {α : Type} {setting : Setting} {tags : List Structure} {items more : List Item}
  {P : Token → Prop} {steps : Nat}

/-- Whether a token may stand behind a declarator. An abstract one stands in a parameter list. -/
def closes (abstract : Bool) : Token → Bool
  | .closeParen | .comma => true
  | .semicolon | .openBrace | .colon => !abstract
  | _ => false

/-- Whether a token may stand behind pointers. -/
def FollowsPointers (t : Token) : Prop :=
  endsWords t = true ∧ t ≠ .star

/-- Whether the stars in front of a token are all that there are, with nothing to skip behind them. -/
def EndsPointers (t : Token) : Prop :=
  t ≠ .star ∧ isAttribute t = false ∧ ∀ word, t ≠ .qualifier word

theorem pointers_stars (n count : Nat) :
    Gives setting tags (pointers steps count) (starItems n) EndsPointers (count + n) := by
  induction n generalizing steps count with
  | zero =>
    cases steps with
    | zero => exact .outOfSteps
    | succ steps =>
      unfold pointers
      exact .accept_ne (.pure ⟨rfl, rfl⟩) fun t ht => ht.1
  | succ n ih =>
    cases steps with
    | zero => exact .outOfSteps
    | succ steps =>
      have hfront : ∀ t, EndsPointers t → isAttribute (Item.front t (starItems n)) = false ∧
          ∀ word, Item.front t (starItems n) ≠ .qualifier word := by
        intro t ht
        cases n with
        | zero => exact ht.2
        | succ n => exact ⟨rfl, fun _ h => by cases h⟩
      unfold pointers
      refine .accept (.skipQualifiers (.skipAttributes ?_ ?_) ?_)
      · rw [Nat.add_comm n 1, ← Nat.add_assoc]
        exact ih (count + 1)
      · exact fun t ht => (hfront t ht).1
      · exact fun t ht => (hfront t ht).2

theorem pointers_gives (n count : Nat) :
    Gives setting tags (pointers steps count) (starItems n) FollowsPointers (count + n) := by
  refine (pointers_stars n count).mono (fun _ _ hQ => hQ) fun t ht => ?_
  refine ⟨ht.2, (isAttribute_of_endsWords ht.1).1, ?_⟩
  rintro word rfl
  cases ht.1

/-- A declarator ends in front of what begins neither a dimension nor parameters. -/
theorem declaratorSuffixes_nil (ops : List DeclaratorOp) :
    Gives setting tags (declaratorSuffixes steps ops) []
      (fun t => t ≠ .openBracket ∧ t ≠ .openParen) ops := by
  cases steps with
  | zero => exact .outOfSteps
  | succ steps =>
    unfold declaratorSuffixes
    refine .token fun t ht => ?_
    cases t with
    | openBracket => exact absurd rfl ht.1
    | openParen => exact absurd rfl ht.2
    | _ => exact .pure ⟨rfl, rfl⟩

theorem declaratorSuffixes_dimensions {abstract : Bool} (dimensions : List (Option String))
    (ops : List DeclaratorOp) :
    Gives setting tags (declaratorSuffixes steps ops) (dimensions.map .dimension)
      (closes abstract · = true) (ops ++ dimensions.map .array) := by
  induction dimensions generalizing steps ops with
  | nil =>
    rw [List.map_nil, List.map_nil, List.append_nil]
    refine (declaratorSuffixes_nil ops).mono (fun _ _ hQ => hQ) fun t ht => ?_
    constructor <;> rintro rfl <;> cases ht
  | cons size dimensions ih =>
    cases steps with
    | zero => exact .outOfSteps
    | succ steps =>
      unfold declaratorSuffixes
      refine .token fun t ht => .group fun inner hinner => ?_
      have hrest : Gives setting tags (declaratorSuffixes steps (ops ++ [.array size])) _ _ _ :=
        ih (ops ++ [.array size])
      rw [List.append_assoc] at hrest
      dsimp only
      rw [hinner]
      exact hrest.at_token ht

/-- A reader of the head of a declarator and of what stands behind it. -/
def declaratorCore (steps : Nat) (abstract : Bool) : Reader Declarator := do
  let inner ← declaratorHead abstract (declarator steps abstract)
  let ops ← declaratorSuffixes steps inner.ops
  return ⟨inner.name, ops⟩

theorem declarator_succ (steps : Nat) (abstract : Bool) :
    declarator (steps + 1) abstract = do
      let count ← pointers (steps + 1) 0
      let core ← declaratorCore steps abstract
      return ⟨core.name, core.ops ++ List.replicate count .pointer⟩ := by
  unfold declarator declaratorCore
  simp

/-- Some items stand for a name with operators, and dimensions may be behind them. -/
structure Declares (setting : Setting) (tags : List Structure) (abstract : Bool)
    (inner : List Item) (name : Option String) (ops : List DeclaratorOp) : Prop where
  front : ∀ t, t = .openBracket ∨ closes abstract t = true → FollowsPointers (Item.front t inner)
  core : ∀ steps (dimensions : List (Option String)),
    Gives setting tags (declaratorCore steps abstract) (inner ++ dimensions.map .dimension)
      (closes abstract · = true) ⟨name, ops ++ dimensions.map .array⟩

/-- What stands behind a token and some dimensions. -/
theorem front_dimensions_closes {abstract : Bool} {t : Token} (ht : closes abstract t = true)
    (dimensions : List (Option String)) :
    Item.front t (dimensions.map .dimension) = .openBracket ∨
      closes abstract (Item.front t (dimensions.map .dimension)) = true := by
  cases dimensions with
  | nil => exact .inr ht
  | cons size dimensions => exact .inl rfl

/-- Pointers and dimensions around what is declared. -/
theorem Declares.shape {abstract : Bool} {inner : List Item} {name : Option String}
    {ops : List DeclaratorOp} (h : Declares setting tags abstract inner name ops) (pointers : Nat)
    (dimensions : List (Option String)) :
    Gives setting tags (declarator steps abstract)
      (starItems pointers ++ (inner ++ dimensions.map .dimension)) (closes abstract · = true)
      ⟨name, ops ++ CType.shapeOps pointers dimensions⟩ := by
  cases steps with
  | zero => exact .outOfSteps
  | succ steps =>
    rw [declarator_succ]
    refine Gives.bind (pointers_gives pointers 0) ?_ ?_
    · refine Gives.bind_nil (h.core steps dimensions) (.pure ⟨?_, rfl⟩)
      rw [CType.shapeOps, Nat.zero_add, List.append_assoc]
    · intro t ht
      rw [Item.front_append]
      exact h.front _ (front_dimensions_closes ht dimensions)

theorem followsPointers_name {name : String} (hname : IsPlainName name) :
    FollowsPointers (.identifier name) := by
  refine ⟨?_, nofun⟩
  rw [endsWords, hname.noAttribute, hname.notIgnored]
  rfl

/-- The name of what is declared. -/
theorem declaratorHead_name {abstract : Bool} {nested : Reader Declarator} {name : String}
    (hname : IsFreeName name) :
    Gives setting tags (declaratorHead abstract nested) [.token (.identifier name)]
      (fun _ => True) ⟨some name, []⟩ := by
  unfold declaratorHead
  refine .ahead_front false (fun _ _ _ => rfl) (.token fun t ht => ?_)
  simp only [Item.front, hname.noAttribute]
  exact .advance (.pure ⟨rfl, rfl⟩)

/-- No name stands in front of dimensions and of what is behind a declarator. -/
theorem declaratorHead_nothing {nested : Reader Declarator} :
    Gives setting tags (declaratorHead true nested) []
      (fun t => t = .openBracket ∨ closes true t = true) ⟨none, []⟩ := by
  unfold declaratorHead
  refine .ahead_front false ?_ (.token fun t ht => ?_)
  · rintro t (rfl | ht) u
    · rfl
    · cases t <;> first | rfl | cases ht
  · rcases ht with rfl | ht
    · exact .pure ⟨rfl, rfl⟩
    · cases t <;> first | exact .pure ⟨rfl, rfl⟩ | cases ht

/-- A declarator in parentheses. -/
theorem declaratorHead_nested {abstract : Bool} {nested : Reader Declarator}
    {declarator : Declarator} (h : Gives setting tags nested (.token .star :: items)
      (· = .closeParen) declarator) :
    Gives setting tags (declaratorHead abstract nested)
      (.token .openParen :: .token .star :: items ++ [.token .closeParen]) (fun _ => True)
      declarator := by
  unfold declaratorHead
  refine .ahead fun t ht => ?_
  refine .advance (Gives.bind h (.expect (.pure ⟨rfl, rfl⟩)) ?_)
  exact fun t ht => rfl

theorem declares_name {abstract : Bool} {name : String} (hname : IsPlainName name) :
    Declares setting tags abstract (wordItems [name]) (some name) [] := by
  refine ⟨fun t ht => ?_, fun steps dimensions => ?_⟩
  · rw [wordItems, List.map_singleton, hname.token]
    exact followsPointers_name hname
  · rw [wordItems, List.map_singleton, hname.token]
    unfold declaratorCore
    refine Gives.bind (declaratorHead_name hname.free) ?_ fun t ht => trivial
    exact Gives.bind_nil (declaratorSuffixes_dimensions dimensions []) (.pure ⟨rfl, rfl⟩)

theorem declares_nothing : Declares setting tags true [] none [] := by
  refine ⟨?_, fun steps dimensions => ?_⟩
  · rintro t (rfl | ht)
    · change FollowsPointers .openBracket
      exact ⟨rfl, nofun⟩
    · change FollowsPointers t
      cases t with
      | closeParen => exact ⟨rfl, nofun⟩
      | comma => exact ⟨rfl, nofun⟩
      | _ => cases ht
  · unfold declaratorCore
    refine Gives.bind declaratorHead_nothing ?_ fun t ht => front_dimensions_closes ht dimensions
    exact Gives.bind_nil (declaratorSuffixes_dimensions dimensions []) (.pure ⟨rfl, rfl⟩)

/-- The parameters behind a declarator. -/
theorem declaratorSuffixes_function {abstract : Bool} {list : List Item} {params : ParamList}
    (hparams : ∀ steps, Gives setting tags (parameters steps)
      (.token .openParen :: list ++ [.token .closeParen]) (fun _ => True) params)
    (ops : List DeclaratorOp) (dimensions : List (Option String)) :
    Gives setting tags (declaratorSuffixes steps ops)
      (.token .openParen :: list ++ [.token .closeParen] ++ dimensions.map .dimension)
      (closes abstract · = true) (ops ++ .function params :: dimensions.map .array) := by
  cases steps with
  | zero => exact .outOfSteps
  | succ steps =>
    unfold declaratorSuffixes
    refine .token fun t ht => ?_
    change Takes _ _ (do
      nameFunction
      let params ← parameters steps
      declaratorSuffixes steps (ops ++ [.function params])) _ _ _
    refine .modifyKind (fun kind => if kind = .variable then .function else kind) ?_
    refine Gives.bind (hparams steps) ?_ fun _ _ => trivial
    have hrest : Gives setting tags (declaratorSuffixes steps (ops ++ [.function params])) _
        (closes abstract · = true) _ :=
      declaratorSuffixes_dimensions dimensions (ops ++ [.function params])
    rw [List.append_assoc] at hrest
    exact hrest.at_token ht

theorem declares_function {abstract : Bool} {name : String} (hname : IsPlainName name)
    {list : List Item} {params : ParamList} (hparams : ∀ steps, Gives setting tags
      (parameters steps) (.token .openParen :: list ++ [.token .closeParen]) (fun _ => True) params) :
    Declares setting tags abstract
      (.token (.ofWord name) :: .token .openParen :: list ++ [.token .closeParen]) (some name)
      [.function params] := by
  refine ⟨fun t ht => ?_, fun steps dimensions => ?_⟩
  · rw [hname.token]
    exact followsPointers_name hname
  · rw [hname.token]
    unfold declaratorCore
    change Takes _ _ _ ([.token (.identifier name)] ++
      (.token .openParen :: list ++ [.token .closeParen] ++ dimensions.map .dimension)) _ _
    refine Gives.bind (declaratorHead_name hname.free) ?_ fun t ht => trivial
    exact Gives.bind_nil (declaratorSuffixes_function hparams [] dimensions) (.pure ⟨rfl, rfl⟩)

theorem isAttribute_of_closes {abstract : Bool} {t : Token} (h : closes abstract t = true) :
    isAttribute t = false := by
  cases t <;> first | rfl | cases h

/-! ## Parameters -/

/-- In front of a declarator stands no other word of its type. -/
theorem endsWords_declaratorItems {abstract : Bool} {inner : List Item} {name : Option String}
    {ops : List DeclaratorOp} (h : Declares setting tags abstract inner name ops) (type : CType)
    {t : Token} (ht : closes abstract t = true) :
    endsWords (Item.front t (type.declaratorItems inner)) = true := by
  have hstars : ∀ n t, endsWords t = true → endsWords (Item.front t (starItems n)) = true := by
    intro n t ht
    cases n with
    | zero => exact ht
    | succ n => rfl
  cases type with
  | base b shape =>
    rw [CType.declaratorItems, Item.front_append, Item.front_append]
    exact hstars _ _ (h.front _ (front_dimensions_closes ht shape.dimensions)).1
  | function result params variadic shape =>
    simp only [CType.declaratorItems, List.append_assoc, Item.front_append]
    exact hstars _ _ rfl

/-- The declarator of a type is read around whatever stands for the name. -/
def DeclaratorReread (setting : Setting) (tags : List Structure) (type : CType) : Prop :=
  ∀ {abstract : Bool} {inner : List Item} {name : Option String} {ops : List DeclaratorOp},
    Declares setting tags abstract inner name ops → ∀ steps,
      Gives setting tags (declarator steps abstract) (type.declaratorItems inner)
        (closes abstract · = true) ⟨name, ops ++ type.ops⟩

/-- A reader of one parameter, up to what stands behind it. -/
def parameter (steps : Nat) : Reader Param := do
  let specifiers ← specifiers steps
  let declarator ← declarator steps true
  let declared ← resolved (declarator.resolve specifiers.type)
  skipAttributes (steps + 1)
  return ⟨declarator.name, declared.decayed⟩

theorem parameterList_succ (steps : Nat) (params : List Param) :
    parameterList (steps + 1) params = do
      if ← accept .ellipsis then
        expect .closeParen .variadicEnd
        return ⟨params, true⟩
      else
        let param ← parameter steps
        if ← accept .comma then
          parameterList steps (params ++ [param])
        else
          expect .closeParen .parameterEnd
          return ⟨params ++ [param], false⟩ := by
  rw [parameterList]
  simp only [parameter, bind_assoc, pure_bind]

/-- A declarator with nothing in front of a closing parenthesis is empty. -/
theorem front_declaratorItems {param : Param} {t : Token}
    (hfront : Item.front t (param.type.declaratorItems (wordItems param.name.toList)) =
      .closeParen) : ∃ b shape, param.type = .base b shape ∧ shape.pointers = 0 ∧
        shape.dimensions = [] := by
  obtain ⟨name, type⟩ := param
  have hname : ∀ t, Item.front t (wordItems name.toList) = .closeParen → t = .closeParen := by
    intro t ht
    cases name with
    | none => exact ht
    | some name => exact absurd ht (ofWord_ne rfl)
  cases type with
  | base b shape =>
    simp only [CType.declaratorItems, Shape.dimensionItems, Item.front_append, front_starItems,
      front_dimensions] at hfront
    split at hfront
    · next hpointers =>
      have hbehind := hname _ hfront
      split at hbehind
      · next hdimensions => exact ⟨b, shape, rfl, hpointers, hdimensions⟩
      · cases hbehind
    · cases hfront
  | function result params variadic shape =>
    simp only [CType.declaratorItems, List.append_assoc, Item.front_append, front_starItems] at hfront
    split at hfront
    · cases hfront
    · cases hfront

/-- The word in front of a parameter is no `void` that stands for no parameters. -/
theorem exists_word {param : Param} (htype : param.type.Printable)
    (hnotVoid : param.type ≠ CType.base (.builtin "void") .plain) :
    ∃ word more, param.items = .token (.ofWord word) :: more ∧
      ∀ t, closes true t = true → endsVoid (.ofWord word) (Item.front t more) = false := by
  obtain ⟨word, words, hcons⟩ := List.exists_cons_of_ne_nil htype.words_ne_nil
  refine ⟨word, wordItems words ++ param.type.declaratorItems (wordItems param.name.toList), ?_, ?_⟩
  · rw [Param.items, CType.items, hcons]
    rfl
  · intro t ht
    by_contra hvoid
    rw [Bool.not_eq_false] at hvoid
    obtain ⟨hword, hclosed⟩ : Token.ofWord word = .builtin "void" ∧
        Item.front t (wordItems words ++
          param.type.declaratorItems (wordItems param.name.toList)) = .closeParen := by
      unfold endsVoid at hvoid
      split at hvoid
      · next hfirst hsecond =>
        rw [beq_iff_eq] at hvoid
        exact ⟨by rw [hfirst, hvoid], hsecond⟩
      · cases hvoid
    have hword_eq : word = "void" := by
      rw [← Token.text_ofWord word, hword]
      rfl
    -- A closing parenthesis right behind the word leaves nothing but `void`.
    cases words with
    | cons other words => exact ofWord_ne rfl hclosed
    | nil =>
      rw [hword_eq] at hcons
      obtain ⟨b, shape, hbase, hpointers, hdimensions⟩ := front_declaratorItems hclosed
      rw [hbase] at hcons htype
      cases htype with
      | base hprintable _ =>
        obtain ⟨isConst, isVolatile, pointers, dimensions⟩ := shape
        obtain ⟨rfl, rfl⟩ : pointers = 0 ∧ dimensions = [] := ⟨hpointers, hdimensions⟩
        refine hnotVoid ?_
        rw [hbase]
        cases isConst <;> cases isVolatile
        · rw [hprintable.eq_void hcons]
          rfl
        · exact absurd (List.cons.inj hcons).1 (by decide)
        · exact absurd (List.cons.inj hcons).1 (by decide)
        · exact absurd (List.cons.inj hcons).1 (by decide)

/-- A parameter that can be printed and read again. -/
structure ParamReread (setting : Setting) (tags : List Structure) (param : Param) : Prop where
  type : param.type.Printable
  name : ∀ name ∈ param.name, IsPlainName name
  void : param.type ≠ CType.base (.builtin "void") .plain
  declarator : DeclaratorReread setting tags param.type

namespace ParamReread

variable {param : Param}

theorem declares (h : ParamReread setting tags param) :
    Declares setting tags true (wordItems param.name.toList) param.name [] := by
  obtain ⟨name, type⟩ := param
  cases name with
  | none => exact declares_nothing
  | some name => exact declares_name (h.name name rfl)

theorem gives (h : ParamReread setting tags param) :
    Gives setting tags (parameter steps) param.items (closes true · = true) param := by
  unfold parameter
  rw [Param.items, CType.items]
  refine Takes.bind (specifiers_takes h.type) ?_ ?_
  · rintro specifiers _ ⟨hspecifies, rfl⟩
    refine Gives.bind_nil (h.declarator h.declares steps) ?_
    have hresolve : Declarator.resolve ⟨param.name, [] ++ param.type.ops⟩ specifiers.type =
        .ok (.object param.type) := by
      rw [hspecifies.type]
      exact Declared.ofOps_ops h.type
    dsimp only
    rw [hresolve]
    exact .resolved (.skipAttributes (.pure ⟨rfl, rfl⟩) fun t ht => isAttribute_of_closes ht)
  · exact fun t ht => endsWords_declaratorItems h.declares _ ht

/-- One parameter is taken from the front of a list. -/
theorem takes (h : ParamReread setting tags param) {done : List Param} {tail : List Item}
    {Q : ParamList → List Structure → Prop}
    (hfront : ∀ t, closes true (Item.front t tail) = true)
    (hrest : Takes setting tags (do
      if ← accept .comma then
        parameterList steps (done ++ [param])
      else
        expect .closeParen .parameterEnd
        return ⟨done ++ [param], false⟩) tail (fun _ => True) Q) :
    Takes setting tags (parameterList (steps + 1) done) (param.items ++ tail) (fun _ => True) Q := by
  rw [parameterList_succ]
  refine .accept_ne (Gives.bind h.gives hrest fun t _ => hfront t) fun t _ => ?_
  obtain ⟨word, more, hitems, -⟩ := exists_word h.type h.void
  rw [hitems]
  exact ofWord_ne rfl

end ParamReread

/-- The items of the texts of a parameter list. -/
theorem listItems_of_ne {params : List (List Item)} {variadic : Bool}
    (h : variadic = true ∨ params ≠ []) : listItems params variadic =
      [.token .comma].intercalate (params ++ if variadic then [[.token .ellipsis]] else []) := by
  unfold listItems
  cases variadic with
  | true => simp
  | false =>
    have hne : params ≠ [] := h.resolve_left nofun
    simp [hne]

/-- Behind a parameter stands a comma, if there is more, and else the parenthesis. -/
theorem listItems_cons (param : List Item) {params : List (List Item)} {variadic : Bool} :
    listItems (param :: params) variadic ++ [.token .closeParen] =
      param ++ if variadic = true ∨ params ≠ [] then
        .token .comma :: (listItems params variadic ++ [.token .closeParen])
      else [.token .closeParen] := by
  by_cases hmore : variadic = true ∨ params ≠ []
  · rw [if_pos hmore, listItems_of_ne (by simp), listItems_of_ne hmore, List.cons_append]
    cases hrest : params ++ (if variadic then [[.token .ellipsis]] else []) with
    | nil =>
      exfalso
      cases variadic <;> simp_all
    | cons next rest => simp [List.intercalate_cons_cons]
  · obtain ⟨hvariadic, rfl⟩ : variadic = false ∧ params = [] := by simpa using hmore
    subst hvariadic
    simp [listItems]

/-- Parameters are taken one by one up to the parenthesis behind them. -/
theorem parameterList_gives {params : List Param} {variadic : Bool}
    (h : ∀ param ∈ params, ParamReread setting tags param) (hne : variadic = true ∨ params ≠ [])
    (done : List Param) :
    Gives setting tags (parameterList steps done)
      (listItems (params.map Param.items) variadic ++ [.token .closeParen]) (fun _ => True)
      ⟨done ++ params, variadic⟩ := by
  induction params generalizing steps done with
  | nil =>
    obtain rfl : variadic = true := hne.resolve_right fun hnil => hnil rfl
    cases steps with
    | zero => exact .outOfSteps
    | succ steps =>
      unfold parameterList
      rw [List.append_nil]
      exact .accept (.expect (.pure ⟨rfl, rfl⟩))
  | cons param params ih =>
    cases steps with
    | zero => exact .outOfSteps
    | succ steps =>
      have hparam := h param (List.mem_cons_self ..)
      by_cases hmore : variadic = true ∨ params ≠ []
      · rw [List.map_cons, listItems_cons, if_pos (by simpa using hmore)]
        refine hparam.takes (fun _ => rfl) (.accept ?_)
        have hrest : Gives setting tags (parameterList steps (done ++ [param])) _ _ _ :=
          ih (fun other hother => h other (List.mem_cons_of_mem _ hother)) hmore _
        rw [List.append_assoc] at hrest
        exact hrest
      · obtain ⟨hvariadic, rfl⟩ : variadic = false ∧ params = [] := by simpa using hmore
        subst hvariadic
        rw [List.map_cons, listItems_cons, if_neg (by simp)]
        exact hparam.takes (fun _ => rfl)
          (.accept_ne (.expect (.pure ⟨rfl, rfl⟩)) fun _ _ h => by cases h)

/-- A parameter list is taken with its parentheses. -/
theorem parameters_gives {params : List Param} (variadic : Bool)
    (h : ∀ param ∈ params, ParamReread setting tags param) (steps : Nat) :
    Gives setting tags (parameters steps) (.token .openParen ::
      listItems (params.map Param.items) variadic ++ [.token .closeParen]) (fun _ => True)
      ⟨params, variadic⟩ := by
  cases steps with
  | zero => exact .outOfSteps
  | succ steps =>
    unfold parameters
    refine .advance ?_
    by_cases hmore : variadic = true ∨ params ≠ []
    · have hlist : Gives setting tags (parameterList steps []) _ _ _ :=
        parameterList_gives h hmore []
      rw [List.nil_append] at hlist
      -- The list begins with the dots or with the first word of a parameter.
      have hfront : ∃ first rest, listItems (params.map Param.items) variadic ++
            [.token .closeParen] = .token first :: rest ∧ first ≠ .closeParen ∧
          ∀ t, endsVoid first (Item.front t rest) = false := by
        cases params with
        | nil =>
          obtain rfl : variadic = true := hmore.resolve_right fun hnil => hnil rfl
          exact ⟨.ellipsis, [.token .closeParen], rfl, by decide, fun _ => rfl⟩
        | cons param params =>
          have hparam := h param (List.mem_cons_self ..)
          obtain ⟨word, more, hitems, hvoid⟩ := exists_word hparam.type hparam.void
          rw [List.map_cons, listItems_cons, hitems, List.cons_append]
          refine ⟨_, _, rfl, ofWord_ne rfl, fun t => ?_⟩
          rw [Item.front_append]
          refine hvoid _ ?_
          split <;> rfl
      obtain ⟨first, rest, hitems, hfirst, hvoid⟩ := hfront
      rw [hitems] at hlist
      change Takes _ _ _ (listItems (params.map Param.items) variadic ++ [.token .closeParen]) _ _
      rw [hitems]
      refine .accept_ne (.ahead fun t _ => ?_) fun _ _ => hfirst
      rw [hvoid]
      exact hlist.mono (fun _ _ hQ => hQ) fun _ _ => trivial
    · obtain ⟨hvariadic, rfl⟩ : variadic = false ∧ params = [] := by simpa using hmore
      subst hvariadic
      refine .accept_ne (.ahead fun t _ => ?_) fun _ _ h => by cases h
      exact .advance (.advance (.pure ⟨rfl, rfl⟩))

/-- The declarator of a printed function pointer. The name stands in the inner parentheses. -/
theorem declarator_function {abstract : Bool} {inner list : List Item} {name : Option String}
    {ops : List DeclaratorOp} {params : ParamList}
    (h : Declares setting tags abstract inner name ops) (n m : Nat)
    (dimensions : List (Option String)) (hparams : ∀ steps, Gives setting tags (parameters steps)
      (.token .openParen :: list ++ [.token .closeParen]) (fun _ => True) params) :
    Gives setting tags (declarator steps abstract)
      (starItems n ++ (.token .openParen ::
        (starItems (m + 1) ++ (inner ++ dimensions.map .dimension)) ++ [.token .closeParen] ++
        (.token .openParen :: list ++ [.token .closeParen])))
      (closes abstract · = true)
      ⟨name, ops ++ CType.shapeOps (m + 1) dimensions ++
        .function params :: List.replicate n .pointer⟩ := by
  cases steps with
  | zero => exact .outOfSteps
  | succ steps =>
    rw [declarator_succ]
    refine Gives.bind (pointers_gives n 0) ?_ fun _ _ => ⟨rfl, nofun⟩
    have hinner : Gives setting tags (declarator steps abstract)
        (.token .star :: (starItems m ++ (inner ++ dimensions.map .dimension))) (· = .closeParen) _ :=
      (h.shape (m + 1) dimensions).mono (fun _ _ hQ => hQ) fun t ht => by rw [ht]; rfl
    have hsuffix : Gives setting tags (declaratorSuffixes steps _) _ (closes abstract · = true) _ :=
      declaratorSuffixes_function hparams (ops ++ CType.shapeOps (m + 1) dimensions) []
    rw [List.map_nil, List.map_nil, List.append_nil] at hsuffix
    have hcore : Gives setting tags (declaratorCore steps abstract) _ _ _ :=
      Gives.bind (declaratorHead_nested hinner) (Gives.bind_nil hsuffix (.pure ⟨rfl, rfl⟩))
        fun _ _ => trivial
    refine Gives.bind_nil hcore (.pure ⟨?_, rfl⟩)
    simp

/-- The declarator of a printable type is read again. -/
theorem declaratorReread {type : CType} (h : type.Printable) :
    DeclaratorReread setting tags type := by
  induction h with
  | @base b shape hbase hshape =>
    intro abstract inner name ops hdeclares steps
    rw [CType.declaratorItems, List.append_assoc]
    exact hdeclares.shape shape.pointers shape.dimensions
  | @function b around outer params variadic hbase haround houter hshape hparams hvoid ih =>
    intro abstract inner name ops hdeclares steps
    obtain ⟨isConst, isVolatile, pointers, dimensions⟩ := outer
    obtain ⟨m, rfl⟩ := Nat.exists_eq_add_of_le' houter.pointers
    have hreread : ∀ param ∈ params.map (Param.mk none), ParamReread setting tags param := by
      intro param hparam
      obtain ⟨type, htype, rfl⟩ := List.mem_map.mp hparam
      exact ⟨hparams type htype, by simp, hvoid type htype, ih type htype⟩
    have hlist := parameters_gives variadic hreread
    have hitems : (params.map (Param.mk none)).map Param.items = CType.itemsOf params := by
      rw [CType.itemsOf_eq_map, List.map_map]
      rfl
    rw [hitems] at hlist
    have hfunction : Gives setting tags (declarator steps abstract) _ _ _ :=
      declarator_function hdeclares around.pointers m dimensions hlist
    simpa [CType.declaratorItems, CType.ops, CType.shape, Shape.dimensionItems] using hfunction

end Reader

end RemoteCalls
