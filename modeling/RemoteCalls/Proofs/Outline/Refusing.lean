import RemoteCalls.Proofs.CType.Spelling
import RemoteCalls.Proofs.Outline.Prototypes

/-!
# Spelled types that are not read again

Where a function pointer returns a function pointer, the spelling of the result stands in front of
the parentheses, so that a second pair of parentheses with a star in it follows the first one. In a
declaration the first pair lacks the name; in a parameter list the second pair is read as parameters
that begin with a star. So no declarator is read there, and the failure passes to all readers around.
-/

namespace RemoteCalls

namespace Reader

variable {α β : Type}

/-- A reader in front of some items gives no result, whatever stands behind them. -/
def Refuses (setting : Setting) (tags : List Structure) (m : Reader α) (items : List Item) : Prop :=
  ∀ row behind kind, Spells items row → ∀ result, m setting ⟨row ++ behind, kind, tags⟩ ≠ .ok result

variable {setting : Setting} {tags : List Structure} {m : Reader α} {items more : List Item}
  {steps : Nat}

namespace Refuses

/-- More items behind those that are refused. -/
theorem append (h : Refuses setting tags m items) (more : List Item) :
    Refuses setting tags m (items ++ more) := by
  intro row behind kind hrow
  obtain ⟨front, back, rfl, hfront, -⟩ := hrow.of_append
  rw [List.append_assoc]
  exact h front (back ++ behind) kind hfront

theorem outOfSteps : Refuses setting tags (throw .outOfSteps : Reader α) items := by
  intro row behind kind _ result hresult
  cases hresult

theorem unexpected (what : Expectation) :
    Refuses setting tags (Reader.unexpected what : Reader α) items := by
  intro row behind kind _ result hresult
  cases hresult

theorem malformed (reason : Reason) :
    Refuses setting tags (Reader.malformed reason : Reader α) items := by
  intro row behind kind _ result hresult
  cases hresult

/-- Nothing is read behind a reader that refuses. -/
theorem bind (h : Refuses setting tags m items) {f : α → Reader β} :
    Refuses setting tags (m >>= f) items := by
  intro row behind kind hrow result hresult
  rw [bind_apply] at hresult
  cases hrun : m setting ⟨row ++ behind, kind, tags⟩ with
  | error failure =>
    rw [hrun] at hresult
    cases hresult
  | ok first => exact h row behind kind hrow first hrun

/-- A reader refuses what is behind the items of another one. -/
theorem behind {P : Token → Prop} {Q : α → List Structure → Prop} {f : α → Reader β}
    (h : Takes setting tags m items P Q)
    (hnext : ∀ a tags', Q a tags' → Refuses setting tags' (f a) more)
    (hfront : ∀ t, P (Item.front t more)) : Refuses setting tags (m >>= f) (items ++ more) := by
  intro row behind kind hrow result hresult
  obtain ⟨front, back, rfl, hspells, hback⟩ := hrow.of_append
  have hm := h front (back ++ behind) kind hspells (by
    rw [hback.headToken]
    exact hfront _)
  rw [bind_apply, List.append_assoc] at hresult
  cases hrun : m setting ⟨front ++ (back ++ behind), kind, tags⟩ with
  | error failure =>
    rw [hrun] at hresult
    cases hresult
  | ok first =>
    obtain ⟨a, rest, kind', tags'⟩ := first
    rw [hrun] at hm hresult
    obtain ⟨rfl, hQ⟩ := hm
    exact hnext a tags' hQ back behind kind' hback result hresult

/-- A reader refuses what is behind the items of another one, whose result is known. -/
theorem behind_gives {P : Token → Prop} {a : α} {f : α → Reader β}
    (h : Gives setting tags m items P a) (hnext : Refuses setting tags (f a) more)
    (hfront : ∀ t, P (Item.front t more)) : Refuses setting tags (m >>= f) (items ++ more) := by
  refine behind h ?_ hfront
  rintro _ _ ⟨rfl, rfl⟩
  exact hnext

/-! ### Readers that look or take a token -/

theorem token {f : Token → Reader β}
    (h : ∀ t, Refuses setting tags (f (Item.front t items)) items) :
    Refuses setting tags (Reader.token >>= f) items := by
  intro row behind kind hrow
  have hnext := h (headToken behind) row behind kind hrow
  rw [← hrow.headToken] at hnext
  exact hnext

theorem position {f : Position → Reader β} (h : ∀ p, Refuses setting tags (f p) items) :
    Refuses setting tags (Reader.position >>= f) items :=
  fun row behind kind hrow => h _ row behind kind hrow

theorem modifyKind {f : Unit → Reader β} (g : DeclKind → DeclKind)
    (h : Refuses setting tags (f ()) items) :
    Refuses setting tags ((modify fun cursor => { cursor with kind := g cursor.kind }) >>= f)
      items :=
  fun row behind kind hrow => h row behind (g kind) hrow

/-- A declarator with a meaning has it. -/
theorem resolved {a : α} {f : α → Reader β} (h : Refuses setting tags (f a) items) :
    Refuses setting tags (Reader.resolved (.ok a) >>= f) items := h

theorem takeTags {f : List Declaration → Reader β}
    (h : Refuses setting [] (f (tags.map .struct)) items) :
    Refuses setting tags (Reader.takeTags >>= f) items := h

theorem namedStructure? {specifiers : Specifiers} {f : Option Declaration → Reader β}
    (h : ∀ named, Refuses setting tags (f named) items) :
    Refuses setting tags (Reader.namedStructure? specifiers >>= f) items := by
  unfold Reader.namedStructure?
  cases specifiers.tag with
  | reference name position =>
    cases hdef : specifiers.isTypedef with
    | true => exact h none
    | false => exact h (some _)
  | _ => exact h none

theorem advance {t : Token} {f : Unit → Reader β} (h : Refuses setting tags (f ()) items) :
    Refuses setting tags (Reader.advance >>= f) (.token t :: items) := by
  intro row behind kind hrow
  cases hrow with
  | token hrest => exact h _ behind kind hrest

theorem accept {wanted : Token} {yes no : Reader β} (h : Refuses setting tags yes items) :
    Refuses setting tags (do if ← Reader.accept wanted then yes else no)
      (.token wanted :: items) := by
  intro row behind kind hrow
  have hhead : headToken (row ++ behind) = wanted := hrow.headToken behind
  rw [bind_apply, accept_apply, if_pos hhead]
  cases hrow with
  | token hrest => exact h _ behind kind hrest

theorem accept_ne {wanted : Token} {yes no : Reader β} (h : Refuses setting tags no items)
    (hfront : ∀ t, Item.front t items ≠ wanted) :
    Refuses setting tags (do if ← Reader.accept wanted then yes else no) items := by
  intro row behind kind hrow
  have hhead : headToken (row ++ behind) ≠ wanted := by
    rw [hrow.headToken]
    exact hfront _
  rw [bind_apply, accept_apply, if_neg hhead]
  exact h row behind kind hrow

/-- The token that has to be in front is not there. -/
theorem expect_ne {wanted : Token} {what : Expectation}
    (hfront : ∀ t, Item.front t items ≠ wanted) :
    Refuses setting tags (Reader.expect wanted what) items := by
  intro row behind kind hrow result hresult
  have hhead : headToken (row ++ behind) ≠ wanted := by
    rw [hrow.headToken]
    exact hfront _
  rw [expect_apply, if_neg hhead] at hresult
  cases hresult

/-- What two tokens in front look like, the first of which is known. -/
theorem ahead {t : Token} {look : Token → Token → Bool} {f : Bool → Reader β}
    (h : ∀ u, Refuses setting tags (f (look t (Item.front u items))) (.token t :: items)) :
    Refuses setting tags (Reader.ahead look >>= f) (.token t :: items) := by
  intro row behind kind hrow
  have hnext := h (headToken behind) row behind kind hrow
  have hahead : Reader.ahead look setting ⟨row ++ behind, kind, tags⟩ =
      .ok (look t (Item.front (headToken behind) items), ⟨row ++ behind, kind, tags⟩) := by
    change Except.ok (look (headToken (row ++ behind)) (headToken (row ++ behind).tail), _) = _
    rw [hrow.headToken, hrow.headToken_tail]
    rfl
  rw [bind_apply, hahead]
  exact hnext

end Refuses

/-! ## Two pairs of parentheses -/

/-- A star names no type. -/
theorem specifiers_star : Refuses setting tags (specifiers steps) (.token .star :: items) := by
  cases steps with
  | zero => exact .outOfSteps
  | succ steps =>
    have hnone : Gives setting tags (specifierWords steps .empty) [] (· = .star) .empty := by
      cases steps with
      | zero => exact .outOfSteps
      | succ steps =>
        unfold specifierWords
        refine .token fun t ht => ?_
        subst ht
        exact .pure ⟨rfl, rfl⟩
    unfold specifiers
    refine Refuses.behind_gives hnone ?_ fun _ => rfl
    exact .unexpected _

/-- No parameter begins with a star. -/
theorem parameters_star :
    Refuses setting tags (parameters steps) (.token .openParen :: .token .star :: items) := by
  cases steps with
  | zero => exact .outOfSteps
  | succ steps =>
    unfold parameters
    refine .advance (.accept_ne (.ahead fun t => ?_) fun _ h => by cases h)
    cases steps with
    | zero => exact .outOfSteps
    | succ steps =>
      change Refuses setting tags (parameterList (steps + 1) []) _
      rw [parameterList_succ]
      unfold parameter
      exact .accept_ne (Refuses.bind specifiers_star.bind) fun _ h => by cases h

/-- Behind a declarator an opening parenthesis begins parameters. -/
theorem declaratorSuffixes_list {ops : List DeclaratorOp}
    (h : ∀ steps, Refuses setting tags (do
      let params ← parameters steps
      declaratorSuffixes steps (ops ++ [.function params])) (.token .openParen :: items)) :
    Refuses setting tags (declaratorSuffixes steps ops) (.token .openParen :: items) := by
  cases steps with
  | zero => exact .outOfSteps
  | succ steps =>
    unfold declaratorSuffixes
    refine .token fun t => ?_
    change Refuses setting tags (do
      nameFunction
      let params ← parameters steps
      declaratorSuffixes steps (ops ++ [.function params])) _
    exact .modifyKind (fun kind => if kind = .variable then .function else kind) (h steps)

/-- A declarator is refused with its parameters. -/
theorem declaratorSuffixes_refuses {ops : List DeclaratorOp}
    (h : ∀ steps, Refuses setting tags (parameters steps) (.token .openParen :: items)) :
    Refuses setting tags (declaratorSuffixes steps ops) (.token .openParen :: items) :=
  declaratorSuffixes_list fun steps => (h steps).bind

/-- Behind its parameters a declarator is refused with a second list that begins with a star. -/
theorem declaratorSuffixes_star {ops : List DeclaratorOp} {list : List Item} {params : ParamList}
    (more : List Item) (hparams : ∀ steps, Gives setting tags (parameters steps)
      (.token .openParen :: list ++ [.token .closeParen]) (fun _ => True) params) :
    Refuses setting tags (declaratorSuffixes steps ops)
      ((.token .openParen :: list ++ [.token .closeParen]) ++
        .token .openParen :: .token .star :: more) := by
  refine declaratorSuffixes_list fun steps => ?_
  refine Refuses.behind_gives (hparams steps) ?_ fun _ => trivial
  exact declaratorSuffixes_refuses fun _ => parameters_star

/-- What is refused behind a declarator in parentheses. -/
theorem declarator_refuses_suffix {abstract : Bool} {inner : List Item} {name : Option String}
    {ops : List DeclaratorOp} (h : Declares setting tags abstract inner name ops) (n m : Nat)
    (dimensions : List (Option String))
    (hsuffix : ∀ steps ops, Refuses setting tags (declaratorSuffixes steps ops) items) :
    Refuses setting tags (declarator steps abstract) (starItems n ++
      ((.token .openParen :: (starItems (m + 1) ++ (inner ++ dimensions.map .dimension)) ++
        [.token .closeParen]) ++ items)) := by
  cases steps with
  | zero => exact .outOfSteps
  | succ steps =>
    have hinner : Gives setting tags (declarator steps abstract)
        (.token .star :: (starItems m ++ (inner ++ dimensions.map .dimension))) (· = .closeParen) _ :=
      (h.shape (m + 1) dimensions).mono (fun _ _ hQ => hQ) fun t ht => by rw [ht]; rfl
    rw [declarator_succ]
    refine Refuses.behind_gives (pointers_gives n 0) (Refuses.bind ?_) fun _ => ⟨rfl, nofun⟩
    unfold declaratorCore
    exact Refuses.behind_gives (declaratorHead_nested hinner) (hsuffix _ _).bind fun _ => trivial

/-- In a declaration a name is missing in front of a closing parenthesis. -/
theorem declarator_closeParen (n : Nat) :
    Refuses setting tags (declarator steps false) (starItems n ++ .token .closeParen :: items) := by
  cases steps with
  | zero => exact .outOfSteps
  | succ steps =>
    rw [declarator_succ]
    refine Refuses.behind_gives (pointers_gives n 0) (Refuses.bind ?_) fun _ => ⟨rfl, nofun⟩
    unfold declaratorCore declaratorHead
    refine Refuses.bind (.ahead fun _ => .token fun _ => ?_)
    exact .unexpected _

/-- In a declaration a name is missing in a pair of parentheses with nothing but stars in it. -/
theorem declarator_stars (n m : Nat) :
    Refuses setting tags (declarator steps false) (starItems n ++ .token .openParen ::
      (starItems (m + 1) ++ .token .closeParen :: items)) := by
  cases steps with
  | zero => exact .outOfSteps
  | succ steps =>
    rw [declarator_succ]
    refine Refuses.behind_gives (pointers_gives n 0) (Refuses.bind ?_) fun _ => ⟨rfl, nofun⟩
    unfold declaratorCore declaratorHead
    refine Refuses.bind (.ahead fun _ => .advance (Refuses.bind ?_))
    exact declarator_closeParen (m + 1)

/-! ## Types that are not printable -/

/-- The words of a spelled type name its base. -/
theorem specifiers_spelled {type : CType} (h : type.Spelled) :
    Takes setting tags (specifiers steps) (wordItems type.words) (endsWords · = true)
      fun _ tags' => tags' = tags := by
  have hleaf : Takes setting tags (specifiers steps) _ _ _ := specifiers_takes h.leaf_printable
  rw [CType.words_leaf] at hleaf
  exact hleaf.mono (fun _ _ hQ => hQ.2) fun _ ht => ht

/-- A spelled type that is not printable is a function pointer. -/
theorem isFunctionPointer_of_not_printable {type : CType} (h : type.Spelled)
    (hbad : ¬ type.Printable) : type.isFunctionPointer = true := by
  cases h with
  | base hbase hshape => exact absurd (.base hbase hshape) hbad
  | function _ _ _ _ _ _ => rfl

/-- Behind the words of a function pointer stands a star or a parenthesis. -/
theorem front_tailItems {type : CType} (h : type.Spelled) (hfunction : type.isFunctionPointer = true)
    (inner : List Item) (t : Token) : Item.front t (type.tailItems inner) = .star ∨
      Item.front t (type.tailItems inner) = .openParen := by
  obtain ⟨n, m, around, more, htail, -⟩ := h.exists_parens hfunction inner
  rw [htail, Item.front_append, front_starItems]
  split
  · exact .inr rfl
  · exact .inl rfl

/-- A closing parenthesis has to stand behind a `void` that is no type. -/
theorem endsVoid_of_ne (first : Token) {second : Token} (h : second ≠ .closeParen) :
    endsVoid first second = false := by
  unfold endsVoid
  split
  · exact absurd rfl h
  · rfl

/-- A parameter without a name, as it is spelled. -/
def spelledParam (type : CType) : List Item :=
  wordItems type.words ++ type.tailItems []

theorem spelledParam_eq_items {type : CType} (h : type.Printable) :
    spelledParam type = (Param.mk none type).items := by
  rw [spelledParam, h.tailItems_eq]
  rfl

theorem paramReread_spelled {type : CType} (h : type.Printable)
    (hvoid : type ≠ CType.base (.builtin "void") .plain) :
    ParamReread setting tags (Param.mk none type) :=
  ⟨h, by simp, hvoid, declaratorReread h⟩

/-- The word in front of a spelled parameter is no `void` that stands for no parameters. -/
theorem exists_word_spelled {type : CType} (h : type.Spelled)
    (hvoid : type ≠ CType.base (.builtin "void") .plain) :
    ∃ word more, spelledParam type = .token (.ofWord word) :: more ∧
      ∀ t, closes true t = true → endsVoid (.ofWord word) (Item.front t more) = false := by
  by_cases hprintable : type.Printable
  · rw [spelledParam_eq_items hprintable]
    exact exists_word hprintable hvoid
  · have hfunction := isFunctionPointer_of_not_printable h hprintable
    obtain ⟨word, words, hwords⟩ := List.exists_cons_of_ne_nil (CType.words_leaf type ▸
      h.leaf_printable.words_ne_nil)
    refine ⟨word, wordItems words ++ type.tailItems [], by rw [spelledParam, hwords]; rfl, ?_⟩
    intro t _
    refine endsVoid_of_ne _ fun hclosed => ?_
    cases words with
    | cons next words => exact ofWord_ne rfl hclosed
    | nil =>
      change Item.front t (type.tailItems []) = .closeParen at hclosed
      rcases front_tailItems h hfunction [] t with hfront | hfront
      · rw [hfront] at hclosed
        cases hclosed
      · rw [hfront] at hclosed
        cases hclosed

section Lists

variable {params : List CType} {variadic : Bool} {done : List Param}

/-- Parameters are taken one by one up to the first that is refused. -/
theorem parameterList_refuses (hspelled : ∀ param ∈ params, param.Spelled)
    (hvoid : ∀ param ∈ params, param ≠ CType.base (.builtin "void") .plain)
    (hrefused : ∀ param ∈ params, ¬ param.Printable → ∀ steps,
      Refuses setting tags (parameter steps) (spelledParam param))
    (hbad : ∃ param ∈ params, ¬ param.Printable) :
    Refuses setting tags (parameterList steps done)
      (listItems (CType.spelledItems params) variadic ++ [.token .closeParen]) := by
  induction params generalizing steps done with
  | nil => simp at hbad
  | cons param params ih =>
    cases steps with
    | zero => exact .outOfSteps
    | succ steps =>
      obtain ⟨hparam, hparams⟩ := List.forall_mem_cons.mp hspelled
      obtain ⟨hfirst, hothers⟩ := List.forall_mem_cons.mp hvoid
      obtain ⟨word, rest, hitems, -⟩ := exists_word_spelled hparam hfirst
      have hfront : ∀ (tail : List Item) (t : Token),
          Item.front t (spelledParam param ++ tail) ≠ .ellipsis := by
        intro tail t
        rw [hitems]
        exact ofWord_ne rfl
      rw [parameterList_succ, CType.spelledItems, listItems_cons]
      refine .accept_ne ?_ (hfront _)
      by_cases hprintable : param.Printable
      · have hmore : ∃ param ∈ params, ¬ param.Printable := by
          simpa [hprintable] using hbad
        have hne : CType.spelledItems params ≠ [] := by
          obtain ⟨other, hother, -⟩ := hmore
          rw [CType.spelledItems_eq_map]
          exact fun hnil => List.ne_nil_of_mem hother (List.map_eq_nil_iff.mp hnil)
        have hgives : Gives setting tags (parameter steps) (spelledParam param) _ _ :=
          spelledParam_eq_items hprintable ▸ (paramReread_spelled hprintable hfirst).gives
        rw [if_pos (.inr hne)]
        refine Refuses.behind_gives hgives (.accept ?_) fun _ => rfl
        exact ih hparams hothers (fun other hother =>
          hrefused other (List.mem_cons_of_mem _ hother)) hmore
      · exact (hrefused param (List.mem_cons_self ..) hprintable steps).bind.append _

/-- A parameter list with a parameter that is refused. -/
theorem parameters_refuses (hspelled : ∀ param ∈ params, param.Spelled)
    (hvoid : ∀ param ∈ params, param ≠ CType.base (.builtin "void") .plain)
    (hrefused : ∀ param ∈ params, ¬ param.Printable → ∀ steps,
      Refuses setting tags (parameter steps) (spelledParam param))
    (hbad : ∃ param ∈ params, ¬ param.Printable) :
    Refuses setting tags (parameters steps) (.token .openParen ::
      (listItems (CType.spelledItems params) variadic ++ [.token .closeParen])) := by
  cases steps with
  | zero => exact .outOfSteps
  | succ steps =>
    have hlist : Refuses setting tags (parameterList steps [])
        (listItems (CType.spelledItems params) variadic ++ [.token .closeParen]) :=
      parameterList_refuses hspelled hvoid hrefused hbad
    obtain ⟨first, rest, hitems, hclosed, hends⟩ : ∃ first rest,
        listItems (CType.spelledItems params) variadic ++ [.token .closeParen] =
          .token first :: rest ∧ first ≠ .closeParen ∧
        ∀ t, endsVoid first (Item.front t rest) = false := by
      cases params with
      | nil => simp at hbad
      | cons param params =>
        obtain ⟨word, more, hitems, hvoid⟩ :=
          exists_word_spelled (hspelled param (List.mem_cons_self ..))
            (hvoid param (List.mem_cons_self ..))
        unfold spelledParam at hitems
        rw [CType.spelledItems, listItems_cons, hitems, List.cons_append]
        refine ⟨_, _, rfl, ofWord_ne rfl, fun t => ?_⟩
        rw [Item.front_append]
        refine hvoid _ ?_
        split <;> rfl
    unfold parameters
    rw [hitems] at hlist ⊢
    refine .advance (.accept_ne (.ahead fun t => ?_) fun _ => hclosed)
    rw [hends]
    exact hlist

end Lists

/-- The parameters of a function pointer are read if they are printable. -/
theorem parameters_printable {params : List CType} (variadic : Bool)
    (h : ∀ param ∈ params, param.Printable)
    (hvoid : ∀ param ∈ params, param ≠ CType.base (.builtin "void") .plain) (steps : Nat) :
    Gives setting tags (parameters steps)
      (.token .openParen :: listItems (CType.itemsOf params) variadic ++ [.token .closeParen])
      (fun _ => True) ⟨params.map (Param.mk none), variadic⟩ := by
  have hitems : (params.map (Param.mk none)).map Param.items = CType.itemsOf params := by
    rw [CType.itemsOf_eq_map, List.map_map]
    rfl
  rw [← hitems]
  refine parameters_gives variadic (fun param hparam => ?_) steps
  obtain ⟨type, htype, rfl⟩ := List.mem_map.mp hparam
  exact paramReread_spelled (h type htype) (hvoid type htype)

/-- A parameter with a declarator that is refused. -/
theorem parameter_refuses {type : CType} (h : type.Spelled) (hfunction : type.isFunctionPointer = true)
    (hdeclarator : ∀ steps, Refuses setting tags (declarator steps true) (type.tailItems [])) :
    Refuses setting tags (parameter steps) (spelledParam type) := by
  unfold parameter
  refine Refuses.behind (specifiers_spelled h) ?_ fun t => ?_
  · rintro specifiers _ rfl
    exact (hdeclarator steps).bind
  · rcases front_tailItems h hfunction [] t with hfront | hfront
    · rw [hfront]
      rfl
    · rw [hfront]
      rfl

/-- In a declaration a name is missing in the parentheses of a function pointer that is spelled
without one. -/
theorem declarator_nameless {result : CType} (h : result.Spelled)
    (hfunction : result.isFunctionPointer = true) (hdimensions : result.shape.dimensions = []) :
    Refuses setting tags (declarator steps false) (result.tailItems []) := by
  obtain ⟨n, m, around, more, htail, haround⟩ := h.exists_parens hfunction []
  have hnone : around = [] := by
    rcases haround with rfl | rfl
    · rfl
    · simp [Shape.dimensionItems, hdimensions]
  rw [htail, hnone]
  exact declarator_stars n m

/-- Behind the spelling of a function pointer no parameters begin with a star. -/
theorem declarator_secondList {result : CType} (h : result.Printable)
    (hfunction : result.isFunctionPointer = true) (more : List Item) :
    Refuses setting tags (declarator steps true)
      (result.tailItems [] ++ .token .openParen :: .token .star :: more) := by
  rw [h.tailItems_eq]
  cases h with
  | base _ _ => cases hfunction
  | @function b around outer params variadic _ _ _ _ hparams hvoid =>
    obtain ⟨m, hm⟩ := Nat.exists_eq_add_of_le' (Nat.le_max_right outer.pointers 1)
    have hrefused : Refuses setting tags (declarator steps true) _ :=
      declarator_refuses_suffix declares_nothing around.pointers m outer.dimensions
        fun _ _ => declaratorSuffixes_star more (parameters_printable variadic hparams hvoid)
    simpa [CType.declaratorItems, hm, CType.shape, Shape.dimensionItems] using hrefused

/-- A function pointer whose parameters are refused. -/
theorem declarator_refuses_list {abstract : Bool} {inner : List Item} {name : Option String}
    {ops : List DeclaratorOp} (hinner : Declares setting tags abstract inner name ops)
    {result : CType} {params : List CType} {variadic : Bool} {outer : Shape}
    (hresult : result.isFunctionPointer = false) (hdimensions : result.shape.dimensions = [])
    (hlist : ∀ steps, Refuses setting tags (parameters steps) (.token .openParen ::
      (listItems (CType.spelledItems params) variadic ++ [.token .closeParen]))) :
    Refuses setting tags (declarator steps abstract)
      ((CType.function result params variadic outer).tailItems inner) := by
  obtain ⟨m, hm⟩ := Nat.exists_eq_add_of_le' (Nat.le_max_right outer.pointers 1)
  have hrefused : Refuses setting tags (declarator steps abstract) _ :=
    declarator_refuses_suffix hinner result.shape.pointers m outer.dimensions
      fun _ _ => declaratorSuffixes_refuses hlist
  cases result with
  | function _ _ _ _ => cases hresult
  | base b shape =>
    have hnone : shape.dimensions = [] := hdimensions
    simpa [CType.tailItems, CType.declaratorItems, hnone, hm, CType.shape, Shape.dimensionItems]
      using hrefused

/-- No declarator is read in the text of a type that is not printable. -/
theorem declarator_refuses {type : CType} (h : type.Spelled) (hbad : ¬ type.Printable)
    {abstract : Bool} {inner : List Item} {name : Option String} {ops : List DeclaratorOp}
    (hinner : Declares setting tags abstract inner name ops) :
    Refuses setting tags (declarator steps abstract) (type.tailItems inner) := by
  induction h generalizing abstract inner name ops steps with
  | base hbase hshape => exact absurd (.base hbase hshape) hbad
  | @function result params variadic outer hresult hdimensions houter hshape hparams hvoid ihresult
      ihparams =>
    cases hfunction : result.isFunctionPointer with
    | false =>
      have hparam : ∃ param ∈ params, ¬ param.Printable := by
        by_contra hall
        push Not at hall
        have hspelled : (CType.function result params variadic outer).Spelled :=
          .function hresult hdimensions houter hshape hparams hvoid
        exact hbad (hspelled.printable_function hfunction hall)
      refine declarator_refuses_list hinner hfunction hdimensions fun steps =>
        parameters_refuses hparams hvoid (fun param hparam hbad steps => ?_) hparam
      have hpointer := isFunctionPointer_of_not_printable (hparams param hparam) hbad
      exact parameter_refuses (hparams param hparam) hpointer fun steps =>
        ihparams param hparam hbad declares_nothing
    | true =>
      -- The declarator of the result is refused, or what stands behind it.
      obtain ⟨m, hm⟩ := Nat.exists_eq_add_of_le' (Nat.le_max_right outer.pointers 1)
      have hitems : (CType.function result params variadic outer).tailItems inner =
          result.tailItems [] ++ .token .openParen :: .token .star :: (starItems m ++ inner ++
            outer.dimensionItems ++ [.token .closeParen, .token .openParen] ++
            listItems (CType.spelledItems params) variadic ++ [.token .closeParen]) := by
        simp [CType.tailItems, hm, starItems, List.replicate_succ]
      rw [hitems]
      cases abstract with
      | false => exact (declarator_nameless hresult hfunction hdimensions).append _
      | true =>
        by_cases hprintable : result.Printable
        · exact declarator_secondList hprintable hfunction _
        · have hrefused : Refuses setting tags (declarator steps true) (result.tailItems []) :=
            ihresult hprintable declares_nothing
          exact hrefused.append _

/-- No declaration of a name is read with a type that is not printable. -/
theorem external_refuses {type : CType} (h : type.Spelled) (hbad : ¬ type.Printable) {name : String}
    (hname : IsPlainName name) : Refuses setting [] (external steps)
      (wordItems type.words ++ type.tailItems (wordItems [name])) := by
  have hpointer := isFunctionPointer_of_not_printable h hbad
  unfold external
  refine .position fun start => Refuses.behind (specifiers_spelled h) ?_ fun t => ?_
  · rintro specifiers _ rfl
    refine .modifyKind (fun kind => if specifiers.isTypedef then .typedef else kind) ?_
    refine .takeTags (.namedStructure? fun named => .token fun t => ?_)
    rw [if_neg]
    · cases steps with
      | zero => exact .outOfSteps
      | succ steps =>
        unfold declarators
        exact (declarator_refuses h hbad (declares_name hname)).bind
    · rcases front_tailItems h hpointer (wordItems [name]) t with hfront | hfront
      · rw [hfront]
        exact fun h => by cases h
      · rw [hfront]
        exact fun h => by cases h
  · rcases front_tailItems h hpointer (wordItems [name]) t with hfront | hfront
    · rw [hfront]
      rfl
    · rw [hfront]
      rfl

end Reader

end RemoteCalls
