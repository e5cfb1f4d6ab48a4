import RemoteCalls.Proofs.Outline.Printed

/-!
# Printed declarations at file scope are read again

The prototype of a function, with a semicolon or a body behind it, is read as a declaration of a
function with the same name, result and parameters, and the declaration of a name with a type and a
semicolon behind it as one of a variable with the same name and type.
-/

namespace RemoteCalls

/-- Two functions with one prototype. -/
structure Function.Same (f g : Function) : Prop where
  name : g.name = f.name
  result : g.result = f.result
  params : g.params = f.params

namespace Reader

variable {setting : Setting} {tags : List Structure} {steps : Nat} {f : Function}

theorem nameAnonymous_eq {specifiers : Specifiers} (h : ∀ s, specifiers.tag ≠ .anonymous s)
    (name : String) : nameAnonymous name specifiers = ([], specifiers) := by
  unfold nameAnonymous
  cases htag : specifiers.tag with
  | anonymous s => exact absurd htag (h s)
  | _ => rfl

/-- A reader of what stands behind a declarator at file scope. -/
def declarationEnd (start : Position) (steps : Nat) (specifiers : Specifiers)
    (found : List Declaration) (d : Declaration) : Reader (List Declaration) := do
  let next ← token
  if d.isFunction ∧ next = .openBrace then
    let rules ← noteRules
    let inner ← group
    return found ++ [d.define (Note.ofBody rules true 0 [] inner)]
  else
    let found := found ++ [d]
    if ← accept .comma then
      declarators start steps specifiers found
    else
      expect .semicolon .declarationEnd
      return found

/-- A name with some items behind it is declared at file scope with the words of a type in front:
the operators of the declarator have a meaning, of which `D` holds. -/
structure DeclaresAs (setting : Setting) (type : CType) (name : String) (behind : List Item)
    (D : Declaration → Prop) : Prop where
  printable : type.Printable
  exists_meaning : ∃ ops meaning,
    Declares setting [] false (.token (.ofWord name) :: behind) (some name) ops ∧
    Declared.ofOps type.leaf (ops ++ type.ops) = .ok meaning ∧
    ∀ steps start specifiers, specifiers.isTypedef = false →
      Takes setting [] (declared (steps + 1) start specifiers name meaning) []
        (closes false · = true) fun d tags' => D d ∧ tags' = []

namespace DeclaresAs

variable {type : CType} {name : String} {behind tail : List Item} {D : Declaration → Prop}
  {Q : List Declaration → List Structure → Prop}

/-- A declarator is taken, whatever stands behind it. -/
theorem declarators_takes (h : DeclaresAs setting type name behind D) {start : Position}
    {specifiers : Specifiers} (hspecifies : Specifies type.leaf specifiers)
    {found : List Declaration} (hfront : ∀ t, closes false (Item.front t tail) = true)
    (htail : ∀ d steps, D d →
      Takes setting [] (declarationEnd start steps specifiers found d) tail (fun _ => True) Q) :
    Takes setting [] (declarators start steps specifiers found)
      (type.declaratorItems (.token (.ofWord name) :: behind) ++ tail) (fun _ => True) Q := by
  obtain ⟨ops, meaning, hdeclares, hmeaning, hdeclared⟩ := h.exists_meaning
  cases steps with
  | zero => exact .outOfSteps
  | succ steps =>
    unfold declarators
    refine Gives.bind (declaratorReread h.printable hdeclares steps) ?_ fun t _ => hfront t
    have hresolve : Declarator.resolve ⟨some name, ops ++ type.ops⟩ specifiers.type =
        .ok meaning := by
      rw [hspecifies.type]
      exact hmeaning
    simp only [nameAnonymous_eq hspecifies.tag]
    rw [hresolve]
    refine .resolved ?_
    rw [← List.nil_append tail]
    refine Takes.bind (hdeclared steps start specifiers hspecifies.notTypedef) ?_ ?_
    · rintro d _ ⟨hd, rfl⟩
      rw [List.append_nil]
      exact htail d steps hd
    · exact fun t _ => hfront t

/-- A declaration is taken if its tail is. -/
theorem external_takes (h : DeclaresAs setting type name behind D)
    (hfront : ∀ t, closes false (Item.front t tail) = true)
    (htail : ∀ d start steps specifiers, D d →
      Takes setting [] (declarationEnd start steps specifiers [] d) tail (fun _ => True) Q) :
    Takes setting [] (external steps) (type.items (.token (.ofWord name) :: behind) ++ tail)
      (fun _ => True) Q := by
  obtain ⟨_, _, hdeclares, -⟩ := h.exists_meaning
  have hwords : ∀ t, endsWords (Item.front t (type.declaratorItems
      (.token (.ofWord name) :: behind) ++ tail)) = true := by
    intro t
    rw [Item.front_append]
    exact endsWords_declaratorItems hdeclares _ (hfront t)
  rw [CType.items, List.append_assoc]
  unfold external
  refine .position fun start => Takes.bind (specifiers_takes h.printable) ?_ fun t _ => hwords t
  rintro specifiers _ ⟨hspecifies, rfl⟩
  refine .modifyKind (fun kind => if specifiers.isTypedef then .typedef else kind) ?_
  refine .takeTags (.namedStructure? fun named => .token fun t _ => ?_)
  rw [if_neg]
  · exact (h.declarators_takes hspecifies hfront
      fun d steps hd => htail d _ steps _ hd).at_token trivial
  · rw [Item.front_append]
    exact front_declaratorItems_ne _ rfl ⟨by decide, by decide⟩

end DeclaresAs

/-! ## Prototypes -/

/-- A declaration is one of a function with a known prototype. -/
def IsFunction (f : Function) (isDefined : Bool) (d : Declaration) : Prop :=
  ∃ g, d = .function g ∧ f.Same g ∧ g.isDefined = isDefined

theorem declared_takes {start : Position} {specifiers : Specifiers}
    (hspecifiers : specifiers.isTypedef = false) :
    Takes setting tags (declared (steps + 1) start specifiers f.name (.function f.result f.params))
      [] (isAttribute · = false) fun d tags' => IsFunction f false d ∧ tags' = tags := by
  unfold declared
  refine .placeAt start (.origin ?_)
  rw [hspecifiers]
  refine .modifyKind (fun _ => .function) (.skipAttributes (.pure ⟨?_, rfl⟩) fun t ht => ht)
  exact ⟨_, rfl, ⟨rfl, rfl, rfl⟩, rfl⟩

/-- The items between the name of a function and the end of its parameters. -/
def callItems (f : Function) : List Item :=
  .token (.ofWord f.name) :: .token .openParen ::
    listItems (f.params.params.map Param.items) f.params.variadic ++ [.token .closeParen]

theorem declares_call (h : f.Printable) :
    Declares setting tags false (callItems f) (some f.name) [.function f.params] := by
  refine declares_function h.name (parameters_gives f.params.variadic fun param hparam => ?_)
  exact ⟨h.paramTypes param hparam, h.paramNames param hparam, h.paramVoid param hparam,
    declaratorReread (h.paramTypes param hparam)⟩

/-- A prototype declares its function. -/
theorem declaresAs_prototype (h : f.Printable) :
    DeclaresAs setting f.result f.name (callItems f).tail (IsFunction f false) where
  printable := h.result
  exists_meaning := by
    refine ⟨_, _, declares_call h,
      Declared.ofOps_function (Declared.ofOps_ops h.result) h.dimensions f.params, ?_⟩
    intro steps start specifiers hspecifiers
    exact (declared_takes hspecifiers).mono (fun _ _ hQ => hQ) fun _ ht => isAttribute_of_closes ht

/-- A semicolon ends a declaration. -/
theorem declarationEnd_semicolon {start : Position} {specifiers : Specifiers}
    {found : List Declaration} {d : Declaration} :
    Takes setting tags (declarationEnd start steps specifiers found d) [.token .semicolon]
      (fun _ => True) fun declared _ => declared = found ++ [d] := by
  unfold declarationEnd
  refine .token fun t _ => ?_
  rw [if_neg (by simp [Item.front])]
  exact .accept_ne (.expect (.pure rfl)) fun _ _ h => by cases h

/-- A body ends a prototype and defines the function. -/
theorem declarationEnd_body {start : Position} {specifiers : Specifiers}
    {found : List Declaration} {d : Declaration} (hd : IsFunction f false d) {body : List Item}
    (hbody : Token.Balanced (body.flatMap Item.tokens)) :
    Takes setting tags (declarationEnd start steps specifiers found d)
      (.token .openBrace :: (body ++ [.token .closeBrace])) (fun _ => True)
      fun declared _ => ∃ e, declared = found ++ [e] ∧ IsFunction f true e := by
  obtain ⟨g, rfl, hsame, -⟩ := hd
  unfold declarationEnd
  refine .token fun t _ => ?_
  rw [if_pos ⟨rfl, rfl⟩]
  refine .noteRules (.enclosed rfl hbody fun row => .pure ⟨_, rfl, _, rfl, ?_, rfl⟩)
  exact ⟨hsame.name, hsame.result, hsame.params⟩

/-- A printed prototype with a semicolon behind it declares the function and nothing else. -/
theorem external_prototype (h : f.Printable) :
    Takes setting [] (external steps) (f.items ++ [.token .semicolon]) (fun _ => True)
      fun declared _ => ∃ d, declared = [d] ∧ IsFunction f false d :=
  (declaresAs_prototype h).external_takes (fun _ => rfl) fun d _ _ _ hd =>
    declarationEnd_semicolon.mono (fun _ _ hdeclared => ⟨d, hdeclared, hd⟩) fun _ _ => trivial

/-- A printed prototype with a body behind it defines the function and nothing else. -/
theorem external_definition (h : f.Printable) {body : List Item}
    (hbody : Token.Balanced (body.flatMap Item.tokens)) :
    Takes setting [] (external steps)
      (f.items ++ .token .openBrace :: (body ++ [.token .closeBrace])) (fun _ => True)
      fun declared _ => ∃ d, declared = [d] ∧ IsFunction f true d :=
  (declaresAs_prototype h).external_takes (fun _ => rfl) fun _ _ _ _ hd =>
    (declarationEnd_body hd hbody).mono (fun _ _ hdeclared => hdeclared) fun _ _ => trivial

/-! ## Variables -/

/-- A declaration is one of a variable with a known name and type. -/
def IsVariable (name : String) (type : CType) (d : Declaration) : Prop :=
  ∃ v, d = .variable v ∧ v.name = name ∧ v.type = type

theorem declared_object {start : Position} {specifiers : Specifiers}
    (hspecifiers : specifiers.isTypedef = false) {name : String} {type : CType} :
    Takes setting tags (declared (steps + 1) start specifiers name (.object type)) []
      (closes false · = true) fun d tags' => IsVariable name type d ∧ tags' = tags := by
  unfold declared expressionBehind?
  refine .placeAt start (.origin (.skipAttributes ?_ fun t ht => isAttribute_of_closes ht))
  rw [hspecifiers]
  refine Takes.bind_nil (P := (closes false · = true)) (Q := fun _ tags' => tags' = tags) ?_ ?_
  · exact .accept_ne (.pure rfl) fun t ht heq => by cases heq; cases ht
  · rintro _ _ rfl
    exact .pure ⟨⟨_, rfl, rfl, rfl⟩, rfl⟩

/-- A name alone is declared as a variable. -/
theorem declaresAs_variable {type : CType} (htype : type.Printable) {name : String}
    (hname : IsPlainName name) : DeclaresAs setting type name [] (IsVariable name type) where
  printable := htype
  exists_meaning := by
    exact ⟨[], .object type, declares_name hname, Declared.ofOps_ops htype,
      fun _ _ _ hspecifiers => declared_object hspecifiers⟩

/-- A printed declaration of a name declares the variable and nothing else. -/
theorem external_variable {type : CType} (htype : type.Printable) {name : String}
    (hname : IsPlainName name) :
    Takes setting [] (external steps) (type.items (wordItems [name]) ++ [.token .semicolon])
      (fun _ => True) fun declared _ => ∃ d, declared = [d] ∧ IsVariable name type d :=
  (declaresAs_variable htype hname).external_takes (fun _ => rfl) fun d _ _ _ hd =>
    declarationEnd_semicolon.mono (fun _ _ hdeclared => ⟨d, hdeclared, hd⟩) fun _ _ => trivial

end Reader

end RemoteCalls
