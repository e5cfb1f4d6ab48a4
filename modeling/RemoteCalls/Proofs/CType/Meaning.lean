import RemoteCalls.CType.Declarator

/-!
# What declarators mean

In C each operator of a declarator makes a type of the one that the operators outside of it make, so
that any nesting of pointers, arrays and functions can be told apart. A type here has its arrays
outside of all of its pointers. So it means what the operators do just if no pointer leads to an
array: such a pointer is moved into the array.
-/

namespace RemoteCalls

/-- A type as C understands it, from the outside to the base. -/
inductive Meaning where
  | base (base : Base)
  | const (target : Meaning)
  | volatile (target : Meaning)
  | pointer (target : Meaning)
  | array (size : Option String) (element : Meaning)
  | function (result : Meaning) (params : List Meaning) (variadic : Bool)

namespace Shape

/-- A base with the qualifiers of a shape. -/
def qualify (shape : Shape) (base : Meaning) : Meaning :=
  let target := if shape.isVolatile then .volatile base else base
  if shape.isConst then .const target else target

/-- What a shape makes of a base: arrays, the outermost first, of pointers to the qualified base. -/
def around (shape : Shape) (base : Meaning) : Meaning :=
  shape.dimensions.foldr .array (Nat.repeat .pointer shape.pointers (shape.qualify base))

end Shape

namespace CType

mutual

/-- The meaning of a type. -/
def meaning : CType → Meaning
  | base b shape => shape.around (.base b)
  | function result params variadic shape =>
    shape.around (.function result.meaning (meanings params) variadic)

/-- The meanings of a row of types. -/
def meanings : List CType → List Meaning
  | [] => []
  | type :: types => type.meaning :: meanings types

end

end CType

/-- The meaning of what is declared. -/
def Declared.meaning : Declared → Meaning
  | object type => type.meaning
  | function result params =>
    .function result.meaning (CType.meanings (params.params.map (·.type))) params.variadic

namespace Meaning

/-- What an operator makes of a type. -/
def derive (target : Meaning) : DeclaratorOp → Meaning
  | .pointer => .pointer target
  | .array size => .array size target
  | .function params =>
    .function target (CType.meanings (params.params.map (·.type))) params.variadic

/-- What a row of operators makes of a type. The outermost operator, which is the last, comes
first. -/
def ofOps (base : Meaning) (ops : List DeclaratorOp) : Meaning :=
  ops.foldr (fun op target => target.derive op) base

/-- Whether a type is an array. -/
def isArray : Meaning → Bool
  | array .. => true
  | _ => false

/-- Whether a pointer to an array stands on the way from the outside to the base, which leads
through the results of functions. -/
def pointsToArray : Meaning → Bool
  | base _ => false
  | const target | volatile target | array _ target | function target _ _ => target.pointsToArray
  | pointer target => target.isArray || target.pointsToArray

@[simp] theorem ofOps_nil (base : Meaning) : ofOps base [] = base := rfl

@[simp] theorem ofOps_cons (base : Meaning) (op : DeclaratorOp) (outer : List DeclaratorOp) :
    ofOps base (op :: outer) = (ofOps base outer).derive op := rfl

/-- No operator of a row makes a pointer to an array. -/
def PointsToNoArray (base : Meaning) (ops : List DeclaratorOp) : Prop :=
  ∀ inner outer, ops = inner ++ .pointer :: outer → (ofOps base outer).isArray = false

theorem pointsToNoArray_nil (base : Meaning) : PointsToNoArray base [] := by
  intro inner outer hops
  simp at hops

/-- The innermost operator makes a pointer to an array, or one further out does. -/
theorem pointsToNoArray_cons {base : Meaning} {op : DeclaratorOp} {outer : List DeclaratorOp} :
    PointsToNoArray base (op :: outer) ↔
      (op = .pointer → (ofOps base outer).isArray = false) ∧ PointsToNoArray base outer := by
  constructor
  · intro h
    exact ⟨fun hop => h [] outer (congrArg (· :: outer) hop),
      fun inner rest houter => h (op :: inner) rest (congrArg (op :: ·) houter)⟩
  · rintro ⟨hop, houter⟩ inner rest hops
    cases inner with
    | nil =>
      obtain ⟨hpointer, rfl⟩ := List.cons.inj hops
      exact hop hpointer
    | cons first inner => exact houter inner rest (List.cons.inj hops).2

/-- An operator leaves the pointers to arrays that are there. -/
theorem pointsToArray_derive {target : Meaning} (h : target.pointsToArray = true)
    (op : DeclaratorOp) : (target.derive op).pointsToArray = true := by
  cases op with
  | pointer => simp [derive, pointsToArray, h]
  | array size => exact h
  | function params => exact h

/-- A pointer to an array can be seen in what a row of operators makes, whatever stands around
it. -/
theorem pointsToNoArray_of_ofOps {base : Meaning} {ops : List DeclaratorOp}
    (h : (ofOps base ops).pointsToArray = false) : PointsToNoArray base ops := by
  induction ops with
  | nil => exact pointsToNoArray_nil base
  | cons op outer ih =>
    rw [ofOps_cons] at h
    have houter : (ofOps base outer).pointsToArray = false := by
      cases hpoints : (ofOps base outer).pointsToArray with
      | false => rfl
      | true => rw [pointsToArray_derive hpoints op] at h; cases h
    refine pointsToNoArray_cons.mpr ⟨?_, ih houter⟩
    rintro rfl
    exact (Bool.or_eq_false_iff.mp h).1

end Meaning

/-! ## Types have their arrays outside -/

namespace Meaning

/-- Pointers to what is no array, and leads to none, lead to none. -/
theorem repeat_pointer {target : Meaning} (harray : target.isArray = false)
    (hpoints : target.pointsToArray = false) (n : Nat) :
    (Nat.repeat pointer n target).isArray = false ∧
      (Nat.repeat pointer n target).pointsToArray = false := by
  induction n with
  | zero => exact ⟨harray, hpoints⟩
  | succ n ih =>
    obtain ⟨ihArray, ihPoints⟩ := ih
    refine ⟨rfl, ?_⟩
    rw [Nat.repeat, pointsToArray, ihArray, ihPoints]
    rfl

theorem pointsToArray_arrays (dimensions : List (Option String)) (element : Meaning) :
    (dimensions.foldr array element).pointsToArray = element.pointsToArray := by
  induction dimensions with
  | nil => rfl
  | cons size dimensions ih => exact ih

theorem isArray_arrays (dimensions : List (Option String)) (element : Meaning) :
    (dimensions.foldr array element).isArray = (!dimensions.isEmpty || element.isArray) := by
  cases dimensions with
  | nil => rfl
  | cons size dimensions => rfl

end Meaning

namespace Shape

variable (shape : Shape) {base : Meaning}

theorem qualify_flat (harray : base.isArray = false) (hpoints : base.pointsToArray = false) :
    (shape.qualify base).isArray = false ∧ (shape.qualify base).pointsToArray = false := by
  unfold qualify
  cases shape.isConst with
  | true => exact ⟨rfl, by cases shape.isVolatile <;> exact hpoints⟩
  | false =>
    cases shape.isVolatile with
    | true => exact ⟨rfl, hpoints⟩
    | false => exact ⟨harray, hpoints⟩

/-- What a shape makes is an array just if it has dimensions, and no pointer leads to an array. -/
theorem around_flat (harray : base.isArray = false) (hpoints : base.pointsToArray = false) :
    (shape.around base).isArray = !shape.dimensions.isEmpty ∧
      (shape.around base).pointsToArray = false := by
  obtain ⟨hqualified, hqualified'⟩ := shape.qualify_flat harray hpoints
  obtain ⟨hpointers, hpointers'⟩ := Meaning.repeat_pointer hqualified hqualified' shape.pointers
  unfold around
  rw [Meaning.isArray_arrays, Meaning.pointsToArray_arrays, hpointers, hpointers']
  exact ⟨Bool.or_false _, rfl⟩

/-- A pointer to what a shape without dimensions makes. -/
theorem around_pointer (h : shape.dimensions = []) :
    ({ shape with pointers := shape.pointers + 1 } : Shape).around base =
      .pointer (shape.around base) := by
  simp [around, qualify, h, Nat.repeat]

/-- An array of what a shape makes. -/
theorem around_array (size : Option String) :
    ({ shape with dimensions := size :: shape.dimensions } : Shape).around base =
      .array size (shape.around base) := rfl

end Shape

namespace CType

/-- A type means an array just if it has dimensions, and no pointer in it leads to an array. -/
theorem meaning_flat : (type : CType) →
    type.meaning.isArray = !type.shape.dimensions.isEmpty ∧ type.meaning.pointsToArray = false
  | base b shape => by
    rw [meaning]
    exact shape.around_flat rfl rfl
  | function result params variadic shape => by
    obtain ⟨-, hresult⟩ := meaning_flat result
    rw [meaning]
    exact shape.around_flat rfl hresult

/-- A pointer to a type without dimensions means a pointer to what the type means. -/
theorem meaning_pointer {type : CType} (h : type.shape.dimensions = []) :
    type.pointer.meaning = .pointer type.meaning := by
  cases type with
  | base b shape =>
    simp only [pointer, withShape, meaning]
    exact shape.around_pointer h
  | function result params variadic shape =>
    simp only [pointer, withShape, meaning]
    exact shape.around_pointer h

/-- An array of a type means an array of what the type means. -/
theorem meaning_array (size : Option String) (type : CType) :
    (type.array size).meaning = .array size type.meaning := by
  cases type with
  | base b shape =>
    simp only [array, withShape, meaning]
    exact shape.around_array size
  | function result params variadic shape =>
    simp only [array, withShape, meaning]
    exact shape.around_array size

end CType

/-- The type of a function means what the function does. -/
theorem ParamList.meaning_functionType (params : ParamList) (result : CType) :
    (params.functionType result).meaning = (Declared.function result params).meaning := by
  rw [functionType, CType.functionOf, CType.meaning]
  rfl

namespace Declared

theorem pointsToArray_meaning (declared : Declared) : declared.meaning.pointsToArray = false := by
  cases declared with
  | object type => exact type.meaning_flat.2
  | function result params => exact result.meaning_flat.2

/-- One more operator means what C says, unless it makes a pointer to an array. -/
theorem meaning_derive {declared outer : Declared} {op : DeclaratorOp}
    (h : outer.derive op = .ok declared) (hop : op = .pointer → outer.meaning.isArray = false) :
    declared.meaning = outer.meaning.derive op := by
  cases op with
  | pointer =>
    cases h
    cases outer with
    | object type =>
      have hdimensions : type.shape.dimensions = [] := by
        have harray := (type.meaning_flat.1).symm.trans (hop rfl)
        simpa using harray
      exact CType.meaning_pointer hdimensions
    | function result params =>
      exact (CType.meaning_pointer rfl).trans
        (congrArg Meaning.pointer (params.meaning_functionType result))
  | array size =>
    cases outer with
    | object type =>
      cases h
      exact CType.meaning_array size type
    | function result params => cases h
  | function params =>
    cases outer with
    | object type =>
      simp only [derive] at h
      split at h
      · cases h
        rfl
      · cases h
    | function result params' => cases h

/-- The operators of a declarator are applied one by one. -/
theorem ofOps_cons_of_ok {base : CType} {op : DeclaratorOp} {outer : List DeclaratorOp}
    {declared : Declared} (h : ofOps base (op :: outer) = .ok declared) :
    ∃ middle, ofOps base outer = .ok middle ∧ middle.derive op = .ok declared := by
  rw [ofOps] at h
  cases hmiddle : ofOps base outer with
  | error fault =>
    rw [hmiddle] at h
    cases h
  | ok middle =>
    rw [hmiddle] at h
    exact ⟨middle, rfl, h⟩

/-- What operators declare means what they do in C if none of them makes a pointer to an array. -/
theorem meaning_of_ofOps {base : CType} {ops : List DeclaratorOp} {declared : Declared}
    (h : ofOps base ops = .ok declared)
    (hops : Meaning.PointsToNoArray base.meaning ops) :
    declared.meaning = Meaning.ofOps base.meaning ops := by
  induction ops generalizing declared with
  | nil =>
    cases h
    rfl
  | cons op outer ih =>
    obtain ⟨middle, hmiddle, hderive⟩ := ofOps_cons_of_ok h
    obtain ⟨hop, houter⟩ := Meaning.pointsToNoArray_cons.mp hops
    have hmeaning : middle.meaning = Meaning.ofOps base.meaning outer := ih hmiddle houter
    rw [Meaning.ofOps_cons, ← hmeaning]
    rw [← hmeaning] at hop
    exact meaning_derive hderive hop

/-- A pointer to an array of objects is taken for an array of pointers, whatever stands around
it. -/
theorem ofOps_pointer_array {base type : CType} {outer : List DeclaratorOp}
    (h : ofOps base outer = .ok (.object type)) (inner : List DeclaratorOp)
    (size : Option String) :
    ofOps base (inner ++ .pointer :: .array size :: outer) =
      ofOps base (inner ++ .array size :: .pointer :: outer) := by
  induction inner with
  | nil =>
    have hswap : (type.array size).pointer = type.pointer.array size := by cases type <;> rfl
    simp only [List.nil_append, ofOps, h]
    exact congrArg (Except.ok ∘ object) hswap
  | cons op inner ih => rw [List.cons_append, List.cons_append, ofOps, ofOps, ih]

end Declared

namespace Declarator

open Meaning (PointsToNoArray)

/-- What a declarator declares means what its operators do in C, just if none of them makes a
pointer to an array. Two such declarators that declare the same mean the same. -/
theorem resolve_means {declarator : Declarator} {base : CType} {declared : Declared}
    (h : declarator.resolve base = .ok declared) :
    (declared.meaning = Meaning.ofOps base.meaning declarator.ops ↔
      PointsToNoArray base.meaning declarator.ops) ∧
    ∀ (other : Declarator) (base' : CType), other.resolve base' = .ok declared →
      PointsToNoArray base.meaning declarator.ops → PointsToNoArray base'.meaning other.ops →
      Meaning.ofOps base'.meaning other.ops = Meaning.ofOps base.meaning declarator.ops := by
  refine ⟨⟨?_, Declared.meaning_of_ofOps h⟩, ?_⟩
  · intro hmeaning
    have hpoints := declared.pointsToArray_meaning
    rw [hmeaning] at hpoints
    exact Meaning.pointsToNoArray_of_ofOps hpoints
  · intro other base' hother hdeclarator hnoArray
    exact (Declared.meaning_of_ofOps hother hnoArray).symm.trans
      (Declared.meaning_of_ofOps h hdeclarator)

/-- Three pointers to functions with a pointer as result, as in `char *(*table[3])(void)`. -/
theorem resolve_means_of_table :
    let char : CType := .base (.builtin "char") .plain
    let table : Declarator :=
      ⟨some "table", [.array (some "3"), .pointer, .function ⟨[], false⟩, .pointer]⟩
    ∃ declared, table.resolve char = .ok declared ∧
      declared.meaning =
        .array (some "3") (.pointer (.function (.pointer (.base (.builtin "char"))) [] false)) := by
  intro char table
  have hchar : char.meaning = .base (.builtin "char") := by
    simp [char, CType.meaning, Shape.around, Shape.qualify, Shape.plain, Nat.repeat]
  have htable : PointsToNoArray char.meaning table.ops := by
    simp [table, hchar, Meaning.pointsToNoArray_cons, Meaning.pointsToNoArray_nil, Meaning.derive,
      Meaning.isArray]
  have hresolve : ∃ declared, table.resolve char = .ok declared := ⟨_, rfl⟩
  obtain ⟨declared, hdeclared⟩ := hresolve
  have hmeaning := (resolve_means hdeclared).1.mpr htable
  rw [hchar] at hmeaning
  refine ⟨declared, hdeclared, hmeaning.trans ?_⟩
  simp [table, Meaning.derive, CType.meanings]

/-- A pointer to an array, as in `int (*p)[3]`. -/
theorem not_resolve_means_of_pointer_to_array :
    ¬ ∀ (declarator : Declarator) (base : CType) (declared : Declared),
      declarator.resolve base = .ok declared →
        declared.meaning = Meaning.ofOps base.meaning declarator.ops := by
  intro hall
  let int : CType := .base (.builtin "int") .plain
  have hmeaning : (int.array (some "3")).pointer.meaning =
      .pointer (.array (some "3") int.meaning) :=
    hall ⟨some "p", [.pointer, .array (some "3")]⟩ int _ rfl
  have harray := (CType.meaning_flat (int.array (some "3")).pointer).1
  rw [hmeaning] at harray
  cases harray

end Declarator

end RemoteCalls
