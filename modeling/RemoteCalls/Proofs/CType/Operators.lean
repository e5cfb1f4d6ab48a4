import RemoteCalls.Proofs.CType.Items

/-!
# Types as rows of operators

The declarator of a type has its name under a row of operators, which make the type of the base that
stands in front of the declarator.
-/

namespace RemoteCalls

namespace CType

/-- The base that stands in front of a declarator. -/
def leaf : CType → CType
  | base b shape => base b ⟨shape.isConst, shape.isVolatile, 0, []⟩
  | function result _ _ _ => result.leaf

/-- The operators of the pointers and the dimensions of a shape. -/
def shapeOps (pointers : Nat) (dimensions : List (Option String)) : List DeclaratorOp :=
  dimensions.map .array ++ List.replicate pointers .pointer

/-- The operators that make a type of its base. -/
def ops : CType → List DeclaratorOp
  | base _ shape => shapeOps shape.pointers shape.dimensions
  | function result params variadic shape =>
    shapeOps (max shape.pointers 1) shape.dimensions ++
      .function ⟨params.map (⟨none, ·⟩), variadic⟩ ::
        List.replicate result.shape.pointers .pointer

end CType

namespace Declared

theorem ofOps_append (base : CType) (ops outer : List DeclaratorOp) {type : CType}
    (h : ofOps base outer = .ok (.object type)) :
    ofOps base (ops ++ outer) = ofOps type ops := by
  induction ops with
  | nil => exact h
  | cons op ops ih =>
    rw [List.cons_append, ofOps, ih]
    rfl

/-- Pointers to a type. -/
theorem ofOps_pointers (type : CType) (n : Nat) :
    ofOps type (List.replicate n .pointer) = .ok (.object (type.withShape
      { type.shape with pointers := type.shape.pointers + n })) := by
  induction n with
  | zero => cases type <;> rfl
  | succ n ih =>
    rw [List.replicate_succ, ofOps, ih]
    cases type <;> rfl

/-- Arrays of a type without dimensions. -/
theorem ofOps_arrays (type : CType) (dimensions : List (Option String)) :
    ofOps type (dimensions.map .array) = .ok (.object (type.withShape
      { type.shape with dimensions := dimensions ++ type.shape.dimensions })) := by
  induction dimensions with
  | nil => cases type <;> rfl
  | cons size dimensions ih =>
    rw [List.map_cons, ofOps, ih]
    cases type <;> rfl

/-- A shape around a type. -/
theorem ofOps_shape (type : CType) (pointers : Nat) (dimensions : List (Option String)) :
    ofOps type (CType.shapeOps pointers dimensions) = .ok (.object (type.withShape
      { type.shape with
        pointers := type.shape.pointers + pointers
        dimensions := dimensions ++ type.shape.dimensions })) := by
  rw [CType.shapeOps, ofOps_append _ _ _ (ofOps_pointers type pointers), ofOps_arrays]
  cases type <;> rfl

/-- The operators of a type with a named base make the type. -/
theorem ofOps_base (b : Base) (shape : Shape) :
    ofOps (CType.base b shape).leaf (CType.base b shape).ops = .ok (.object (.base b shape)) := by
  rw [CType.ops, ofOps_shape]
  simp [CType.leaf, CType.withShape, CType.shape]

/-- The parameters of a function, around the operators of its result. -/
theorem ofOps_function {result : CType}
    (h : ofOps result.leaf result.ops = .ok (.object result))
    (hresult : result.shape.dimensions = []) (params : ParamList) :
    ofOps result.leaf (.function params :: result.ops) = .ok (.function result params) := by
  rw [ofOps, h]
  simp only [bind, Except.bind, derive, hresult, List.isEmpty_nil, if_true]

/-- The operators of a printable type make the type of its base. -/
theorem ofOps_ops {type : CType} (h : type.Printable) :
    ofOps type.leaf type.ops = .ok (.object type) := by
  cases h with
  | base hbase hshape => exact ofOps_base _ _
  | @function b around outer params variadic hbase haround houter hshape hparams hvoid =>
    obtain ⟨isConst, isVolatile, pointers, dimensions⟩ := outer
    obtain ⟨rfl, rfl, hpointers⟩ := houter
    obtain ⟨n, rfl⟩ := Nat.exists_eq_add_of_le' hpointers
    let list : ParamList := ⟨params.map (⟨none, ·⟩), variadic⟩
    have hfunction := ofOps_function (ofOps_base b around) haround list
    -- The innermost pointer makes the function an object.
    have hpointer : ofOps (CType.base b around).leaf
        (.pointer :: .function list :: (CType.base b around).ops) =
          .ok (.object (.function (.base b around) params variadic ⟨false, false, 1, []⟩)) := by
      rw [ofOps, hfunction]
      simp [bind, Except.bind, derive, ParamList.functionType, list, CType.functionOf,
        CType.pointer, CType.withShape, CType.shape, Shape.plain, Function.comp_def]
    have hops : (CType.function (.base b around) params variadic
          ⟨false, false, n + 1, dimensions⟩).ops =
        CType.shapeOps n dimensions ++
          .pointer :: .function list :: (CType.base b around).ops := by
      simp [CType.ops, CType.shapeOps, haround, CType.shape, list, List.replicate_succ']
    rw [hops, CType.leaf, ofOps_append _ _ _ hpointer, ofOps_shape]
    simp [CType.withShape, CType.shape, Nat.add_comm]

end Declared

end RemoteCalls
