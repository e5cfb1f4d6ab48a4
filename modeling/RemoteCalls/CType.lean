/-!
# C types

A type is a base under a number of pointers under a row of array dimensions, with qualifiers on the
base; the base is a named type or the type of a function. The module gives the types, how they are
spelled, and how a name is declared with one.
-/

namespace RemoteCalls

/-- The named bases of a type. A builtin base is its keywords, one space apart. -/
inductive Base where
  | builtin (words : String)
  | named (name : String)
  | struct (name : String)
  | union (name : String)
  | enum (name : String)
deriving DecidableEq, Repr, Inhabited

/-- The text of a named base. -/
def Base.text : Base → String
  | .builtin name | .named name => name
  | .struct name => "struct " ++ name
  | .union name => "union " ++ name
  | .enum name => "enum " ++ name

/-- What is put around a base: qualifiers, pointers, and array dimensions from the outermost to the
innermost. A dimension without a size is `none`. -/
structure Shape where
  isConst : Bool
  isVolatile : Bool
  pointers : Nat
  dimensions : List (Option String)
deriving DecidableEq, Repr, Inhabited

namespace Shape

/-- A base as it is. -/
def plain : Shape := ⟨false, false, 0, []⟩

/-- The qualifiers, each with a space behind it. -/
def qualifiers (shape : Shape) : String :=
  (if shape.isConst then "const " else "") ++ (if shape.isVolatile then "volatile " else "")

/-- One star for each of `n` pointers. -/
def stars (n : Nat) : String :=
  String.ofList (List.replicate n '*')

/-- The dimensions in brackets. -/
def brackets (shape : Shape) : String :=
  String.join (shape.dimensions.map fun size => "[" ++ size.getD "" ++ "]")

end Shape

/-- A C type. A function type under pointers is a function pointer. -/
inductive CType where
  | base (base : Base) (shape : Shape)
  | function (result : CType) (params : List CType) (variadic : Bool) (shape : Shape)
deriving Repr, Inhabited

/-- The texts of a parameter list with commas between them, `void` for an empty list. -/
def parameterText (params : List String) (variadic : Bool) : String :=
  let all := if variadic then params ++ ["..."] else params
  if all.isEmpty then "void" else ", ".intercalate all

namespace CType

/-- What is put around the base of a type. -/
def shape : CType → Shape
  | base _ shape => shape
  | function _ _ _ shape => shape

/-- The same base with another shape. -/
def withShape (shape : Shape) : CType → CType
  | base b _ => base b shape
  | function result params variadic _ => function result params variadic shape

/-- The pointer to a type without dimensions. Dimensions stay outside of the pointer. -/
def pointer (type : CType) : CType :=
  type.withShape { type.shape with pointers := type.shape.pointers + 1 }

/-- An array with elements of the given type. -/
def array (size : Option String) (type : CType) : CType :=
  type.withShape { type.shape with dimensions := size :: type.shape.dimensions }

/-- The type of a function, not yet a pointer to it. -/
def functionOf (result : CType) (params : List CType) (variadic : Bool) : CType :=
  function result params variadic .plain

/-- Whether a type is `void` without pointers and dimensions. -/
def isVoid : CType → Bool
  | base (.builtin words) shape =>
    words == "void" && shape.pointers == 0 && shape.dimensions.isEmpty
  | _ => false

/-- Whether a type has pointers or dimensions. -/
def isPointer (type : CType) : Bool :=
  0 < type.shape.pointers || !type.shape.dimensions.isEmpty

/-- Whether the base of a type is a function. -/
def isFunctionPointer : CType → Bool
  | base .. => false
  | function .. => true

mutual

/-- The spelling of a type without a name. -/
def spelling : CType → String
  | base b shape =>
    shape.qualifiers ++ b.text ++
      (if 0 < shape.pointers then " " ++ Shape.stars shape.pointers else "") ++
      (if shape.dimensions.isEmpty then ""
        else (if shape.pointers = 0 then " " else "") ++ shape.brackets)
  | function result params variadic shape =>
    shape.qualifiers ++ result.spelling ++ " (" ++ Shape.stars (max shape.pointers 1) ++
      shape.brackets ++ ")(" ++ parameterText (spellings params) variadic ++ ")"

/-- The spellings of a row of types. -/
def spellings : List CType → List String
  | [] => []
  | type :: types => type.spelling :: spellings types

end

/-- The base of a type with its qualifiers; for a function, the spelling of its result. -/
def baseSpelling : CType → String
  | base b shape => shape.qualifiers ++ b.text
  | function result _ _ shape => shape.qualifiers ++ result.spelling

/-- The declaration of a name with a type. -/
def declare (type : CType) (name : String) : String :=
  match type with
  | base _ shape =>
    type.baseSpelling ++ " " ++ Shape.stars shape.pointers ++ name ++ shape.brackets
  | function _ params variadic shape =>
    type.baseSpelling ++ " (" ++ Shape.stars (max shape.pointers 1) ++ name ++ shape.brackets ++
      ")(" ++ parameterText (spellings params) variadic ++ ")"

@[simp] theorem shape_withShape (type : CType) (s : Shape) : (type.withShape s).shape = s := by
  cases type <;> rfl

@[simp] theorem withShape_shape (type : CType) : type.withShape type.shape = type := by
  cases type <;> rfl

@[simp] theorem pointers_pointer (type : CType) :
    type.pointer.shape.pointers = type.shape.pointers + 1 := by
  simp [pointer]

@[simp] theorem dimensions_pointer (type : CType) :
    type.pointer.shape.dimensions = type.shape.dimensions := by
  simp [pointer]

@[simp] theorem dimensions_array (size : Option String) (type : CType) :
    (type.array size).shape.dimensions = size :: type.shape.dimensions := by
  simp [array]

theorem spellings_eq_map (types : List CType) : spellings types = types.map spelling := by
  induction types with
  | nil => simp [spellings]
  | cons type types ih => simp [spellings, ih]

end CType

end RemoteCalls
