import RemoteCalls.CType

/-!
# Declarators

A declarator is a name under a row of operators, read from the name outward. Applied to a base type
it declares an object or a function. Some rows have no meaning in C, and each has its reason.
-/

namespace RemoteCalls

/-- A parameter. A prototype may leave it without a name. -/
structure Param where
  name : Option String
  type : CType
deriving Repr, Inhabited

/-- The parameters of a function. -/
structure ParamList where
  params : List Param
  variadic : Bool
deriving Repr, Inhabited

/-- One operator of a declarator. -/
inductive DeclaratorOp where
  | pointer
  | array (size : Option String)
  | function (params : ParamList)
deriving Repr, Inhabited

/-- A name, absent in an abstract declarator, and its operators from the name outward. -/
structure Declarator where
  name : Option String
  ops : List DeclaratorOp
deriving Repr, Inhabited

/-- What a declarator declares. -/
inductive Declared where
  | object (type : CType)
  | function (result : CType) (params : ParamList)
deriving Repr, Inhabited

/-- Why a row of operators has no meaning. -/
inductive DeclaratorFault where
  | functionReturningFunction
  | functionReturningArray
  | arrayOfFunctions
deriving DecidableEq, Repr

/-- The message for a row of operators without a meaning. -/
def DeclaratorFault.message : DeclaratorFault → String
  | functionReturningFunction => "function returning a function"
  | functionReturningArray => "function returning an array"
  | arrayOfFunctions => "array of functions"

/-- The type of a function with the given result and parameters. -/
def ParamList.functionType (params : ParamList) (result : CType) : CType :=
  .functionOf result (params.params.map (·.type)) params.variadic

namespace Declared

/-- The type of what is declared; a function becomes a pointer to it. -/
def decayed : Declared → CType
  | object type => type
  | function result params => (params.functionType result).pointer

/-- One more operator around what the operators outside of it declare. -/
def derive (declared : Declared) : DeclaratorOp → Except DeclaratorFault Declared
  | .pointer => .ok (.object (match declared with
    | object type => type.pointer
    | function result params => (params.functionType result).pointer))
  | .array size => match declared with
    | object type => .ok (.object (type.array size))
    | function .. => .error .arrayOfFunctions
  | .function params => match declared with
    | object type =>
      if type.shape.dimensions.isEmpty then .ok (.function type params)
      else .error .functionReturningArray
    | function .. => .error .functionReturningFunction

end Declared

/-- What a row of operators declares on a base type. The outermost operator, which is the last, is
applied first. -/
def Declared.ofOps (base : CType) : List DeclaratorOp → Except DeclaratorFault Declared
  | [] => .ok (.object base)
  | op :: outer => do (← Declared.ofOps base outer).derive op

/-- What a declarator declares on a base type. -/
def Declarator.resolve (declarator : Declarator) (base : CType) :
    Except DeclaratorFault Declared :=
  Declared.ofOps base declarator.ops

end RemoteCalls
