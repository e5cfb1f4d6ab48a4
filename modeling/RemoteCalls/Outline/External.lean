import RemoteCalls.Outline.Declarators

/-!
# Declarations at file scope

One declaration at file scope gives a record for each structure it defines and for each name it
declares. The body of a function ends its declaration; only the marker statements of the body are
looked at.
-/

namespace RemoteCalls.Reader

/-- What one declarator of a declaration declares, up to the body of a function. `start` is the
position of the declaration. -/
def declared (steps : Nat) (start : Position) (specifiers : Specifiers) (name : String) :
    Declared → Reader Declaration
  | .function result params => do
    let place ← placeAt start
    let origin ← origin
    if specifiers.isTypedef then
      return .typedef ⟨name, params.functionType result, origin, place, []⟩
    else
      setKind .function
      skipAttributes steps
      return .function
        ⟨name, result, params, specifiers.storage, origin, place, false, none, []⟩
  | .object type => do
    let place ← placeAt start
    let origin ← origin
    skipAttributes steps
    if specifiers.isTypedef then
      return .typedef ⟨name, type, origin, place, []⟩
    else
      let initializer ← expressionBehind? .equals
      let storage := specifiers.storage
      return .variable
        ⟨name, type, storage.isExtern, storage.isStatic, initializer, origin, place, []⟩

/-- The structure without a tag among the specifiers of a type definition gets the first defined
name, and the specifiers name it from then on. -/
def nameAnonymous (name : String) (specifiers : Specifiers) : List Declaration × Specifiers :=
  match specifiers.tag with
  | .anonymous s =>
    if specifiers.isTypedef then
      ([.struct { s with name := name }],
        { specifiers with
          type := .base (.struct name) specifiers.type.shape
          tag := .other })
    else ([], { specifiers with tag := .other })
  | _ => ([], specifiers)

/-- Takes declarators with commas between them, and the semicolon or the body behind them. -/
def declarators (start : Position) : (steps : Nat) → Specifiers → List Declaration →
    Reader (List Declaration)
  | 0, _, _ => throw .outOfSteps
  | steps + 1, specifiers, found => do
    let declarator ← declarator steps false
    match declarator.name with
    | none => malformed .nameExpected
    | some name =>
      let (named, specifiers) := nameAnonymous name specifiers
      let meaning ← resolved (declarator.resolve specifiers.type)
      let declaration ← declared (steps + 1) start specifiers name meaning
      let found := found ++ named
      let next ← token
      if declaration.isFunction ∧ next = .openBrace then
        let rules ← noteRules
        let inner ← group
        return found ++ [declaration.define (Note.ofBody rules true 0 [] inner)]
      else
        let found := found ++ [declaration]
        if ← accept .comma then
          declarators start steps specifiers found
        else
          expect .semicolon .declarationEnd
          return found

/-- Takes the structures that were defined among the specifiers. -/
def takeTags : Reader (List Declaration) := do
  let tags := (← get).tags
  modify fun cursor => { cursor with tags := [] }
  return tags.map .struct

/-- Names the kind of a type definition. -/
def nameTypedef (specifiers : Specifiers) : Reader Unit :=
  modify fun cursor =>
    { cursor with kind := if specifiers.isTypedef then .typedef else cursor.kind }

/-- The structure that a declaration without declarators only names. -/
def namedStructure? (specifiers : Specifiers) : Reader (Option Declaration) := do
  match specifiers.tag with
  | .reference name position =>
    let place ← placeAt position
    let origin ← origin
    if specifiers.isTypedef then return none
    else return some (.struct ⟨name, [], origin, place, false, none, []⟩)
  | _ => return none

/-- Takes one declaration at file scope, and gives what it declares in order. -/
def external (steps : Nat) : Reader (List Declaration) := do
  let start ← position
  let specifiers ← specifiers steps
  nameTypedef specifiers
  let found ← takeTags
  let named ← namedStructure? specifiers
  if (← token) = .semicolon then
    advance
    return found ++ named.toList
  else
    declarators start steps specifiers found

/-- More steps than the reading of `count` lexemes can go down. -/
def stepsFor (count : Nat) : Nat :=
  8 * (count + 2)

/-- Reads one declaration at file scope at the front of some lexemes. -/
def readExternal (setting : Setting) (rest : List Lexeme) :
    Except Failure (List Declaration × Cursor) :=
  external (stepsFor rest.length) setting ⟨rest, .variable, []⟩

end RemoteCalls.Reader
