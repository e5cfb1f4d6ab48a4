import RemoteCalls.Outline.Notes

/-!
# Specifiers, declarators and structure bodies

The words in front of a declarator say what type is declared and how; a tag among them may bring the
body of a structure, whose members have specifiers and declarators again, and so have the parameters
of a function. The readers here call each other, so each takes the number of steps it may go down.
-/

namespace RemoteCalls

/-- What a tag among the specifiers stands for: nothing of interest, a structure that is only named,
or a structure with a body and without a name. -/
inductive TagUse where
  | other
  | reference (name : String) (position : Position)
  | anonymous (s : Structure)

/-- The words in front of a declarator, as far as they are read. `words` are those of a builtin
type, and `base` is a base of another form. -/
structure SpecifierWords where
  storage : Storage
  isTypedef : Bool
  isConst : Bool
  isVolatile : Bool
  words : List String
  base : Option Base
  tag : TagUse

namespace SpecifierWords

/-- No words yet. -/
def empty : SpecifierWords := ⟨.empty, false, false, false, [], none, .other⟩

/-- Whether a type is named already. -/
def hasType (s : SpecifierWords) : Bool :=
  s.base.isSome || !s.words.isEmpty

/-- One more storage word. -/
def addStorage (word : String) (s : SpecifierWords) : SpecifierWords :=
  { s with storage :=
      if word = "static" then { s.storage with isStatic := true }
      else if word = "extern" then { s.storage with isExtern := true }
      else if word = "inline" ∨ word = "__inline" then { s.storage with isInline := true }
      else s.storage }

/-- One more qualifier. -/
def addQualifier (word : String) (s : SpecifierWords) : SpecifierWords :=
  if word = "const" then { s with isConst := true }
  else if word = "volatile" then { s with isVolatile := true }
  else s

end SpecifierWords

/-- The structure with one more field, unless the member is a bit-field without a name. -/
def Structure.addMember (s : Structure) (name : Option String) (type : CType)
    (width : Option String) : Structure :=
  match name with
  | some name => { s with fields := s.fields ++ [⟨name, type, width⟩] }
  | none => s

/-- What the words in front of a declarator say. -/
structure Specifiers where
  storage : Storage
  isTypedef : Bool
  type : CType
  tag : TagUse

/-- The specifiers that the words amount to, if a type is named among them. -/
def SpecifierWords.specifiers? (s : SpecifierWords) : Option Specifiers :=
  let base := match s.base with
    | some base => some base
    | none => if s.words.isEmpty then none else some (.builtin (" ".intercalate s.words))
  base.map fun base =>
    ⟨s.storage, s.isTypedef, .base base ⟨s.isConst, s.isVolatile, 0, []⟩, s.tag⟩

/-- The base that a tag names. -/
def Base.ofTag (keyword : Token) (name : String) : Base :=
  match keyword with
  | .struct => .struct name
  | .union => .union name
  | _ => .enum name

namespace Reader

/-- Whether a declarator inside of another one begins with two tokens. In an abstract declarator a
parenthesis begins parameters unless a star is behind it. -/
def beginsNested (abstract : Bool) : Token → Token → Bool
  | .openParen, .star => true
  | .openParen, .openParen => !abstract
  | .openParen, .identifier name => !abstract && !attributeWords.contains name
  | _, _ => false

/-- Whether the word `void` and the parenthesis behind it stand for no parameters. -/
def endsVoid : Token → Token → Bool
  | .builtin word, .closeParen => word == "void"
  | _, _ => false

/-- The result of a computation that can find a declarator without a meaning. -/
def resolved {α : Type} (result : Except DeclaratorFault α) : Reader α :=
  match result with
  | .ok a => pure a
  | .error fault => malformed (.declarator fault)

/-- Takes the name of a tag with the attributes around it. -/
def tagName (steps : Nat) : Reader (Option String) := do
  skipAttributes steps
  let name ← name?
  skipAttributes steps
  return name

/-- Takes the body of a structure, from its opening brace on, with a reader for the members. The
reader is at a structure all the while. -/
def structureBody (start : Position) (tag : String)
    (members : (opened : Position) → Structure → Reader Structure) : Reader Structure := do
  let outer ← kind
  setKind .struct
  let opened ← position
  advance
  let place ← placeAt start
  let origin ← origin
  let s ← members opened ⟨tag, [], origin, place, true, some place, []⟩
  setKind outer
  return s

/-- What the tag of a structure with a body stands for. A structure with a name is put among the
tags. -/
def defineTag (name : Option String) (s : Structure) : Reader TagUse := do
  if name.isSome then
    modify fun cursor => { cursor with tags := cursor.tags ++ [s] }
    return .other
  else
    return .anonymous s

/-- Takes what stands at the place of the name of a member: a declarator, or nothing in front of the
width of a bit-field. -/
def memberHead (base : CType) (declarator : Reader Declarator) :
    Reader (Option String × CType) := do
  if (← token) = .colon then
    return (none, base)
  else
    let declarator ← declarator
    match ← resolved (declarator.resolve base) with
    | .object type => return (declarator.name, type)
    | .function .. => malformed .functionMember

/-- A declarator without a name, which only an abstract one may be. -/
def nameless (abstract : Bool) : Reader Declarator :=
  if abstract then return ⟨none, []⟩ else unexpected .identifier

/-- Takes what stands at the place of the name of a declarator, which may be another declarator in
parentheses. -/
def declaratorHead (abstract : Bool) (nested : Reader Declarator) : Reader Declarator := do
  if ← ahead (beginsNested abstract) then
    advance
    let inner ← nested
    expect .closeParen .declaratorEnd
    return inner
  else
    match ← token with
    | .identifier name =>
      if attributeWords.contains name then nameless abstract
      else
        advance
        return ⟨some name, []⟩
    | _ => nameless abstract

/-- Parameters make a variable a function. -/
def nameFunction : Reader Unit :=
  modify fun cursor =>
    { cursor with kind := if cursor.kind = .variable then .function else cursor.kind }

mutual

/-- Takes the words in front of a declarator. -/
def specifierWords : (steps : Nat) → SpecifierWords → Reader SpecifierWords
  | 0, _ => throw .outOfSteps
  | steps + 1, s => do
    match ← token with
    | .storage word =>
      advance
      specifierWords steps (s.addStorage word)
    | .qualifier word =>
      advance
      specifierWords steps (s.addQualifier word)
    | .typedef =>
      advance
      specifierWords steps { s with isTypedef := true }
    | .builtin word =>
      if s.base.isSome then malformed (.wordAfterType word)
      else
        advance
        specifierWords steps { s with words := s.words ++ [word] }
    | .struct | .union | .enum =>
      if s.hasType then malformed .twoTypes
      else
        let (base, tag) ← tagSpecifier steps
        specifierWords steps { s with base := some base, tag := tag }
    | .identifier word =>
      if attributeWords.contains word then
        skipAttribute
        specifierWords steps s
      else if ignoredWords.contains word then
        advance
        specifierWords steps s
      else if s.hasType then pure s
      else
        advance
        specifierWords steps { s with base := some (.named word) }
    | _ => pure s

/-- Takes a tag with its name and body. The bodies of unions and enumerations are skipped; a
structure with a name and a body is put among the tags. -/
def tagSpecifier : (steps : Nat) → Reader (Base × TagUse)
  | 0 => throw .outOfSteps
  | steps + 1 => do
    let start ← position
    let keyword ← token
    advance
    let name ← tagName (steps + 1)
    let tag := name.getD Structure.anonymousTag
    let base := Base.ofTag keyword tag
    if (← token) = .openBrace then
      if keyword = .struct then
        let s ← structureBody start tag (members steps)
        return (base, ← defineTag name s)
      else
        discard group
        return (base, .other)
    else
      match name with
      | none => malformed (.tagExpected keyword)
      | some name =>
        return (base, if keyword = .struct then .reference name start else .other)

/-- Takes the members of a structure and the brace behind them. Marker statements among them are
notes of the structure. -/
def members : (steps : Nat) → (opened : Position) → Structure → Reader Structure
  | 0, _, _ => throw .outOfSteps
  | steps + 1, opened, s => do
    if ← accept .closeBrace then return s
    else if (← token) = .endOfFile then fatal opened (.unbalancedGroup .openBrace)
    else if ← accept .semicolon then members steps opened s
    else if ← atMarker then
      let note ← marker
      members steps opened { s with notes := Note.union s.notes note.toList }
    else
      let s ← member steps s
      members steps opened s

/-- Takes one member declaration. A structure without tag and name passes its fields on. -/
def member : (steps : Nat) → Structure → Reader Structure
  | 0, _ => throw .outOfSteps
  | steps + 1, s => do
    let specifiers ← specifiers steps
    if ← accept .semicolon then
      match specifiers.tag with
      | .anonymous inner => pure { s with fields := s.fields ++ inner.fields }
      | _ => pure s
    else
      memberDeclarators steps specifiers.type s

/-- Takes the declarators of a member declaration and the semicolon behind them. A bit-field may
have no name, and then it is no field. -/
def memberDeclarators : (steps : Nat) → CType → Structure → Reader Structure
  | 0, _, _ => throw .outOfSteps
  | steps + 1, base, s => do
    let (name, type) ← memberHead base (declarator steps false)
    let width ← expressionBehind? .colon
    skipAttributes (steps + 1)
    let s := s.addMember name type width
    if ← accept .comma then
      memberDeclarators steps base s
    else
      expect .semicolon .memberEnd
      return s

/-- Takes the words in front of a declarator, which have to name a type. -/
def specifiers : (steps : Nat) → Reader Specifiers
  | 0 => throw .outOfSteps
  | steps + 1 => do
    match (← specifierWords steps .empty).specifiers? with
    | some specifiers => pure specifiers
    | none => unexpected .typeSpecifier

/-- Takes a declarator. Only an abstract one may have no name. -/
def declarator : (steps : Nat) → (abstract : Bool) → Reader Declarator
  | 0, _ => throw .outOfSteps
  | steps + 1, abstract => do
    let count ← pointers (steps + 1) 0
    let inner ← declaratorHead abstract (declarator steps abstract)
    let ops ← declaratorSuffixes steps inner.ops
    return ⟨inner.name, ops ++ List.replicate count .pointer⟩

/-- Takes the dimensions and parameters behind a declarator. -/
def declaratorSuffixes : (steps : Nat) → List DeclaratorOp → Reader (List DeclaratorOp)
  | 0, _ => throw .outOfSteps
  | steps + 1, ops => do
    match ← token with
    | .openBracket =>
      let size := Lexeme.join (← group)
      declaratorSuffixes steps (ops ++ [.array (if size.isEmpty then none else some size)])
    | .openParen =>
      nameFunction
      let params ← parameters steps
      declaratorSuffixes steps (ops ++ [.function params])
    | _ => pure ops

/-- Takes the parameters of a function in parentheses. -/
def parameters : (steps : Nat) → Reader ParamList
  | 0 => throw .outOfSteps
  | steps + 1 => do
    advance
    if ← accept .closeParen then
      return ⟨[], false⟩
    else if ← ahead endsVoid then
      advance
      advance
      return ⟨[], false⟩
    else
      parameterList steps []

/-- Takes parameters with commas between them and the parenthesis behind them. A parameter that is
declared as a function is a pointer to it. -/
def parameterList : (steps : Nat) → List Param → Reader ParamList
  | 0, _ => throw .outOfSteps
  | steps + 1, params => do
    if ← accept .ellipsis then
      expect .closeParen .variadicEnd
      return ⟨params, true⟩
    else
      let specifiers ← specifiers steps
      let declarator ← declarator steps true
      let declared ← resolved (declarator.resolve specifiers.type)
      skipAttributes (steps + 1)
      let params := params ++ [⟨declarator.name, declared.decayed⟩]
      if ← accept .comma then
        parameterList steps params
      else
        expect .closeParen .parameterEnd
        return ⟨params, false⟩

end

end Reader

end RemoteCalls
