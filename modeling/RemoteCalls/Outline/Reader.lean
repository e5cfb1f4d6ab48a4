import RemoteCalls.Configuration
import RemoteCalls.Diagnostic
import RemoteCalls.Token.Group

/-!
# Reading declarations

The steps from which the reading of declarations is built. A reader looks at the lexemes that are
left, takes some of them, and gives a result or a failure. It also knows the kind of the declaration
it is at, which a failure names, and gathers the structures that are defined on the way.
-/

namespace RemoteCalls

/-- What does not change while a file is read; `finish` is the position of its end. -/
structure Setting where
  rules : NoteRules
  file : Path
  origin : Origin
  finish : Position

/-- The place of a position in the file that is read. -/
def Setting.place (setting : Setting) (position : Position) : Place :=
  ⟨setting.file, position⟩

/-- Where a reader is: the lexemes left, the kind of declaration it is at, and the structures that
were defined inside of it, in the order of their ends. -/
structure Cursor where
  rest : List Lexeme
  kind : DeclKind
  tags : List Structure

/-- Why reading stops. Behind a malformed declaration the file can be read on; a fatal failure has
come to the end of the file. Running out of steps is not a failure of the text. -/
inductive Failure where
  | malformed (diagnostic : Diagnostic)
  | fatal (diagnostic : Diagnostic)
  | outOfSteps

/-- A step of reading. -/
abbrev Reader := ReaderT Setting (StateT Cursor (Except Failure))

namespace Reader

/-- The first token of a row of lexemes, or the end of the file. -/
def headToken : List Lexeme → Token
  | [] => .endOfFile
  | lexeme :: _ => lexeme.token

/-- The token that a reader is at. -/
def token : Reader Token := do
  return headToken (← get).rest

/-- The token behind the one that a reader is at. -/
def nextToken : Reader Token := do
  return headToken (← get).rest.tail

/-- The position of the first of some lexemes, or of the end of the file. -/
def headPosition (finish : Position) : List Lexeme → Position
  | [] => finish
  | lexeme :: _ => lexeme.position

/-- The position that a reader is at. -/
def position : Reader Position := do
  return headPosition (← read).finish (← get).rest

/-- The place of a position in the file that is read. -/
def placeAt (position : Position) : Reader Place := do
  return (← read).place position

/-- Whether the file that is read was given as input or included. -/
def origin : Reader Origin := do
  return (← read).origin

/-- How notes are recognized in the file that is read. -/
def noteRules : Reader NoteRules := do
  return (← read).rules

/-- The kind of declaration that the reader is at. -/
def kind : Reader DeclKind := do
  return (← get).kind

/-- What the two tokens in front of the reader look like. -/
def ahead (look : Token → Token → Bool) : Reader Bool := do
  return look (← token) (← nextToken)

/-- Takes one lexeme; at the end of the file there is none to take. -/
def advance : Reader Unit :=
  modify fun cursor => { cursor with rest := cursor.rest.tail }

/-- Puts the reader in front of other lexemes. -/
def moveTo (rest : List Lexeme) : Reader Unit :=
  modify fun cursor => { cursor with rest := rest }

/-- Names the kind of declaration that the reader is at. -/
def setKind (kind : DeclKind) : Reader Unit :=
  modify fun cursor => { cursor with kind := kind }

/-- Takes the given token if the reader is at it, and says whether it was. -/
def accept (wanted : Token) : Reader Bool := do
  if (← token) = wanted then
    advance
    return true
  else
    return false

/-- Fails because the declaration makes no sense from here on. -/
def malformed {α : Type} (reason : Reason) : Reader α := do
  let place := (← read).place (← position)
  throw (.malformed ⟨place, some (← get).kind, reason⟩)

/-- Fails because the file has come to its end inside of something. -/
def fatal {α : Type} (position : Position) (reason : Reason) : Reader α := do
  throw (.fatal ⟨(← read).place position, none, reason⟩)

/-- Fails because something else was looked for. -/
def unexpected {α : Type} (what : Expectation) : Reader α := do
  malformed (.expected what (← token))

/-- Takes the given token, which has to be there. -/
def expect (wanted : Token) (what : Expectation) : Reader Unit := do
  unless ← accept wanted do
    unexpected what

/-- Takes the semicolon that may end a statement, and gives what the statement stands for. -/
def endStatement {α : Type} (a : α) : Reader α := do
  discard (accept .semicolon)
  return a

/-- Takes a group with its delimiters, and gives the lexemes inside. -/
def group : Reader (List Lexeme) := do
  let opener ← token
  let opened ← position
  advance
  match Lexeme.splitGroup 0 (← get).rest with
  | some (inner, behind) =>
    moveTo behind
    return inner
  | none => fatal opened (.unbalancedGroup opener)

/-- Takes an expression, and gives its text, which must not be empty. -/
def expression : Reader String := do
  match Lexeme.splitExpression 0 (← position) (← get).rest with
  | .error opened => fatal opened .unbalancedInitializer
  | .ok (inner, behind) =>
    moveTo behind
    let text := Lexeme.join inner
    if text.isEmpty then unexpected .expression
    return text

/-- Takes an expression if the given mark is in front of it, and the mark too. -/
def expressionBehind? (mark : Token) : Reader (Option String) := do
  if ← accept mark then
    return some (← expression)
  else
    return none

/-- Takes a name if the reader is at one. -/
def name? : Reader (Option String) := do
  match ← token with
  | .identifier name =>
    advance
    return some name
  | _ => return none

/-- The words that begin an attribute, which is skipped with the group behind it. -/
def attributeWords : List String :=
  ["__attribute__", "__attribute", "__declspec", "__asm__", "__asm", "asm", "_Alignas", "alignas"]

/-- The words that are skipped among the words of a type. -/
def ignoredWords : List String :=
  ["__extension__", "__thread", "__restrict__", "__volatile__"]

/-- Whether a token begins an attribute. -/
def isAttribute : Token → Bool
  | .identifier name => attributeWords.contains name
  | _ => false

/-- Takes an attribute. -/
def skipAttribute : Reader Unit := do
  advance
  if (← token) = .openParen then
    discard group

/-- Takes the attributes that the reader is at, as many as `steps` at most. -/
def skipAttributes : (steps : Nat) → Reader Unit
  | 0 => throw .outOfSteps
  | steps + 1 => do
    if isAttribute (← token) then
      skipAttribute
      skipAttributes steps

/-- Takes the qualifiers that the reader is at. -/
def skipQualifiers : Reader Unit :=
  modify fun cursor =>
    { cursor with rest := cursor.rest.dropWhile fun lexeme => lexeme.token matches .qualifier _ }

/-- Takes the pointers in front of a declarator with the qualifiers and attributes between them,
and counts them. -/
def pointers : (steps : Nat) → (count : Nat) → Reader Nat
  | 0, _ => throw .outOfSteps
  | steps + 1, count => do
    if ← accept .star then
      skipQualifiers
      skipAttributes (steps + 1)
      pointers steps (count + 1)
    else
      return count

end Reader

end RemoteCalls
