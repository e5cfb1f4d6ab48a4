import RemoteCalls.Outline.Reader

/-!
# Finding annotations

Notes are written as marker statements, as attributes that begin with an at sign, and inside of
comments. In each form only configured names count, and the arguments are the source texts between
the commas.
-/

namespace RemoteCalls.Note

/-- The note of a marker with the given lexemes between its parentheses. A call of one name inside
of the marker is the note itself: `MARKER(NAME(a, b))` is the note `NAME` on `a` and `b`. -/
def ofMarker (marker : String) (inner : List Lexeme) : Option Note :=
  match inner with
  | ⟨.identifier name, _, _⟩ :: ⟨.openParen, _, _⟩ :: rest =>
    let body := rest.dropLast
    if (rest.getLast?.map (·.token)) = some .closeParen ∧ Lexeme.parensMatch 0 body then
      of? name (Lexeme.arguments body)
    else of? marker (Lexeme.arguments inner)
  | _ => of? marker (Lexeme.arguments inner)

/-- The marker statement at the front of some lexemes, if one is there: its note, and how many
lexemes it takes behind its name. -/
def statement? (rules : NoteRules) : List Lexeme → Option (Option Note × Nat)
  | ⟨.identifier name, _, _⟩ :: rest =>
    if rules.isMarker name then
      match rest with
      | ⟨.semicolon, _, _⟩ :: _ => some (of? name [], 1)
      | ⟨.openParen, _, _⟩ :: behind =>
        (Lexeme.splitParens 0 behind).map fun (inner, _) => (ofMarker name inner, inner.length + 2)
      | _ => none
    else none
  | _ => none

/-- Whether a statement can begin behind a token. -/
def beginsStatement : Token → Bool
  | .semicolon | .openBrace | .closeBrace | .colon => true
  | _ => false

/-- The notes of the marker statements in the body of a function, in order and each once.
`fresh` says that a statement can begin here; the first `skip` lexemes belong to a statement that
is read already. -/
def ofBody (rules : NoteRules) : (fresh : Bool) → (skip : Nat) → (found : List Note) →
    List Lexeme → List Note
  | _, _, found, [] => found
  | _, skip + 1, found, lexeme :: rest =>
    ofBody rules (beginsStatement lexeme.token) skip found rest
  | fresh, 0, found, lexeme :: rest =>
    match if fresh then statement? rules (lexeme :: rest) else none with
    | some (note, taken) => ofBody rules false taken (union found note.toList) rest
    | none => ofBody rules (beginsStatement lexeme.token) 0 found rest

/-- The characters up to the parenthesis that closes the one before them. `depth` parentheses are
open inside; those in a literal that `quote` opened do not count, and a character behind a
backslash, which `escaped` says, does not close the literal. -/
def closedText : (depth : Nat) → (quote : Option Char) → (escaped : Bool) → List Char →
    Option (List Char)
  | _, _, _, [] => none
  | depth, some quote, escaped, c :: cs =>
    let quote' := if !escaped && c == quote then none else some quote
    (closedText depth quote' (!escaped && c == '\\') cs).map (c :: ·)
  | depth, none, _, c :: cs =>
    if c = ')' ∧ depth = 0 then some []
    else
      let depth' := if c = '(' then depth + 1 else if c = ')' then depth - 1 else depth
      let quote' := if c = '"' ∨ c = '\'' then some c else none
      (closedText depth' quote' false cs).map (c :: ·)

/-- The arguments that a text holds. A text that cannot be read into lexemes is cut at every
comma. -/
def textArguments (cs : List Char) : List String :=
  match Lexed.ofChars cs with
  | .ok lexed => Lexeme.arguments lexed.lexemes
  | .error _ => Text.commaPieces cs

/-- The notes in the text of a comment. A note is a marker behind an at sign that is not behind a
word. `afterWord` says that a character of a word stands before the text; the first `skip`
characters belong to a note that is read already. -/
def ofComment (rules : NoteRules) : (afterWord : Bool) → (skip : Nat) → List Char → List Note
  | _, _, [] => []
  | _, skip + 1, c :: cs => ofComment rules (Segment.isWordChar c) skip cs
  | afterWord, 0, c :: cs =>
    if c = '@' ∧ afterWord = false then
      let name := cs.takeWhile Segment.isWordChar
      if rules.isMarker (String.ofList name) then
        match cs.drop name.length with
        | '(' :: behind =>
          match closedText 0 none false behind with
          | some inner =>
            (of? (String.ofList name) (textArguments inner)).toList ++
              ofComment rules false (name.length + inner.length + 2) cs
          | none =>
            (of? (String.ofList name) []).toList ++ ofComment rules false name.length cs
        | _ => (of? (String.ofList name) []).toList ++ ofComment rules false name.length cs
      else ofComment rules false name.length cs
    else ofComment rules (Segment.isWordChar c) 0 cs

end RemoteCalls.Note

namespace RemoteCalls.Reader

/-- Whether a marker statement begins with two tokens. -/
def beginsMarker (rules : NoteRules) : Token → Token → Bool
  | .identifier name, .openParen | .identifier name, .semicolon => rules.isMarker name
  | _, _ => false

/-- Whether the reader is at a marker statement. -/
def atMarker : Reader Bool := do
  ahead (beginsMarker (← noteRules))

/-- Whether a name with a group in parentheses begins with two tokens. -/
def beginsCall : Token → Token → Bool
  | .identifier _, .openParen => true
  | _, _ => false

/-- Takes the name of a marker and the group behind it if there is one, and gives the note. -/
def markerNote : Reader (Option Note) := do
  let name := (← token).text
  if ← ahead beginsCall then
    advance
    return Note.ofMarker name (← group)
  else
    advance
    return Note.of? name []

/-- Takes a marker statement, and gives its note. -/
def marker : Reader (Option Note) := do
  endStatement (← markerNote)

end RemoteCalls.Reader
