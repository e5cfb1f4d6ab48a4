import RemoteCalls.Outline.External

/-!
# The outline of a source file

The outline of a file is the row of what is found at file scope: declarations with their notes,
include directives, and reports on what cannot be read. It is read in steps, each of which takes at
least one lexeme; a declaration that fails is skipped up to the end it most likely has.
-/

namespace RemoteCalls

/-- What is found at file scope. -/
inductive Finding where
  | declaration (declaration : Declaration)
  | inclusion (header : Inclusion) (position : Position)
  | diagnostic (diagnostic : Diagnostic)

/-- A note that waits for its declaration. `detached` says that a blank line came behind it. -/
structure PendingNote where
  note : Note
  position : Position
  detached : Bool

/-- Where the reading of a file stands: the lexemes left, the notes that wait for a declaration, and
how many linkage blocks are open. -/
structure Outline where
  rest : List Lexeme
  pending : List PendingNote
  linkage : Nat

namespace PendingNote

/-- The notes that wait behind some trivia: a blank line detaches those before it, and a comment
adds its own. -/
def absorb (rules : NoteRules) (pending : List PendingNote) : List Trivia → List PendingNote
  | [] => pending
  | .blankLine _ :: rest =>
    absorb rules (pending.map fun p => { p with detached := true }) rest
  | .comment body position :: rest =>
    absorb rules
      (pending ++ (Note.ofComment rules false 0 body.toList).map (⟨·, position, false⟩)) rest

/-- Whether a note is refused by its declaration, which it is if it is detached and detached notes
are errors. -/
def refused (rules : NoteRules) (p : PendingNote) : Bool :=
  p.detached && rules.detached == .refuse

/-- The reports on notes with nothing left to belong to. Where detached notes are not errors, these
are not either. -/
def dangling (setting : Setting) (pending : List PendingNote) : List Finding :=
  match setting.rules.detached with
  | .attach => []
  | .refuse => pending.map fun p =>
    .diagnostic ⟨setting.place p.position, some .placeholder, .dangling p.note⟩

end PendingNote

namespace Outline

/-- The reports on refused notes, and then what a declaration declares with the other notes. -/
def declarations (setting : Setting) (kind : DeclKind) (pending : List PendingNote)
    (found : List Declaration) : List Finding :=
  let refused := pending.filter (·.refused setting.rules)
  let attached := (pending.filter fun p => !p.refused setting.rules).map (·.note)
  (refused.map fun p => .diagnostic ⟨setting.place p.position, some kind, .detached p.note⟩) ++
    found.map fun declaration => .declaration (declaration.annotate attached)

/-- The lexemes behind a declaration that cannot be read: behind a semicolon outside of groups,
behind a body in braces that follows a parenthesis, or behind a closing delimiter in front. `last`
is the token before, `depth` groups are open, the outermost at `opened`, and `body` says whether it
is such a body. If a group stays open, its position. -/
def behindFailure : (last : Option Token) → (depth : Nat) → (opened : Position) → (body : Bool) →
    List Lexeme → Except Position (List Lexeme)
  | _, depth, opened, _, [] => if depth = 0 then .ok [] else .error opened
  | last, depth, opened, body, lexeme :: rest =>
    let token := lexeme.token
    if token.isOpener then
      if depth = 0 then
        behindFailure token 1 lexeme.position
          (token = .openBrace ∧ last = some .closeParen) rest
      else behindFailure token (depth + 1) opened body rest
    else if token.isCloser then
      if depth = 1 ∧ token = .closeBrace ∧ body then .ok rest
      else if last.isNone then .ok rest
      else behindFailure token (depth - 1) opened body rest
    else if depth = 0 ∧ token = .semicolon then .ok rest
    else behindFailure token depth opened body rest

/-- The report on a failure, and where reading goes on: nowhere behind a fatal one. Waiting notes
are dropped. -/
def recover (setting : Setting) (outline : Outline) : Failure → List Finding × Outline
  | .malformed diagnostic =>
    match behindFailure none 0 (Reader.headPosition setting.finish outline.rest) false
        outline.rest with
    | .ok rest => ([.diagnostic diagnostic], ⟨rest, [], outline.linkage⟩)
    | .error opened =>
      ([.diagnostic diagnostic, .diagnostic ⟨setting.place opened, none, .unbalanced⟩],
        ⟨[], [], outline.linkage⟩)
  | .fatal diagnostic => ([.diagnostic diagnostic], ⟨[], [], outline.linkage⟩)
  | .outOfSteps => ([], ⟨[], [], outline.linkage⟩)

/-- Takes the arguments of an attribute note if there are any. -/
def noteArguments : Reader (List String) := do
  if (← Reader.token) = .openParen then
    return Lexeme.arguments (← Reader.group)
  else
    return []

/-- Takes an attribute note. Its name has to stand right behind the at sign; a name that is no
marker makes no note. -/
def attributeNote : Reader (Option Note) := do
  let rules ← Reader.noteRules
  let place ← Reader.placeAt (← Reader.position)
  Reader.advance
  match ← Reader.token with
  | .identifier name =>
    Reader.advance
    let arguments ← noteArguments
    return if rules.isMarker name then Note.of? name arguments else none
  | other => throw (.malformed ⟨place, some .placeholder, .expected .noteName other⟩)

/-- Runs a reader at the place of an outline. -/
def run {α : Type} (setting : Setting) (outline : Outline) (reader : Reader α) :
    Except Failure (α × Cursor) :=
  reader setting ⟨outline.rest, .variable, []⟩

/-- Takes an attribute note. A note that makes no sense does not take the declaration behind it
along. -/
def stepNote (setting : Setting) (outline : Outline) (position : Position) :
    List Finding × Outline :=
  match run setting outline attributeNote with
  | .ok (some note, cursor) =>
    ([], ⟨cursor.rest, outline.pending ++ [⟨note, position, false⟩], outline.linkage⟩)
  | .ok (none, cursor) => ([], ⟨cursor.rest, outline.pending, outline.linkage⟩)
  | .error (.malformed diagnostic) =>
    ([.diagnostic diagnostic], ⟨outline.rest.tail, outline.pending, outline.linkage⟩)
  | .error (.fatal diagnostic) =>
    ([.diagnostic diagnostic], ⟨[], outline.pending, outline.linkage⟩)
  | .error .outOfSteps => ([], ⟨[], outline.pending, outline.linkage⟩)

/-- Takes a marker statement, which is a placeholder. -/
def stepMarker (setting : Setting) (outline : Outline) (position : Position) :
    List Finding × Outline :=
  match run setting outline Reader.marker with
  | .ok (some note, cursor) =>
    (PendingNote.dangling setting outline.pending ++
        [.declaration (.placeholder ⟨note, setting.origin, setting.place position⟩)],
      ⟨cursor.rest, [], outline.linkage⟩)
  | .ok (none, cursor) => ([], ⟨cursor.rest, outline.pending, outline.linkage⟩)
  | .error failure => recover setting outline failure

/-- Takes a name with a group in parentheses, and a semicolon if there is one. -/
def macroCall : Reader Unit := do
  Reader.advance
  discard Reader.group
  Reader.endStatement ()

/-- Takes a macro call, which stands for nothing here. -/
def stepMacro (setting : Setting) (outline : Outline) : List Finding × Outline :=
  match run setting outline macroCall with
  | .ok ((), cursor) => ([], ⟨cursor.rest, outline.pending, outline.linkage⟩)
  | .error failure => recover setting outline failure

/-- Takes a declaration. -/
def stepDeclaration (setting : Setting) (outline : Outline) : List Finding × Outline :=
  match Reader.readExternal setting outline.rest with
  | .ok (found, cursor) =>
    (declarations setting cursor.kind outline.pending found, ⟨cursor.rest, [], outline.linkage⟩)
  | .error failure => recover setting outline failure

/-- Whether a linkage block such as `extern "C"` begins with three tokens. -/
def beginsLinkage : Token → Token → Token → Bool
  | .storage word, .string _, .openBrace => word == "extern"
  | _, _, _ => false

/-- Whether a macro call begins with three tokens. A star behind the parenthesis makes it a
declarator. -/
def beginsMacro : Token → Token → Token → Bool
  | .identifier _, .openParen, third => third != .star
  | _, _, _ => false

/-- What can begin at file scope. -/
inductive Front where
  | inclusion (header : Inclusion)
  | note
  | semicolon
  | closeBrace
  | linkage
  | marker
  | macroCall
  | declaration
deriving DecidableEq

/-- What begins with three tokens. All that is nothing else is a declaration. -/
def Front.ofTokens (rules : NoteRules) (first second third : Token) : Front :=
  match first with
  | .inclusion header => .inclusion header
  | .atSign => .note
  | .semicolon => .semicolon
  | .closeBrace => .closeBrace
  | _ =>
    if beginsLinkage first second third then .linkage
    else if Reader.beginsMarker rules first second then .marker
    else if beginsMacro first second third then .macroCall
    else .declaration

/-- What begins at the front of a row of lexemes. -/
def Front.of (rules : NoteRules) (row : List Lexeme) : Front :=
  ofTokens rules (Reader.headToken row) (Reader.headToken row.tail)
    (Reader.headToken row.tail.tail)

/-- One step of reading at the position of the lexeme in front, whose trivia are taken in already.
-/
def stepAt (setting : Setting) (outline : Outline) (position : Position) :
    List Finding × Outline :=
  match Front.of setting.rules outline.rest with
  | .inclusion header =>
    (PendingNote.dangling setting outline.pending ++ [.inclusion header position],
      ⟨outline.rest.tail, [], outline.linkage⟩)
  | .note => stepNote setting outline position
  | .semicolon => ([], ⟨outline.rest.tail, outline.pending, outline.linkage⟩)
  | .closeBrace =>
    if 0 < outline.linkage then
      ([], ⟨outline.rest.tail, outline.pending, outline.linkage - 1⟩)
    else
      ([.diagnostic ⟨setting.place position, some .variable, .strayBrace⟩],
        ⟨outline.rest.tail, outline.pending, outline.linkage⟩)
  | .linkage => ([], ⟨outline.rest.drop 3, outline.pending, outline.linkage + 1⟩)
  | .marker => stepMarker setting outline position
  | .macroCall => stepMacro setting outline
  | .declaration => stepDeclaration setting outline

/-- One step of reading, and where reading stands behind it. -/
def step (setting : Setting) (outline : Outline) : List Finding × Outline :=
  match outline.rest with
  | [] => ([], outline)
  | lexeme :: _ =>
    let pending := PendingNote.absorb setting.rules outline.pending lexeme.trivia
    stepAt setting { outline with pending := pending } lexeme.position

/-- What is found in at most the given number of steps of reading, and where reading stands behind
them. -/
def walk (setting : Setting) : (steps : Nat) → Outline → List Finding × Outline
  | 0, outline => ([], outline)
  | steps + 1, outline =>
    if outline.rest.isEmpty then ([], outline)
    else
      let (found, next) := step setting outline
      let (more, last) := walk setting steps next
      (found ++ more, last)

/-- What is found in all lexemes that are left, and where reading stands behind them. -/
def scan (setting : Setting) (outline : Outline) : List Finding × Outline :=
  walk setting outline.rest.length outline

/-- Nothing read yet of some lexemes. -/
def start (lexemes : List Lexeme) : Outline := ⟨lexemes, [], 0⟩

/-- What is found in lexed text. At its end, the notes that still wait belong to nothing. -/
def ofLexed (rules : NoteRules) (file : Path) (origin : Origin) (lexed : Lexed) :
    List Finding :=
  let setting : Setting := ⟨rules, file, origin, lexed.finish⟩
  let (found, last) := scan setting (start lexed.lexemes)
  found ++ PendingNote.dangling setting (PendingNote.absorb rules last.pending lexed.closing)

/-- What is found in a text. A text that leaves a construct open is reported and not read. -/
def ofText (rules : NoteRules) (file : Path) (origin : Origin) (text : String) :
    List Finding :=
  match Lexed.ofText text with
  | .ok lexed => ofLexed rules file origin lexed
  | .error fault => [.diagnostic ⟨⟨file, fault.position⟩, none, .unclosed fault.cause⟩]

end Outline

end RemoteCalls
