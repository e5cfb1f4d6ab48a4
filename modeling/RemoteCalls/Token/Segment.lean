import RemoteCalls.Text.Blank
import RemoteCalls.Token

/-!
# Cutting source text into segments

A source text is a row of segments: tokens, comments, line breaks, blanks, joined lines and
directives. Each segment holds its own characters, so that nothing of the text is lost. The text
is cut at its first segment, and then again behind that segment.
-/

namespace RemoteCalls

/-- What a text can leave open at its end. -/
inductive Unclosed where
  | string
  | character
  | comment
deriving DecidableEq, Repr

/-- The message for a construct that is left open. -/
def Unclosed.message : Unclosed → String
  | .string => "Unterminated string literal"
  | .character => "Unterminated character literal"
  | .comment => "Unterminated block comment"

/-- What one stretch of source text is. -/
inductive Content where
  | token (token : Token)
  | comment (body : String)
  | newline
  | blank
  | joinedLine
  | directive (included : Option Inclusion)
deriving DecidableEq, Repr

/-- A stretch of source text and what it is. -/
structure Segment where
  source : List Char
  content : Content
deriving DecidableEq, Repr

namespace Segment

/-- Whether a character can stand inside a word. -/
def isWordChar (c : Char) : Bool :=
  c.isAlphanum || c == '_'

/-- Whether a character can begin a word. -/
def isWordStart (c : Char) : Bool :=
  c.isAlpha || c == '_'

/-- The blanks of a source line. A vertical tab is no blank here. -/
def isSpace (c : Char) : Bool :=
  c == ' ' || c == '\t' || c == '\r' || c == '\x0c'

/-- Whether `c` goes on with a number whose last character is `last`: letters, digits, underscores
and points do, and a sign does behind the letter of an exponent. -/
def continuesNumber (last c : Char) : Bool :=
  isWordChar c || c == '.' ||
    ((c == '+' || c == '-') && (last == 'e' || last == 'E' || last == 'p' || last == 'P'))

/-- The characters at the front that go on with a number whose last character is `last`. -/
def numberTail (last : Char) : List Char → List Char
  | [] => []
  | c :: cs => if continuesNumber last c then c :: numberTail c cs else []

/-- The rest of a literal up to its closing quote, if it is closed on its line. The character
behind a backslash, even a line break, is taken as it is. -/
def quotedTail (quote : Char) : (escaped : Bool) → List Char → Option (List Char)
  | _, [] => none
  | true, c :: cs => (quotedTail quote false cs).map (c :: ·)
  | false, c :: cs =>
    if c = '\n' then none
    else if c = quote then some [c]
    else (quotedTail quote (c == '\\') cs).map (c :: ·)

/-- The text of a block comment up to its closing mark, if it is closed. -/
def commentBody : List Char → Option (List Char)
  | [] => none
  | c :: cs =>
    if c = '*' ∧ cs.head? = some '/' then some []
    else (commentBody cs).map (c :: ·)

/-- The operators of two and three characters, the longer ones first. -/
def operators : List String :=
  ["...", "<<=", ">>=", "->", "++", "--", "<<", ">>", "<=", ">=", "==", "!=", "&&", "||", "+=",
    "-=", "*=", "/=", "%=", "&=", "|=", "^="]

/-- The longest operator at the front of `c :: cs`, which is `c` alone if no longer one matches. -/
def operatorText (c : Char) (cs : List Char) : List Char :=
  ((operators.map String.toList).find? (·.isPrefixOf (c :: cs))).getD [c]

/-- A directive as one line: its text with joined lines put together, and how many characters of
the source it takes. -/
structure DirectiveLine where
  text : List Char
  length : Nat
deriving DecidableEq, Repr

/-- The directive at the front of a text. It ends before the line break, or at a line comment,
which counts as part of it. A line break behind a backslash reads as a space; `joining` says that
such a line break is next. -/
def directiveLine : (joining : Bool) → List Char → DirectiveLine
  | _, [] => ⟨[], 0⟩
  | true, _ :: cs =>
    let rest := directiveLine false cs
    ⟨rest.text, rest.length + 1⟩
  | false, c :: cs =>
    if c = '\n' then ⟨[], 0⟩
    else if c = '/' ∧ cs.head? = some '/' then ⟨[], 1 + (cs.takeWhile (· ≠ '\n')).length⟩
    else
      let joins := c == '\\' && cs.head? == some '\n'
      let rest := directiveLine joins cs
      ⟨(if joins then ' ' else c) :: rest.text, rest.length + 1⟩

/-- The name of a directive and what stands behind the name. -/
def directiveParts (text : List Char) : List Char × List Char :=
  (Text.trimLeft (text.dropWhile (· == '#'))).span isWordChar

/-- The name of a directive. -/
def directiveName (text : List Char) : String :=
  String.ofList (directiveParts text).1

/-- The header named behind the word `include`. A name that is not closed, or that has neither
quotes nor angle brackets, gives none. -/
def inclusion? (rest : List Char) : Option Inclusion :=
  match Text.trim rest with
  | '"' :: inner =>
    if inner.contains '"' then some ⟨String.ofList (inner.takeWhile (· ≠ '"')), false⟩ else none
  | '<' :: inner =>
    if inner.contains '>' then some ⟨String.ofList (inner.takeWhile (· ≠ '>')), true⟩ else none
  | _ => none

/-- How deep the conditionals of a disabled region are nested behind a directive, or `none` where
the directive ends the region. -/
def depthBehind (name : String) (depth : Nat) : Option Nat :=
  if name = "if" ∨ name = "ifdef" ∨ name = "ifndef" then some (depth + 1)
  else if name = "endif" then (if depth = 0 then none else some (depth - 1))
  else if name = "else" ∨ name = "elif" then (if depth = 0 then none else some depth)
  else some depth

/-- The number of characters of a disabled region: whole lines up to and with the directive that
ends it. `indent` says that only spaces and tabs stand before the text on its line, `skip` how
many characters still belong to a directive that is read already. -/
def disabledLength : (indent : Bool) → (skip depth : Nat) → List Char → Nat
  | _, _, _, [] => 0
  | indent, skip + 1, depth, _ :: cs => 1 + disabledLength indent skip depth cs
  | indent, 0, depth, c :: cs =>
    if c = '\n' then 1 + disabledLength true 0 depth cs
    else if indent && (c == ' ' || c == '\t') then 1 + disabledLength true 0 depth cs
    else if indent && c == '#' then
      let line := directiveLine false (c :: cs)
      match depthBehind (directiveName line.text) depth with
      | none => line.length
      | some inner => 1 + disabledLength false (line.length - 1) inner cs
    else 1 + disabledLength false 0 depth cs

/-- Whether a directive opens a disabled region, which is a conditional on the number zero. -/
def disables (text : List Char) : Bool :=
  let parts := directiveParts text
  String.ofList parts.1 == "if" && Text.trim parts.2 == ['0']

/-- The directive at the front of a text, together with the region it disables. -/
def directive (cs : List Char) : Segment :=
  let line := directiveLine false cs
  let parts := directiveParts line.text
  if disables line.text then
    ⟨cs.take (line.length + disabledLength false 0 0 (cs.drop line.length)), .directive none⟩
  else
    ⟨cs.take line.length,
      .directive (if String.ofList parts.1 = "include" then inclusion? parts.2 else none)⟩

/-- A literal that `quote` opens. -/
def quoted (quote : Char) (kind : String → Token) (unclosed : Unclosed) (cs : List Char) :
    Except Unclosed Segment :=
  match quotedTail quote false cs with
  | some tail => .ok ⟨quote :: tail, .token (kind (String.ofList (quote :: tail)))⟩
  | none => .error unclosed

/-- The token at the front of `c :: cs`. -/
def firstToken (c : Char) (cs : List Char) : Except Unclosed Segment :=
  if c = '"' then quoted '"' .string .string cs
  else if c = '\'' then quoted '\'' .character .character cs
  else if c.isDigit || (c == '.' && (cs.head?.any Char.isDigit)) then
    let source := c :: numberTail c cs
    .ok ⟨source, .token (.number (String.ofList source))⟩
  else if isWordStart c then
    let source := c :: cs.takeWhile isWordChar
    .ok ⟨source, .token (.ofWord (String.ofList source))⟩
  else match Token.ofMark? c with
    | some mark => .ok ⟨[c], .token mark⟩
    | none =>
      let source := operatorText c cs
      .ok ⟨source, .token (.ofOperator (String.ofList source))⟩

/-- The segment at the front of `c :: cs`. -/
def first (c : Char) (cs : List Char) : Except Unclosed Segment :=
  if c = '\n' then .ok ⟨[c], .newline⟩
  else if isSpace c then .ok ⟨[c], .blank⟩
  else if c = '\\' ∧ cs.head? = some '\n' then .ok ⟨[c, '\n'], .joinedLine⟩
  else if c = '/' ∧ cs.head? = some '/' then
    let source := c :: cs.takeWhile (· ≠ '\n')
    .ok ⟨source, .comment (String.ofList (source.drop 2))⟩
  else if c = '/' ∧ cs.head? = some '*' then
    match commentBody cs.tail with
    | some body => .ok ⟨'/' :: '*' :: body ++ ['*', '/'], .comment (String.ofList body)⟩
    | none => .error .comment
  else if c = '#' then .ok (directive (c :: cs))
  else firstToken c cs

/-- The segments of a text, and what the text leaves open behind them. The first `skip` characters
belong to the segment before. -/
def cut : (skip : Nat) → List Char → List Segment × Option Unclosed
  | _, [] => ([], none)
  | skip + 1, _ :: cs => cut skip cs
  | 0, c :: cs =>
    match first c cs with
    | .error unclosed => ([], some unclosed)
    | .ok segment =>
      let rest := cut (segment.source.length - 1) cs
      (segment :: rest.1, rest.2)

end Segment

end RemoteCalls
