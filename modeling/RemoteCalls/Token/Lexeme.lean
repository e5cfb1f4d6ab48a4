import RemoteCalls.Position
import RemoteCalls.Token.Segment

/-!
# Lexemes

A lexeme is a token where it stands, with the comments and blank lines in front of it. A text is
read into its lexemes, and a row of lexemes is written back as text with one space wherever the
source had a gap.
-/

namespace RemoteCalls

/-- What stands between two tokens and may matter: a comment without its delimiters, or a line
that holds nothing. -/
inductive Trivia where
  | comment (body : String) (position : Position)
  | blankLine (position : Position)
deriving DecidableEq, Repr

/-- A token, where it begins, and what stands in front of it. -/
structure Lexeme where
  token : Token
  position : Position
  trivia : List Trivia
deriving DecidableEq, Repr

/-- A text read to its end: its lexemes, the position of the end, and what stands in front of the
end. -/
structure Lexed where
  lexemes : List Lexeme
  finish : Position
  closing : List Trivia
deriving DecidableEq, Repr

/-- A construct that is left open, and where it begins. -/
structure LexFault where
  cause : Unclosed
  position : Position
deriving DecidableEq, Repr

/-- The message for a text that cannot be read into lexemes. -/
def LexFault.message (fault : LexFault) : String :=
  "Lexer error at line " ++ toString fault.position.line ++ ", column " ++
    toString fault.position.column ++ ": " ++ fault.cause.message

namespace Lexed

/-- A lexed text with one more lexeme in front. -/
def cons (lexeme : Lexeme) (rest : Lexed) : Lexed :=
  { rest with lexemes := lexeme :: rest.lexemes }

/-- The lexemes of a row of segments that begins at `position`. The second line break since the
last token, comment or directive, counted by `newlines`, makes a blank line. -/
def ofSegments (position : Position) (newlines : Nat) (pending : List Trivia) :
    List Segment → Lexed
  | [] => ⟨[], position, pending⟩
  | segment :: rest =>
    let behind := position.after segment.source
    match segment.content with
    | .newline =>
      ofSegments behind (newlines + 1)
        (if newlines = 1 then pending ++ [.blankLine position] else pending) rest
    | .blank | .joinedLine => ofSegments behind newlines pending rest
    | .comment body => ofSegments behind 0 (pending ++ [.comment body position]) rest
    | .directive none => ofSegments behind 0 pending rest
    | .directive (some header) =>
      cons ⟨.inclusion header, position, pending⟩ (ofSegments behind 0 [] rest)
    | .token token => cons ⟨token, position, pending⟩ (ofSegments behind 0 [] rest)

/-- Reads characters into lexemes, or names the construct that is left open. -/
def ofChars (cs : List Char) : Except LexFault Lexed :=
  let (segments, unclosed) := Segment.cut 0 cs
  let lexed := ofSegments .start 0 [] segments
  match unclosed with
  | none => .ok lexed
  | some cause => .error ⟨cause, lexed.finish⟩

/-- Reads a text into lexemes, or names the construct that is left open. -/
def ofText (text : String) : Except LexFault Lexed :=
  ofChars text.toList

end Lexed

namespace Lexeme

/-- Whether `next` begins right where `lexeme` ends. -/
def touches (lexeme next : Lexeme) : Bool :=
  lexeme.position.line == next.position.line &&
    lexeme.position.column + lexeme.token.text.length == next.position.column

/-- The source text of a row of lexemes, with one space wherever the source had a gap. -/
def join : List Lexeme → String
  | [] => ""
  | [lexeme] => lexeme.token.text
  | lexeme :: next :: rest =>
    lexeme.token.text ++ (if lexeme.touches next then "" else " ") ++ join (next :: rest)

/-- The tokens of a row of lexemes. -/
def tokens (lexemes : List Lexeme) : List Token :=
  lexemes.map (·.token)

end Lexeme

end RemoteCalls
