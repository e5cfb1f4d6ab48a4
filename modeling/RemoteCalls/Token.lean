/-!
# Tokens of a declaration source

The words, literals and marks of C source text, with their spelling and with the phrase that names
them in a message. An include directive counts as a token, since it can bring in declarations.
-/

namespace RemoteCalls

/-- The header that an include directive names: `system` for the form with angle brackets. -/
structure Inclusion where
  path : String
  system : Bool
deriving DecidableEq, Repr

/-- One token. Literals and words are kept as written. -/
inductive Token where
  | number (text : String)
  | character (text : String)
  | string (text : String)
  | identifier (name : String)
  | builtin (word : String)
  | qualifier (word : String)
  | storage (word : String)
  | struct
  | union
  | enum
  | typedef
  | openParen
  | closeParen
  | openBrace
  | closeBrace
  | openBracket
  | closeBracket
  | semicolon
  | comma
  | star
  | equals
  | colon
  | atSign
  | ellipsis
  | operator (text : String)
  | inclusion (header : Inclusion)
  | endOfFile
deriving DecidableEq, Repr, Inhabited

namespace Token

/-- The words that name a builtin type or a part of one. -/
def builtinWords : List String :=
  ["void", "char", "short", "int", "long", "float", "double", "signed", "unsigned", "_Bool"]

/-- The words that qualify a type. -/
def qualifierWords : List String :=
  ["const", "volatile", "restrict", "__restrict"]

/-- The words that say how a declared name is stored or linked. -/
def storageWords : List String :=
  ["static", "extern", "inline", "__inline", "register", "auto", "_Noreturn", "_Thread_local"]

/-- The token that a word stands for: a keyword, or an identifier if it is none. -/
def ofWord (word : String) : Token :=
  if builtinWords.contains word then .builtin word
  else if qualifierWords.contains word then .qualifier word
  else if storageWords.contains word then .storage word
  else if word = "struct" then .struct
  else if word = "union" then .union
  else if word = "enum" then .enum
  else if word = "typedef" then .typedef
  else .identifier word

/-- The token that an operator stands for; marks without a role in declarations stay operators. -/
def ofOperator (text : String) : Token :=
  if text = "..." then .ellipsis
  else if text = "*" then .star
  else if text = "=" then .equals
  else .operator text

/-- The token that a character stands for by itself, whatever follows it. -/
def ofMark? : Char → Option Token
  | '(' => some .openParen
  | ')' => some .closeParen
  | '{' => some .openBrace
  | '}' => some .closeBrace
  | '[' => some .openBracket
  | ']' => some .closeBracket
  | ';' => some .semicolon
  | ',' => some .comma
  | ':' => some .colon
  | '@' => some .atSign
  | _ => none

/-- The spelling of a token. -/
def text : Token → String
  | .number s | .character s | .string s | .identifier s => s
  | .builtin s | .qualifier s | .storage s | .operator s => s
  | .struct => "struct"
  | .union => "union"
  | .enum => "enum"
  | .typedef => "typedef"
  | .openParen => "("
  | .closeParen => ")"
  | .openBrace => "\x7b"
  | .closeBrace => "\x7d"
  | .openBracket => "["
  | .closeBracket => "]"
  | .semicolon => ";"
  | .comma => ","
  | .star => "*"
  | .equals => "="
  | .colon => ":"
  | .atSign => "@"
  | .ellipsis => "..."
  | .inclusion ⟨path, true⟩ => "#include <" ++ path ++ ">"
  | .inclusion ⟨path, false⟩ => "#include \"" ++ path ++ "\""
  | .endOfFile => ""

/-- The phrase that names a token in a message. -/
def describe : Token → String
  | .number s => "number " ++ s
  | .character s => "char literal " ++ s
  | .string s => "string literal " ++ s
  | .identifier s => "identifier '" ++ s ++ "'"
  | .inclusion _ => "include directive"
  | .endOfFile => "end of file"
  | other => "'" ++ other.text ++ "'"

/-- Whether a token opens a group: `(`, `[` or the opening brace. -/
def isOpener : Token → Bool
  | .openParen | .openBracket | .openBrace => true
  | _ => false

/-- Whether a token closes a group. -/
def isCloser : Token → Bool
  | .closeParen | .closeBracket | .closeBrace => true
  | _ => false

/-- A word is spelled as it was read. -/
@[simp] theorem text_ofWord (word : String) : (ofWord word).text = word := by
  unfold ofWord
  repeat' split
  all_goals simp_all [text]

/-- An operator is spelled as it was read. -/
@[simp] theorem text_ofOperator (s : String) : (ofOperator s).text = s := by
  unfold ofOperator
  repeat' split
  all_goals simp_all [text]

end Token

end RemoteCalls
