import RemoteCalls.Inspector.Theme
import RemoteCalls.Text.Alphanumeric

/-!
# Highlighting code

A line of code is cut into fragments of one role each: comments, texts in quotes, words, and single
characters. The fragments of a line are the line again.
-/

namespace RemoteCalls.Inspector

/-- What a fragment of a line is. -/
inductive Role where
  | comment
  | string
  | bracket
  | mark
  | type
  | keyword
  | number
  | call
  | word
deriving DecidableEq, Repr

/-- A part of a line in one role. -/
structure Fragment where
  text : List Char
  role : Role
deriving DecidableEq, Repr

namespace Fragment

/-- The words that are shown as types. -/
def typeWords : List String :=
  ["int", "char", "void", "bool", "float", "double", "long", "short", "unsigned", "signed",
    "size_t", "uint8_t", "uint16_t", "uint32_t", "int32_t"]

/-- The words that are shown as keywords. -/
def keywords : List String :=
  ["struct", "union", "enum", "typedef", "return", "if", "else", "sizeof", "static", "extern",
    "const"]

/-- The role of a word; `called` says that a parenthesis stands behind it. -/
def wordRole (word : List Char) (called : Bool) : Role :=
  let text := String.ofList word
  if typeWords.contains text then .type
  else if keywords.contains text then .keyword
  else if text = "NULL" ∨ word.all Char.isDigit then .number
  else if called then .call
  else .word

/-- The fragment of a word, if there is one. -/
def ofWord (word : List Char) (called : Bool) : List Fragment :=
  if word.isEmpty then [] else [⟨word, wordRole word called⟩]

/-- Whether a character belongs to a word. -/
def isWordChar (c : Char) : Bool :=
  Text.isAlphanumeric c || c == '_'

/-- The role of a character that stands for itself. -/
def markRole (c : Char) : Role :=
  if "\x7b\x7d()[]".toList.contains c then .bracket else .mark

/-- The characters of a comment up to its closing mark, or all if it has none. -/
def commentTail : List Char → List Char
  | [] => []
  | c :: cs => if c = '*' ∧ cs.head? = some '/' then ['*', '/'] else c :: commentTail cs

/-- The characters of a text in quotes up to the closing quote, or all if there is none. The
character behind a backslash, which `escaped` stands for, closes nothing. -/
def stringTail : (escaped : Bool) → List Char → List Char
  | _, [] => []
  | true, c :: cs => c :: stringTail false cs
  | false, c :: cs => if c = '"' then [c] else c :: stringTail (c == '\\') cs

/-- The comment that begins with `c` in front of `cs`, if one does: up to the end of the line, or up
to its closing mark. -/
def comment? (c : Char) (cs : List Char) : Option (List Char) :=
  if c = '/' then
    match cs.head? with
    | some '/' => some (c :: cs)
    | some '*' => some (c :: commentTail cs)
    | _ => none
  else none

/-- The fragments of a line. `word` is what was read of a word in front of it; the first `skip`
characters belong to a fragment that is there already. -/
def ofChars : (word : List Char) → (skip : Nat) → List Char → List Fragment
  | word, _, [] => ofWord word false
  | word, skip + 1, _ :: cs => ofChars word skip cs
  | word, 0, c :: cs =>
    match comment? c cs with
    | some text => ofWord word false ++ ⟨text, .comment⟩ :: ofChars [] (text.length - 1) cs
    | none =>
      if c = '"' then
        let text := c :: stringTail false cs
        ofWord word false ++ ⟨text, .string⟩ :: ofChars [] (text.length - 1) cs
      else if isWordChar c then ofChars (word ++ [c]) 0 cs
      else
        ofWord word (c == '(') ++ ⟨[c], markRole c⟩ :: ofChars [] 0 cs

/-- The fragments of a line. -/
def ofLine (line : String) : List Fragment :=
  ofChars [] 0 line.toList

/-- The look of a role. -/
def style : Role → Style
  | .comment => .fg Theme.comment
  | .string => .fg Theme.string
  | .bracket => .fg Theme.primary
  | .mark | .word => .fg Theme.text
  | .type => .fg Theme.type
  | .keyword => (Style.fg Theme.keyword).emphasized
  | .number => .fg Theme.number
  | .call => .fg Theme.function

/-- A fragment as it is shown. -/
def span (fragment : Fragment) : Span :=
  ⟨String.ofList fragment.text, style fragment.role⟩

end Fragment

/-- A line of code as it is shown. -/
def highlight (line : String) : List Span :=
  (Fragment.ofLine line).map Fragment.span

end RemoteCalls.Inspector
