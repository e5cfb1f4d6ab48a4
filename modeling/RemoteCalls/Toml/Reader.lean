import RemoteCalls.Toml

/-!
# Reading TOML documents

The notation of TOML 1.0 for the values that settings use. Numbers with a fraction, dates and arrays
of tables are read by none of the rules here, so a document that holds one is refused like any other
that makes no sense.
-/

namespace RemoteCalls.Toml

/-- A rule takes characters from the front of a text, or does not apply. -/
abbrev Rule := StateT (List Char) Option

namespace Rule

/-- The characters left. -/
def rest : Rule (List Char) := get

/-- Takes the given characters. -/
def exactly (expected : List Char) : Rule Unit := do
  if expected.isPrefixOf (← get) then
    modify (·.drop expected.length)
  else
    failure

/-- Takes characters as long as they belong to a class. -/
def run (belongs : Char → Bool) : Rule (List Char) := do
  let taken := (← get).takeWhile belongs
  modify (·.drop taken.length)
  return taken

/-- Spaces and tabs. -/
def isBlank (c : Char) : Bool := c == ' ' || c == '\t'

/-- The characters that can stand on a line: all but the control characters, with the tab. -/
def isPrintable (c : Char) : Bool := c == '\t' || (' ' ≤ c && c != '\x7f')

/-- The characters of a key without quotes. -/
def isKeyChar (c : Char) : Bool := c.isAlphanum || c == '_' || c == '-'

/-- Takes spaces and tabs. -/
def blanks : Rule Unit := discard (run isBlank)

/-- Takes a line break if there is one. -/
def lineBreak : Rule Bool := do
  match ← get with
  | '\n' :: rest => do set rest; return true
  | '\r' :: '\n' :: rest => do set rest; return true
  | _ => return false

/-- Takes what may stand at the end of a line, and the line break unless the text ends. -/
def lineEnd : Rule Unit := do
  blanks
  if (← get).head? = some '#' then
    discard (run isPrintable)
  unless ← lineBreak do
    unless (← get).isEmpty do
      failure

/-- The text behind blanks, line breaks and comments. `comment` says that a comment goes on. -/
def afterGap : (comment : Bool) → List Char → List Char
  | _, [] => []
  | comment, c :: cs =>
    if comment && isPrintable c then afterGap true cs
    else if c = '\n' ∨ isBlank c = true then afterGap false cs
    else if c = '\r' ∧ cs.head? = some '\n' then afterGap false cs
    else if c = '#' then afterGap true cs
    else c :: cs

/-- Takes blanks, line breaks and comments. -/
def gap : Rule Unit := modify (afterGap false)

/-- The value of a digit in a base up to sixteen. -/
def digit? (base : Nat) (c : Char) : Option Nat :=
  let value :=
    if c.isDigit then some (c.toNat - '0'.toNat)
    else if 'a' ≤ c ∧ c ≤ 'f' then some (c.toNat - 'a'.toNat + 10)
    else if 'A' ≤ c ∧ c ≤ 'F' then some (c.toNat - 'A'.toNat + 10)
    else none
  value.filter (· < base)

/-- The number that digits stand for. Between two digits there may be one underscore; `last` is the
number before, `none` where a digit has to come. -/
def digits (base : Nat) : (last : Nat) → (fresh : Bool) → List Char → Option Nat
  | last, fresh, [] => if fresh then none else some last
  | last, fresh, c :: cs =>
    if c = '_' then (if fresh then none else digits base last true cs)
    else
      match digit? base c with
      | some value => digits base (last * base + value) false cs
      | none => none

/-- The character with the number that `count` hexadecimal digits stand for. -/
def codePoint (count : Nat) : Rule Char := do
  let taken := (← get).take count
  modify (·.drop count)
  if taken.length = count ∧ taken.all fun c => (digit? 16 c).isSome then
    match digits 16 0 true taken with
    | some value => if value.isValidChar then return Char.ofNat value else failure
    | none => failure
  else
    failure

/-- Takes what stands behind a backslash. -/
def escape : Rule Char := do
  match ← get with
  | [] => failure
  | c :: rest =>
    set rest
    match c with
    | 'b' => return '\x08'
    | 't' => return '\t'
    | 'n' => return '\n'
    | 'f' => return '\x0c'
    | 'r' => return '\r'
    | '"' => return '"'
    | '\\' => return '\\'
    | 'u' => codePoint 4
    | 'U' => codePoint 8
    | _ => failure

/-- Takes the rest of a text up to its closing quote. Backslashes have a meaning if `escapes`. -/
def lineText (quote : Char) (escapes : Bool) : (steps : Nat) → Rule (List Char)
  | 0 => failure
  | steps + 1 => do
    match ← get with
    | [] => failure
    | c :: rest =>
      set rest
      if c = quote then
        return []
      else if c = '\\' ∧ escapes = true then
        let c ← escape
        return c :: (← lineText quote escapes steps)
      else if isPrintable c then
        return c :: (← lineText quote escapes steps)
      else
        failure

/-- Takes the rest of a text of several lines up to its three closing quotes, in front of which two
more may stand. A backslash at the end of a line takes the blanks and line breaks behind it. -/
def blockText (quote : Char) (escapes : Bool) : (steps : Nat) → Rule (List Char)
  | 0 => failure
  | steps + 1 => do
    let quotes ← run (· == quote)
    if 3 ≤ quotes.length then
      if quotes.length ≤ 5 then return quotes.drop 3 else failure
    else if ← lineBreak then
      return quotes ++ '\n' :: (← blockText quote escapes steps)
    else
      match ← get with
      | [] => failure
      | c :: rest =>
        set rest
        if c = '\\' ∧ escapes = true then
          let behind := rest.dropWhile isBlank
          if behind.head? = some '\n' ∨ behind.take 2 = ['\r', '\n'] then
            set (afterLines behind)
            return quotes ++ (← blockText quote escapes steps)
          else
            let c ← escape
            return quotes ++ c :: (← blockText quote escapes steps)
        else if isPrintable c then
          return quotes ++ c :: (← blockText quote escapes steps)
        else
          failure
where
  /-- The text behind blanks and line breaks. -/
  afterLines : List Char → List Char
    | [] => []
    | c :: cs =>
      if c = '\n' ∨ isBlank c = true ∨ (c = '\r' ∧ cs.head? = some '\n') then afterLines cs
      else c :: cs

/-- Takes a text in quotes on one line. -/
def quotedText : Rule String := do
  let steps := (← get).length
  match ← get with
  | '"' :: rest => do set rest; return String.ofList (← lineText '"' true steps)
  | '\'' :: rest => do set rest; return String.ofList (← lineText '\'' false steps)
  | _ => failure

/-- Takes a text in quotes, on one line or on several. A line break right behind the opening quotes
does not count. -/
def text : Rule String := do
  let steps := (← get).length
  match ← get with
  | '"' :: '"' :: '"' :: rest => do
    set rest
    discard lineBreak
    return String.ofList (← blockText '"' true steps)
  | '\'' :: '\'' :: '\'' :: rest => do
    set rest
    discard lineBreak
    return String.ofList (← blockText '\'' false steps)
  | _ => quotedText

/-- Takes one part of a key. -/
def simpleKey : Rule String := do
  match ← get with
  | '"' :: _ | '\'' :: _ => quotedText
  | _ =>
    let taken ← run isKeyChar
    if taken.isEmpty then failure
    return String.ofList taken

/-- Takes a key with its dots. -/
def key : (steps : Nat) → Rule (List String)
  | 0 => failure
  | steps + 1 => do
    let first ← simpleKey
    blanks
    if (← get).head? = some '.' then
      modify List.tail
      blanks
      return first :: (← key steps)
    else
      return [first]

/-- The decimal number that a text stands for. It does not begin with a zero unless it is one. -/
def decimal? (cs : List Char) : Option Nat :=
  if cs.head? = some '0' ∧ cs.length ≠ 1 then none else digits 10 0 true cs

/-- The whole number that a text stands for, if it fits in 64 bits. -/
def number? (cs : List Char) : Option Int :=
  let value : Option Int := match cs with
    | '0' :: 'x' :: rest => (digits 16 0 true rest).map Int.ofNat
    | '0' :: 'o' :: rest => (digits 8 0 true rest).map Int.ofNat
    | '0' :: 'b' :: rest => (digits 2 0 true rest).map Int.ofNat
    | '+' :: rest => (decimal? rest).map Int.ofNat
    | '-' :: rest => (decimal? rest).map fun n => -Int.ofNat n
    | _ => (decimal? cs).map Int.ofNat
  value.filter fun n => -0x8000000000000000 ≤ n ∧ n < 0x8000000000000000

mutual

/-- Takes a value. -/
def value : (steps : Nat) → Rule Value
  | 0 => failure
  | steps + 1 => do
    match ← get with
    | '"' :: _ | '\'' :: _ => return .text (← text)
    | '[' :: rest => do
      set rest
      return .array (← items steps)
    | '{' :: rest => do
      set rest
      blanks
      if (← get).head? = some '}' then
        modify List.tail
        return .table []
      else
        return .table (← entries steps)
    | _ =>
      let taken ← run fun c => isKeyChar c || c == '+'
      if taken = ['t', 'r', 'u', 'e'] then return .flag true
      else if taken = ['f', 'a', 'l', 's', 'e'] then return .flag false
      else
        match number? taken with
        | some n => return .number n
        | none => failure

/-- Takes the values of an array and the bracket behind them. -/
def items : (steps : Nat) → Rule (List Value)
  | 0 => failure
  | steps + 1 => do
    gap
    if (← get).head? = some ']' then
      modify List.tail
      return []
    else
      let item ← value steps
      gap
      match ← get with
      | ',' :: rest => do
        set rest
        return item :: (← items steps)
      | ']' :: rest => do
        set rest
        return [item]
      | _ => failure

/-- Takes the entries of a table in braces and the brace behind them. Each has a key of its own,
without dots, since no setting is a table of tables. -/
def entries : (steps : Nat) → Rule (List (String × Value))
  | 0 => failure
  | steps + 1 => do
    blanks
    let name ← simpleKey
    blanks
    exactly ['=']
    blanks
    let item ← value steps
    blanks
    match ← get with
    | ',' :: rest => do
      set rest
      let others ← entries steps
      if others.any (·.1 = name) then failure
      return (name, item) :: others
    | '}' :: rest => do
      set rest
      return [(name, item)]
    | _ => failure

end

/-- Takes one line. -/
def line : Rule Line := do
  let steps := (← get).length + 1
  blanks
  match ← get with
  | [] => return .blank
  | '[' :: rest => do
    set rest
    blanks
    let path ← key steps
    blanks
    exactly [']']
    lineEnd
    return .header path
  | '#' :: _ | '\n' :: _ | '\r' :: _ => do
    lineEnd
    return .blank
  | _ =>
    let path ← key steps
    blanks
    exactly ['=']
    blanks
    let value ← value steps
    lineEnd
    return .entry path value

/-- Takes all lines. -/
def lines : (steps : Nat) → Rule (List Line)
  | 0 => failure
  | steps + 1 => do
    if (← get).isEmpty then
      return []
    else
      let first ← line
      return first :: (← lines steps)

end Rule

/-- The entries of a document. A byte order mark in front of it does not count. -/
def read? (document : String) : Option Entries :=
  let cs := match document.toList with
    | '\uFEFF' :: rest => rest
    | cs => cs
  match Rule.lines (cs.length + 1) cs with
  | some (lines, _) => Entries.ofLines [] [] lines
  | none => none

end RemoteCalls.Toml
