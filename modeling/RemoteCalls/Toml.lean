/-!
# TOML documents

The values and tables of a TOML document, as far as settings use them: texts, whole numbers, truth
values, arrays and tables. A document is built from its lines, each of which opens a table or gives
a key its value; a key or a table that is there already in another way is refused.
-/

namespace RemoteCalls.Toml

/-- A value behind an equals sign. -/
inductive Value where
  | text (text : String)
  | number (number : Int)
  | flag (flag : Bool)
  | array (items : List Value)
  | table (entries : List (String × Value))
deriving Repr, Inhabited

/-- How a table came to be: by a header of its own, by the header of a table inside of it, or by
dots in a key. -/
inductive Opening where
  | header
  | implied
  | dotted
deriving DecidableEq, Repr

/-- What a key stands for. -/
inductive Node where
  | value (value : Value)
  | table (opening : Opening) (entries : List (String × Node))
deriving Repr, Inhabited

/-- The keys of a table in order. -/
abbrev Entries := List (String × Node)

namespace Entries

/-- The node of a key changed by `change`, which gets `none` for a key that is not there yet. -/
def alter (key : String) (change : Option Node → Option Node) : Entries → Option Entries
  | [] => (change none).map fun node => [(key, node)]
  | (other, node) :: rest =>
    if other = key then (change (some node)).map fun node => (other, node) :: rest
    else (alter key change rest).map ((other, node) :: ·)

/-- The entries with a table opened by a header. A table that a header inside of it has implied can
be opened once. -/
def openTable : (path : List String) → Entries → Option Entries
  | [], _ => none
  | [key], entries =>
    alter key (fun
      | none => some (.table .header [])
      | some (.table .implied inner) => some (.table .header inner)
      | some _ => none) entries
  | key :: path, entries =>
    alter key (fun
      | none => (openTable path []).map (.table .implied)
      | some (.table opening inner) => (openTable path inner).map (.table opening)
      | some (.value _) => none) entries

/-- The entries with a value for a key with dots in it. The tables on the way are those that dots
have made; a table with a header is not reached this way. `opening` is that of the table that holds
the entries. -/
def assign (opening : Opening) (value : Value) : (path : List String) → Entries → Option Entries
  | [], _ => none
  | [key], entries =>
    if opening = .implied then none
    else
      alter key (fun
        | none => some (.value value)
        | some _ => none) entries
  | key :: path, entries =>
    alter key (fun
      | none => (assign .dotted value path []).map (.table .dotted)
      | some (.table .header _) => none
      | some (.table inner entries) => (assign inner value path entries).map (.table inner)
      | some (.value _) => none) entries

/-- The entries with a value for a key in the table with the given header. -/
def assignIn (value : Value) (path : List String) : (header : List String) → Entries →
    Option Entries
  | [], entries => assign .header value path entries
  | key :: header, entries =>
    alter key (fun
      | some (.table opening inner) =>
        (assignIn value path header inner).map (.table opening)
      | _ => none) entries

end Entries

/-- One line of a document. -/
inductive Line where
  | blank
  | header (path : List String)
  | entry (path : List String) (value : Value)
deriving Repr

/-- The entries of a document, given its lines and the header that the first of them stands
under. -/
def Entries.ofLines (header : List String) (entries : Entries) : List Line → Option Entries
  | [] => some entries
  | .blank :: rest => ofLines header entries rest
  | .header path :: rest =>
    match entries.openTable path with
    | some entries => ofLines path entries rest
    | none => none
  | .entry path value :: rest =>
    match entries.assignIn value path header with
    | some entries => ofLines header entries rest
    | none => none

end RemoteCalls.Toml
