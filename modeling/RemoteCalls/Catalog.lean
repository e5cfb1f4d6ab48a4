import RemoteCalls.Diagnostic

/-!
# The catalog of declarations

A catalog holds one record for each name of each kind, in the order in which the names were first
seen. A later sighting of a name is merged into its record, which an index of the names finds, and
moves nothing. The catalog also keeps the reports made on the way and the files that were given as
input.
-/

namespace RemoteCalls

/-- Records in the order in which their names were first seen, and the position of each name. -/
structure Table (α : Type) where
  records : List α
  index : List (String × Nat)
deriving Repr, Inhabited

namespace Table

variable {α : Type}

/-- No records. -/
def empty : Table α := ⟨[], []⟩

/-- The record with the given name. -/
def named? (table : Table α) (name : String) : Option α :=
  (table.index.lookup name).bind fun position => table.records[position]?

variable [Record α]

/-- The table with one more record at the end. -/
def push (table : Table α) (record : α) : Table α :=
  ⟨table.records ++ [record], (Record.name record, table.records.length) :: table.index⟩

/-- Merges a sighting into the record of its name, or puts it behind the others if there is none.
Beside the table stands the place of a definition that the sighting contradicts. -/
def sight (table : Table α) (newer : α) : Table α × Option Place :=
  match table.index.lookup (Record.name newer) with
  | none => (table.push newer, none)
  | some position =>
    match table.records[position]? with
    | none => (table, none)
    | some record =>
      let merged := Record.merge record newer
      ({ table with records := table.records.set position merged.record }, merged.conflict)

end Table

/-- What was gathered from all files so far. -/
structure Catalog where
  functionTable : Table Function
  structureTable : Table Structure
  typedefTable : Table Typedef
  globalTable : Table Variable
  placeholders : List Placeholder
  errors : List Diagnostic
  inputs : List Path
deriving Repr, Inhabited

namespace Catalog

/-- Nothing gathered yet. -/
def empty : Catalog := ⟨.empty, .empty, .empty, .empty, [], [], []⟩

/-- The functions in first-seen order. -/
def functions (catalog : Catalog) : List Function := catalog.functionTable.records

/-- The structures in first-seen order. -/
def structures (catalog : Catalog) : List Structure := catalog.structureTable.records

/-- The typedefs in first-seen order. -/
def typedefs (catalog : Catalog) : List Typedef := catalog.typedefTable.records

/-- The variables in first-seen order. -/
def globals (catalog : Catalog) : List Variable := catalog.globalTable.records

/-- The report on a definition that contradicts an earlier one. -/
def redefinition (kind : DeclKind) (name : String) (place first : Place) : Diagnostic :=
  ⟨place, some kind, .redefinition name first⟩

/-- The catalog with one more sighting, and a report if the sighting contradicts an earlier
definition. A placeholder is known by its note and its place. -/
def add (catalog : Catalog) : Declaration → Catalog × Option Diagnostic
  | .function f =>
    let (table, conflict) := catalog.functionTable.sight f
    ({ catalog with functionTable := table },
      conflict.map (redefinition .function f.name f.place))
  | .struct s =>
    let (table, conflict) := catalog.structureTable.sight s
    ({ catalog with structureTable := table },
      conflict.map (redefinition .struct s.name s.place))
  | .typedef t =>
    let (table, conflict) := catalog.typedefTable.sight t
    ({ catalog with typedefTable := table },
      conflict.map (redefinition .typedef t.name t.place))
  | .variable v =>
    let (table, conflict) := catalog.globalTable.sight v
    ({ catalog with globalTable := table },
      conflict.map (redefinition .variable v.name v.place))
  | .placeholder p =>
    if catalog.placeholders.any fun known => known.same p then (catalog, none)
    else ({ catalog with placeholders := catalog.placeholders ++ [p] }, none)

/-- The catalog with one more report. -/
def report (catalog : Catalog) (diagnostic : Diagnostic) : Catalog :=
  { catalog with errors := catalog.errors ++ [diagnostic] }

/-- The catalog with one more input file, unless it is known. -/
def addInput (catalog : Catalog) (file : Path) : Catalog :=
  if catalog.inputs.any fun known => known.same file then catalog
  else { catalog with inputs := catalog.inputs ++ [file] }

/-- The function with the given name. -/
def functionNamed? (catalog : Catalog) (name : String) : Option Function :=
  catalog.functionTable.named? name

/-- The structure with the given name. -/
def structureNamed? (catalog : Catalog) (name : String) : Option Structure :=
  catalog.structureTable.named? name

/-- The typedef with the given name. -/
def typedefNamed? (catalog : Catalog) (name : String) : Option Typedef :=
  catalog.typedefTable.named? name

/-- The variable with the given name. -/
def variableNamed? (catalog : Catalog) (name : String) : Option Variable :=
  catalog.globalTable.named? name

/-- The functions that pass every filter that is set. -/
def selectFunctions (catalog : Catalog) (inputOnly definedOnly annotatedOnly : Bool) :
    List Function :=
  catalog.functions.filter fun f =>
    (!inputOnly || f.origin == .input) && (!definedOnly || f.isDefined) &&
      (!annotatedOnly || !f.notes.isEmpty)

/-- The structures, of input files alone if asked for. -/
def selectStructures (catalog : Catalog) (inputOnly : Bool) : List Structure :=
  catalog.structures.filter fun s => !inputOnly || s.origin == .input

/-- The variables, of input files alone if asked for. -/
def selectVariables (catalog : Catalog) (inputOnly : Bool) : List Variable :=
  catalog.globals.filter fun v => !inputOnly || v.origin == .input

/-- The placeholders, of input files alone if asked for. -/
def selectPlaceholders (catalog : Catalog) (inputOnly : Bool) : List Placeholder :=
  catalog.placeholders.filter fun p => !inputOnly || p.origin == .input

/-- All notes, those of functions first, then of structures, typedefs, variables and
placeholders. -/
def notes (catalog : Catalog) : List Note :=
  catalog.functions.flatMap (·.notes) ++ catalog.structures.flatMap (·.notes) ++
    catalog.typedefs.flatMap (·.notes) ++ catalog.globals.flatMap (·.notes) ++
    catalog.placeholders.map (·.note)

/-- A name put behind others, unless it is among them. -/
def insertName (names : List String) (name : String) : List String :=
  if names.contains name then names else names ++ [name]

/-- The names of all notes, each once, in first-seen order. -/
def noteNames (catalog : Catalog) : List String :=
  (catalog.notes.map (·.name)).foldl insertName []

end Catalog

end RemoteCalls
