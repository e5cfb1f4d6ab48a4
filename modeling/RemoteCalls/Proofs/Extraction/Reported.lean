import RemoteCalls.Proofs.Catalog.Names
import RemoteCalls.Proofs.Extraction.Headers
import RemoteCalls.Proofs.Extraction.Sessions
import RemoteCalls.Proofs.Extraction.Unclosed

/-!
# Reports and records

A report lists the names of what a run has found, kind by kind, before it is known whether the
catalog refuses it. A run that ends well leaves the records that it met in the order in which they
were first seen, and behind them those of the names that it reports for the first time.
-/

namespace RemoteCalls

namespace Catalog

/-- A list of a report that takes the names of the sightings of a kind. -/
structure Part.ListedIn {α : Type} [Record α] (part : Part α) (listed : Report → List String) :
    Prop where
  empty : ∀ file, listed (.empty file) = []
  note : ∀ report d, listed (report.note d) =
    listed report ++ ((part.sighting? d).map Record.name).toList

theorem Part.functions_listedIn : Part.functions.ListedIn Report.functions where
  empty _ := rfl
  note report d := by
    cases d with
    | function f => rfl
    | _ => exact (List.append_nil _).symm

theorem Part.structures_listedIn : Part.structures.ListedIn Report.structures where
  empty _ := rfl
  note report d := by
    cases d with
    | struct s => rfl
    | _ => exact (List.append_nil _).symm

theorem Part.typedefs_listedIn : Part.typedefs.ListedIn Report.typedefs where
  empty _ := rfl
  note report d := by
    cases d with
    | typedef t => rfl
    | _ => exact (List.append_nil _).symm

theorem Part.globals_listedIn : Part.globals.ListedIn Report.globals where
  empty _ := rfl
  note report d := by
    cases d with
    | «variable» v => rfl
    | _ => exact (List.append_nil _).symm

namespace Part

variable {α : Type} [Record α] {part : Part α} {listed : Report → List String}

/-- A report lists the sightings of a kind in the order in which they are noted. -/
theorem ListedIn.noteAll (h : part.ListedIn listed) (report : Report) (ds : List Declaration) :
    listed (report.noteAll ds) =
      listed report ++ (ds.filterMap part.sighting?).map Record.name := by
  induction ds generalizing report with
  | nil => simp
  | cons d ds ih =>
    change listed ((report.note d).noteAll ds) = _
    rw [ih, h.note, List.append_assoc]
    cases hsighting : part.sighting? d with
    | none => rw [List.filterMap_cons_none hsighting]; rfl
    | some newer => rw [List.filterMap_cons_some hsighting]; rfl

variable [LawfulRecord α]

/-- A table takes just the names that a report lists behind it. -/
theorem ListedIn.takesNames (h : part.ListedIn listed) {catalog : Catalog}
    (hcatalog : (part.table catalog).WellFormed) (file : Path) (ds : List Declaration) :
    (part.table catalog).TakesNames (listed ((Report.empty file).noteAll ds))
      (part.table (catalog.addAll ds)) := by
  rw [h.noteAll, h.empty, List.nil_append, part.table_addAll]
  exact hcatalog.takesNames _

end Part

/-- What a report lists has become of the tables of a catalog. -/
structure TakesNames (before : Catalog) (report : Report) (behind : Catalog) : Prop where
  functions : before.functionTable.TakesNames report.functions behind.functionTable
  structures : before.structureTable.TakesNames report.structures behind.structureTable
  typedefs : before.typedefTable.TakesNames report.typedefs behind.typedefTable
  globals : before.globalTable.TakesNames report.globals behind.globalTable

/-- Declarations that are noted and added in a row. -/
theorem WellFormed.takesNames_addAll {catalog : Catalog} (h : catalog.WellFormed) (file : Path)
    (ds : List Declaration) :
    catalog.TakesNames ((Report.empty file).noteAll ds) (catalog.addAll ds) where
  functions := Part.functions_listedIn.takesNames h.functions file ds
  structures := Part.structures_listedIn.takesNames h.structures file ds
  typedefs := Part.typedefs_listedIn.takesNames h.typedefs file ds
  globals := Part.globals_listedIn.takesNames h.globals file ds

/-- Behind a session, a run with a report leaves of each kind the records in the order of their
first sightings: those that were there, and behind them those whose names are reported and new.
A name is reported whether or not the catalog refuses the declaration, and has a record in either
case. -/
theorem extractText_takesNames (calls : List Call) (files : Files) (config : Configuration)
    (file : Path) (text : String) {report : Report}
    (h : ((session calls).extractText files config file text).1 = .ok report) :
    (session calls).TakesNames report ((session calls).extractText files config file text).2 := by
  obtain ⟨events, -, hevents⟩ := exists_events files config file text
  obtain ⟨rfl, hcatalog⟩ := (hevents (session calls)).1 report h
  have hwellFormed : (session calls).WellFormed :=
    (grows_foldl_run calls .empty).wellFormed wellFormed_empty
  have hadded := (sameDeclarations_addInput (session calls) file).addAll (Event.declarations events)
  obtain ⟨hfunctions, hstructures, htypedefs, hglobals⟩ :=
    hwellFormed.takesNames_addAll file (Event.declarations events)
  -- Neither the input file nor the reports of the run are part of a table.
  rw [hcatalog]
  exact ⟨hadded.functions ▸ hfunctions, hadded.structures ▸ hstructures,
    hadded.typedefs ▸ htypedefs, hadded.globals ▸ hglobals⟩

/-- A header that declares a function again and one of its own, between declarations of the input
file, one of which defines the function for a second time. -/
theorem extractText_takesNames_of_header :
    let files : Files := ⟨fun path =>
      if path.text = "a.h" then .file path (.ok "int f(void);\nint h(void);\nint g(void);\n")
      else .absent .missing⟩
    let config : Configuration := .ofMarkers ["RPC"]
    let calls : List Call := [.ofText files config ⟨"f.c"⟩ "int f(void) \x7b\x7d\n"]
    let result := (session calls).extractText files config ⟨"api.c"⟩
      "int g(void);\n#include \"a.h\"\nint f(void) \x7b\x7d\nint k(void);\n"
    ∃ report, result.1 = .ok report ∧ report.functions = ["g", "f", "h", "g", "f", "k"] ∧
      report.errors.length = 1 ∧
      result.2.functionTable.names = ["f"] ++ ["g", "h", "k"] := by
  intro files config calls result
  have hok : result.1.toOption.map (fun report => (report.functions, report.errors.length)) =
      some (["g", "f", "h", "g", "f", "k"], 1) := by decide +kernel
  cases hresult : result.1 with
  | error diagnostic =>
    rw [hresult] at hok
    cases hok
  | ok report =>
    rw [hresult] at hok
    obtain ⟨hfunctions, herrors⟩ := Prod.mk.inj (Option.some.inj hok)
    have htakes := extractText_takesNames calls files config ⟨"api.c"⟩ _ hresult
    have hbefore : (session calls).functionTable.names = ["f"] := by decide +kernel
    refine ⟨report, rfl, hfunctions, herrors, ?_⟩
    rw [htakes.functions.names_eq, hfunctions, hbefore]
    decide +kernel

end Catalog

end RemoteCalls
