import RemoteCalls.Catalog
import RemoteCalls.Outline

/-!
# Extracting declarations from files

A run reads one input file and the headers it includes, in the order of the include directives and
each header once, and adds what it finds to a catalog. Under the policy `skip` an error is reported
and the run goes on; under the policy `abort` the first error ends the run, and the catalog stays as
it was.
-/

namespace RemoteCalls

/-- What one run came across, by name and in order. -/
structure Report where
  file : Path
  functions : List String
  structures : List String
  typedefs : List String
  globals : List String
  placeholders : List String
  included : List Path
  errors : List Diagnostic
deriving Repr, Inhabited

namespace Report

/-- The report of a run that has found nothing yet. -/
def empty (file : Path) : Report := ⟨file, [], [], [], [], [], [], []⟩

/-- The number of declarations that were found. -/
def count (report : Report) : Nat :=
  report.functions.length + report.structures.length + report.typedefs.length +
    report.globals.length + report.placeholders.length

/-- The report with one more declaration. -/
def note (report : Report) : Declaration → Report
  | .function f => { report with functions := report.functions ++ [f.name] }
  | .struct s => { report with structures := report.structures ++ [s.name] }
  | .typedef t => { report with typedefs := report.typedefs ++ [t.name] }
  | .variable v => { report with globals := report.globals ++ [v.name] }
  | .placeholder p => { report with placeholders := report.placeholders ++ [p.name] }

end Report

/-- Where a run stands: the catalog, the report, and the files that were met. -/
structure Run where
  catalog : Catalog
  report : Report
  visited : List Path
deriving Repr

/-- A run that an error has ended: the error, and where the run stood. -/
structure Stopped where
  diagnostic : Diagnostic
  run : Run

namespace Run

/-- Reports an error, which under the policy `abort` ends the run. -/
def fail (policy : ErrorPolicy) (run : Run) (diagnostic : Diagnostic) : Except Stopped Run :=
  let run := { run with
    catalog := run.catalog.report diagnostic
    report := { run.report with errors := run.report.errors ++ [diagnostic] } }
  match policy with
  | .abort => .error ⟨diagnostic, run⟩
  | .skip => .ok run

/-- Takes in a declaration. -/
def declare (policy : ErrorPolicy) (run : Run) (declaration : Declaration) :
    Except Stopped Run :=
  let (catalog, conflict) := run.catalog.add declaration
  let run := { run with catalog := catalog, report := run.report.note declaration }
  match conflict with
  | none => .ok run
  | some diagnostic => run.fail policy diagnostic

end Run

/-- Where a header may be, best place first. A quoted header is looked for beside the including file
and then, like any other, in the configured directories in order. -/
def Inclusion.candidates (header : Inclusion) (includePaths : List Path) (including : Path) :
    List Path :=
  let requested : Path := ⟨header.path⟩
  if requested.isAbsolute then [requested]
  else
    let beside := match including.parent? with
      | some directory => directory.join requested
      | none => requested
    (if header.system then [] else [beside]) ++ includePaths.map (·.join requested)

/-- What an include directive leads to: the first place at which there is a file. -/
def Files.resolve (files : Files) (includePaths : List Path) (including : Path)
    (header : Inclusion) : Option Path :=
  (header.candidates includePaths including).find? files.isFile

/-- All places at which the headers of a text may be. -/
def Configuration.headerPaths (config : Configuration) (file : Path) (text : String) : List Path :=
  (Outline.ofText config.noteRules file .input text).flatMap fun
    | .inclusion header _ => header.candidates config.includePaths file
    | _ => []

/-- How a header is read, given its path, its text and where the run stands. -/
abbrev HeaderReader := Path → String → Run → Except Stopped Run

/-- Follows an include directive at a place. A header that was met before is passed over; one
beyond the depth limit, for which there is no reader, is an error, and so is one that cannot be
read. -/
def Run.follow (files : Files) (config : Configuration) (deeper : Option HeaderReader)
    (place : Place) (header : Inclusion) (run : Run) : Except Stopped Run :=
  match files.resolve config.includePaths place.file header with
  | none => .ok run
  | some resolved =>
    let path := files.canonical resolved
    if run.visited.any path.same then .ok run
    else
      let run := { run with visited := path :: run.visited }
      match deeper with
      | none =>
        run.fail config.errorPolicy
          ⟨place, none, .includeDepth config.maxIncludeDepth header.path⟩
      | some scan =>
        match files.read path with
        | .error fault => run.fail config.errorPolicy ⟨place, none, .unreadableHeader path fault⟩
        | .ok text =>
          scan path text
            { run with report := { run.report with included := run.report.included ++ [path] } }

/-- Takes in one finding of a file. -/
def Run.take (files : Files) (config : Configuration) (deeper : Option HeaderReader)
    (file : Path) (run : Run) : Finding → Except Stopped Run
  | .declaration declaration => run.declare config.errorPolicy declaration
  | .inclusion header position => run.follow files config deeper ⟨file, position⟩ header
  | .diagnostic diagnostic => run.fail config.errorPolicy diagnostic

/-- Takes in all findings of a file. -/
def Run.scanWith (files : Files) (config : Configuration) (deeper : Option HeaderReader)
    (origin : Origin) (file : Path) (text : String) (run : Run) : Except Stopped Run :=
  (Outline.ofText config.noteRules file origin text).foldlM (Run.take files config deeper file) run

/-- Takes in all findings of a file below which include directives may be nested `depth` deep. -/
def Run.scan (files : Files) (config : Configuration) :
    (depth : Nat) → Origin → Path → String → Run → Except Stopped Run
  | 0, origin, file, text, run => Run.scanWith files config none origin file text run
  | depth + 1, origin, file, text, run =>
    Run.scanWith files config (some (Run.scan files config depth .included)) origin file text run

/-- A run over the text of an input file, and the catalog behind it. Records carry the one path that
stands for all spellings of the file. The policy `abort` keeps the catalog as it was before, and
puts it back when an error has ended the run. -/
def Catalog.extractText (files : Files) (config : Configuration) (catalog : Catalog) (file : Path)
    (text : String) : Except Diagnostic Report × Catalog :=
  let kept := match config.errorPolicy with
    | .abort => some catalog
    | .skip => none
  let path := files.canonical file
  match Run.scan files config config.maxIncludeDepth .input path text
      ⟨catalog.addInput file, .empty file, [path]⟩ with
  | .ok run => (.ok run.report, run.catalog)
  | .error stopped => (.error stopped.diagnostic, kept.getD stopped.run.catalog)

/-- Why a run has no result. -/
inductive ExtractionFault where
  | unreadable (file : Path) (fault : ReadFault)
  | stopped (diagnostic : Diagnostic)
deriving DecidableEq, Repr

/-- The message for a run without a result. -/
def ExtractionFault.message : ExtractionFault → String
  | unreadable file fault => "failed to read " ++ file.text ++ ": " ++ fault.message
  | stopped diagnostic => diagnostic.text

/-- A run over an input file, and the catalog behind it. -/
def Catalog.extract (files : Files) (config : Configuration) (catalog : Catalog) (file : Path) :
    Except ExtractionFault Report × Catalog :=
  match files.read file with
  | .error fault => (.error (.unreadable file fault), catalog)
  | .ok text =>
    let (result, catalog) := catalog.extractText files config file text
    (result.mapError .stopped, catalog)

/-- Runs over input files in order, up to the first without a result: the reports, and the catalog
behind the last run or why there is none. -/
def Catalog.extractAll (files : Files) (config : Configuration) (catalog : Catalog) :
    List Path → List Report × Except ExtractionFault Catalog
  | [] => ([], .ok catalog)
  | file :: rest =>
    match catalog.extract files config file with
    | (.error fault, _) => ([], .error fault)
    | (.ok report, catalog) =>
      let (reports, result) := catalog.extractAll files config rest
      (report :: reports, result)

end RemoteCalls
