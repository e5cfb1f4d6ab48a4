import RemoteCalls.Configuration.Reader
import RemoteCalls.Extraction
import RemoteCalls.Inspector.State
import RemoteCalls.Text.Lines

/-!
# The command line

The arguments name input files and a configuration. All input files are read into one catalog, which
is then summed up in writing or opened in the inspector. The first file that cannot be read ends the
program.
-/

namespace RemoteCalls

/-- What the arguments ask for. -/
structure CommandLine where
  files : List Path
  configuration : Option Path
  prints : Bool
deriving DecidableEq, Repr, Inhabited

/-- Why arguments do not ask for a run. -/
inductive UsageFault where
  | helpWanted
  | noConfigurationFile
  | unknownOption (option : String)
  | noInputFile
deriving DecidableEq, Repr

/-- What is said about arguments before the usage is explained. -/
def UsageFault.message : UsageFault → String
  | helpWanted => ""
  | noConfigurationFile => "Error: --config needs a file\n"
  | unknownOption option => "Error: unknown option '" ++ option ++ "'\n"
  | noInputFile => "Error: No input file provided\n\n"

/-- What a program writes, how it ends, and the inspector that it opens, if any. -/
structure Outcome where
  output : String
  errors : String
  code : Nat
  inspector : Option Inspector.State
deriving Repr

/-- A program that ends with nothing but a message about an error. -/
def Outcome.failure (message : String) : Outcome := ⟨"", message, 1, none⟩

namespace CommandLine

/-- No argument read yet. -/
def empty : CommandLine := ⟨[], none, false⟩

/-- The arguments behind those that were read. The last `--config` counts; whatever begins with two
dashes is an option, anything else a file. -/
def read (line : CommandLine) : List String → Except UsageFault CommandLine
  | [] => if line.files.isEmpty then .error .noInputFile else .ok line
  | "--print" :: rest => read { line with prints := true } rest
  | ["--config"] => .error .noConfigurationFile
  | "--config" :: path :: rest => read { line with configuration := some ⟨path⟩ } rest
  | "-h" :: _ | "--help" :: _ => .error .helpWanted
  | argument :: rest =>
    if Text.beginsWith "--" argument then .error (.unknownOption argument)
    else read { line with files := line.files ++ [⟨argument⟩] } rest

/-- The arguments of a program. -/
def ofArguments (arguments : List String) : Except UsageFault CommandLine :=
  empty.read arguments

/-- The markers where no configuration is given. -/
def defaultMarkers : List String := ["rpc", "SERIALIZE"]

/-- How the program is used. -/
def usage : String :=
  "Usage: rpcstub <file.c>... [--config <file.toml>] [--print]\n\nOptions:\n" ++
  "  --config <file.toml>   Annotation markers, include paths and policies\n" ++
  "  --print                Print a summary instead of opening the inspector\n\n" ++
  "Without --config the markers are: " ++ ", ".intercalate defaultMarkers ++ "\n"

/-- The configuration for a run. -/
def configure (line : CommandLine) (files : Files) : Except ConfigurationFault Configuration :=
  match line.configuration with
  | some path => Configuration.load files path
  | none => (Configuration.ofMarkers defaultMarkers).validated

/-- The line about an entry in the summary. -/
def entryLine (entry : Inspector.Entry) : String :=
  Text.padRight 12 entry.kind ++ " " ++ Text.padRight 32 entry.name ++ " " ++ entry.place ++
    (if entry.notes.isEmpty then "" else "  " ++ " ".intercalate entry.notes) ++ "\n"

/-- The errors in the summary. -/
def errorLines (errors : List Diagnostic) : String :=
  if errors.isEmpty then ""
  else
    "\n" ++ toString errors.length ++ " error(s):\n" ++
      String.join (errors.map fun error => "  " ++ error.text ++ "\n")

/-- The summary of a catalog: a line for each entry, and then the errors. -/
def summary (catalog : Catalog) : String :=
  String.join ((Inspector.Entry.ofCatalog catalog).map entryLine) ++ errorLines catalog.errors

/-- What is said about an input file behind its run. -/
def progress (report : Report) : String :=
  "Parsed " ++ report.file.text ++ ": " ++ toString report.count ++ " declarations, " ++
    toString report.errors.length ++ " errors\n"

/-- Does what the arguments ask for. -/
def run (line : CommandLine) (files : Files) : Outcome :=
  match line.configure files with
  | .error fault => .failure ("Configuration error: " ++ fault.message ++ "\n")
  | .ok config =>
    let (reports, result) := Catalog.empty.extractAll files config line.files
    let told := if line.prints then "" else String.join (reports.map progress)
    match result with
    | .error fault => .failure (told ++ "Parse error: " ++ fault.message ++ "\n")
    | .ok catalog =>
      if line.prints then ⟨summary catalog, told, 0, none⟩
      else ⟨"", told, 0, some (Inspector.State.ofCatalog catalog)⟩

end CommandLine

/-- What the program does with the given arguments. -/
def Outcome.ofArguments (files : Files) (arguments : List String) : Outcome :=
  match CommandLine.ofArguments arguments with
  | .error fault => .failure (fault.message ++ CommandLine.usage)
  | .ok line => line.run files

end RemoteCalls
