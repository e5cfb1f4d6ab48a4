import RemoteCalls.Configuration
import RemoteCalls.Toml.Reader

/-!
# Reading configurations

A configuration file is a TOML document in which each setting has a key. A setting that is not there
keeps its initial value; a key that is no setting, or a value of another type, makes the whole file
unusable.
-/

namespace RemoteCalls.Configuration

/-- The texts of an array that holds nothing else. -/
def texts? (items : List Toml.Value) : Option (List String) :=
  items.mapM fun
    | .text text => some text
    | _ => none

/-- The word that a node stands for: a text, or a table whose only key has nothing in it. -/
def word? : Toml.Node → Option String
  | .value (.text text) => some text
  | .value (.table [(key, .array [])]) | .value (.table [(key, .table [])]) => some key
  | .table _ [(key, .value (.array []))] | .table _ [(key, .value (.table []))] => some key
  | .table _ [(key, .table _ [])] => some key
  | _ => none

/-- The configuration with one more setting, if the key is known and the value fits. -/
def set? (config : Configuration) (key : String) (node : Toml.Node) : Option Configuration :=
  match key, node with
  | "annotation_markers", .value (.array items) =>
    (texts? items).map fun markers => { config with markers := orderedMarkers markers }
  | "include_paths", .value (.array items) =>
    (texts? items).map fun paths => { config with includePaths := paths.map Path.mk }
  | "defined_only_default", .value (.flag flag) => some { config with definedOnly := flag }
  | "max_include_depth", .value (.number (.ofNat depth)) =>
    some { config with maxIncludeDepth := depth }
  | "error_policy", node =>
    match word? node with
    | some "abort" => some { config with errorPolicy := .abort }
    | some "skip" => some { config with errorPolicy := .skip }
    | _ => none
  | "detached_annotations", node =>
    match word? node with
    | some "attach" => some { config with detached := .attach }
    | some "error" => some { config with detached := .refuse }
    | _ => none
  | _, _ => none

/-- The configuration that a document describes, if it can be used. The path is for messages. -/
def ofDocument (path : Path) (document : String) : Except ConfigurationFault Configuration :=
  match (Toml.read? document).bind (·.foldlM (fun config (key, node) => config.set? key node)
      initial) with
  | some config => config.validated
  | none => .error (.badFormat path)

/-- The configuration in a file. -/
def load (files : Files) (path : Path) : Except ConfigurationFault Configuration :=
  match files.read path with
  | .ok document => ofDocument path document
  | .error fault => .error (.unreadable path fault)

end RemoteCalls.Configuration
