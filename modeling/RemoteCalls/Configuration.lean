import RemoteCalls.Files
import RemoteCalls.Token.Segment

/-!
# Configuration

Which names count as annotations, where headers are looked for, and what happens to errors. A
configuration is usable if it has markers and each of them has the form of a C identifier.
-/

namespace RemoteCalls

/-- What a run does with an error: give up without an effect, or go on behind it. -/
inductive ErrorPolicy where
  | abort
  | skip
deriving DecidableEq, Repr, Inhabited

/-- What happens to an annotation that a blank line separates from its declaration. -/
inductive DetachedPolicy where
  | attach
  | refuse
deriving DecidableEq, Repr, Inhabited

/-- How notes are recognized: the names that count, and what happens to those that a blank line
separates from their declaration. -/
structure NoteRules where
  markers : List String
  detached : DetachedPolicy
deriving DecidableEq, Repr, Inhabited

/-- Whether a name counts as a marker. -/
def NoteRules.isMarker (rules : NoteRules) (name : String) : Bool :=
  rules.markers.contains name

/-- The settings of a run. The markers are in order and each is there once. -/
structure Configuration where
  markers : List String
  includePaths : List Path
  definedOnly : Bool
  errorPolicy : ErrorPolicy
  detached : DetachedPolicy
  maxIncludeDepth : Nat
deriving DecidableEq, Repr, Inhabited

/-- Why a configuration cannot be used. -/
inductive ConfigurationFault where
  | noMarkers
  | invalidMarker (marker : String)
  | unreadable (path : Path) (fault : ReadFault)
  | badFormat (path : Path)
deriving DecidableEq, Repr

/-- The message for a configuration that cannot be used. -/
def ConfigurationFault.message : ConfigurationFault → String
  | noMarkers => "no annotation markers configured; at least one is required"
  | invalidMarker marker => "annotation marker '" ++ marker ++ "' is not a valid C identifier"
  | unreadable path fault =>
    "failed to read configuration " ++ path.text ++ ": " ++ fault.message
  | badFormat path =>
    "invalid configuration " ++ path.text ++ ": not a document of known keys and values"

namespace Configuration

/-- A marker put into its place among others in order, unless it is there. -/
def insertMarker (marker : String) : List String → List String
  | [] => [marker]
  | other :: rest =>
    if marker = other then other :: rest
    else if marker < other then marker :: other :: rest
    else other :: insertMarker marker rest

/-- Markers in order, each once. -/
def orderedMarkers (markers : List String) : List String :=
  markers.foldl (fun ordered marker => insertMarker marker ordered) []

/-- The settings where nothing is said, with no markers yet. -/
def initial : Configuration :=
  ⟨[], [], false, .skip, .attach, 32⟩

/-- The settings where nothing is said but the markers. -/
def ofMarkers (markers : List String) : Configuration :=
  { initial with markers := orderedMarkers markers }

/-- Whether a text has the form of a C identifier. -/
def isIdentifier (text : String) : Bool :=
  match text.toList with
  | [] => false
  | c :: cs => Segment.isWordStart c && cs.all Segment.isWordChar

/-- Why a configuration cannot be used, if it cannot. -/
def fault? (config : Configuration) : Option ConfigurationFault :=
  if config.markers.isEmpty then some .noMarkers
  else (config.markers.find? fun marker => !isIdentifier marker).map .invalidMarker

/-- A configuration that can be used, or why it cannot. -/
def validated (config : Configuration) : Except ConfigurationFault Configuration :=
  match config.fault? with
  | some fault => .error fault
  | none => .ok config

/-- What the settings say about notes. -/
def noteRules (config : Configuration) : NoteRules :=
  ⟨config.markers, config.detached⟩

theorem mem_insertMarker {marker other : String} {markers : List String} :
    other ∈ insertMarker marker markers ↔ other = marker ∨ other ∈ markers := by
  induction markers with
  | nil => simp [insertMarker]
  | cons m rest ih =>
    unfold insertMarker
    split
    · simp_all
    · split
      · simp
      · simp only [List.mem_cons, ih]
        exact or_left_comm

/-- Ordering keeps just the given markers. -/
theorem mem_orderedMarkers {marker : String} {markers : List String} :
    marker ∈ orderedMarkers markers ↔ marker ∈ markers := by
  suffices h : ∀ acc : List String,
      marker ∈ markers.foldl (fun ordered m => insertMarker m ordered) acc ↔
        marker ∈ markers ∨ marker ∈ acc by
    simpa [orderedMarkers] using h []
  induction markers with
  | nil => simp
  | cons m rest ih =>
    intro acc
    simp only [List.foldl_cons, ih, mem_insertMarker, List.mem_cons]
    exact or_left_comm.trans or_assoc.symm

end Configuration

end RemoteCalls
