import RemoteCalls.Text.Pieces

/-!
# Paths

A path is kept as it was written. Two paths are the same if they have the same components, so
repeated slashes, a slash at the end and dots in the middle make no difference.
-/

namespace RemoteCalls

/-- A path as written. -/
structure Path where
  text : String
deriving DecidableEq, Repr, Inhabited

namespace Path

/-- One step of a path. -/
inductive Component where
  | root
  | here
  | up
  | name (name : String)
deriving DecidableEq, Repr

/-- Whether a path starts at the root. -/
def isAbsolute (path : Path) : Bool :=
  path.text.toList.head? == some '/'

/-- The step that a piece between slashes stands for, if it is one. -/
def component? (piece : List Char) : Option Component :=
  if piece = [] ∨ piece = ['.'] then none
  else if piece = ['.', '.'] then some .up
  else some (.name (String.ofList piece))

/-- The steps of a path. A dot counts only as the first step of a path that is not absolute. -/
def components (path : Path) : List Component :=
  let all := Text.pieces '/' path.text.toList
  let steps := all.filterMap component?
  if path.isAbsolute then .root :: steps
  else if all.head? = some ['.'] then .here :: steps
  else steps

/-- Whether two paths have the same steps. -/
def same (p q : Path) : Bool :=
  p.components == q.components

/-- The text of one step. -/
def Component.text : Component → String
  | root => ""
  | here => "."
  | up => ".."
  | name step => step

/-- The path with the given steps. -/
def ofComponents : List Component → Path
  | [.root] => ⟨"/"⟩
  | steps => ⟨"/".intercalate (steps.map Component.text)⟩

/-- The path without its last step, unless no step or only the root is left. -/
def parent? (path : Path) : Option Path :=
  match path.components.reverse with
  | [] | .root :: _ => none
  | _ :: rest => some (ofComponents rest.reverse)

/-- A relative path as seen from a directory. -/
def join (directory relative : Path) : Path :=
  if directory.text.isEmpty then relative
  else if directory.text.toList.getLast? = some '/' then ⟨directory.text ++ relative.text⟩
  else ⟨directory.text ++ "/" ++ relative.text⟩

@[simp] theorem same_self (p : Path) : p.same p = true := by
  simp [same]

theorem same_iff {p q : Path} : p.same q = true ↔ p.components = q.components := by
  simp [same]

end Path

end RemoteCalls
