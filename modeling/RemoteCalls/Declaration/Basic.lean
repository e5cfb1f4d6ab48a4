import RemoteCalls.Path
import RemoteCalls.Position

/-!
# Where declarations come from

The kinds of declarations, the place of a declaration, and whether its file was given as input or
was reached through an include directive.
-/

namespace RemoteCalls

/-- The kinds of declarations. Each kind has names of its own. -/
inductive DeclKind where
  | function
  | struct
  | typedef
  | variable
  | placeholder
deriving DecidableEq, Repr, Inhabited

/-- The word for a kind of declaration. -/
def DeclKind.text : DeclKind → String
  | function => "function"
  | struct => "structure"
  | typedef => "typedef"
  | «variable» => "variable"
  | placeholder => "placeholder"

/-- Whether a file was given as input or was included by one. -/
inductive Origin where
  | input
  | included
deriving DecidableEq, Repr, Inhabited

/-- A position in a file. -/
structure Place where
  file : Path
  position : Position
deriving DecidableEq, Repr, Inhabited

namespace Place

/-- A place as text. -/
def text (place : Place) : String :=
  place.file.text ++ ":" ++ place.position.text

/-- Whether two places are one, however the path of the file is written. -/
def same (p q : Place) : Bool :=
  p.file.same q.file && p.position == q.position

@[simp] theorem same_self (p : Place) : p.same p = true := by
  simp [same]

end Place

end RemoteCalls
