import RemoteCalls.Path

/-!
# Files

What a path leads to: nothing, a directory or a file, with the one path that stands for all
spellings of its place. Everything that reads files does so through a `Files` value.
-/

namespace RemoteCalls

/-- Why a path cannot be read as text. -/
inductive ReadFault where
  | missing
  | notADirectory
  | isADirectory
  | nameTooLong
  | notText
  | other (message : String)
deriving DecidableEq, Repr

/-- The message for a path that cannot be read. -/
def ReadFault.message : ReadFault → String
  | missing => "No such file or directory (os error 2)"
  | notADirectory => "Not a directory (os error 20)"
  | isADirectory => "Is a directory (os error 21)"
  | nameTooLong => "File name too long (os error 36)"
  | notText => "stream did not contain valid UTF-8"
  | other message => message

/-- What a path leads to. -/
inductive Target where
  | absent (fault : ReadFault)
  | directory (canonical : Path)
  | file (canonical : Path) (content : Except ReadFault String)

/-- What each path leads to. -/
structure Files where
  target : Path → Target

namespace Files

/-- No files at all. -/
def empty : Files := ⟨fun _ => .absent .missing⟩

/-- The one path for all spellings of a place; a path that leads nowhere is kept as written. -/
def canonical (files : Files) (path : Path) : Path :=
  match files.target path with
  | .absent _ => path
  | .directory canonical | .file canonical _ => canonical

/-- Whether a path leads to a file. -/
def isFile (files : Files) (path : Path) : Bool :=
  match files.target path with
  | .file .. => true
  | _ => false

/-- The text that a path leads to. -/
def read (files : Files) (path : Path) : Except ReadFault String :=
  match files.target path with
  | .absent fault => .error fault
  | .directory _ => .error .isADirectory
  | .file _ content => content

end Files

end RemoteCalls
