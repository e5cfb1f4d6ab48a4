import RemoteCalls.Files

/-!
# Files in memory

A tree of directories and files, held as the list of its nodes, in which paths are followed step by
step from a working directory.
-/

namespace RemoteCalls

/-- A node of a tree. The bytes of a file need not be text. -/
inductive FileNode where
  | directory
  | file (bytes : ByteArray)

/-- The nodes of a tree by the names that lead to them from the root. The directories above a node
are part of the tree without being listed. -/
structure FileTree where
  nodes : List (List String × FileNode)
  working : List String

namespace FileTree

/-- The node at a place, given by the names from the root. -/
def node? (tree : FileTree) (place : List String) : Option FileNode :=
  match tree.nodes.find? (·.1 == place) with
  | some (_, node) => some node
  | none =>
    if place.isPrefixOf tree.working || tree.nodes.any (place.isPrefixOf ·.1) then
      some .directory
    else none

/-- The most bytes that the name of a node can have. -/
def maxNameBytes : Nat := 255

/-- The most bytes that a path can have. -/
def maxPathBytes : Nat := 4095

/-- One step of a path from a place. Only a directory has a step that leads on. -/
def step (tree : FileTree) (place : List String) (piece : List Char) :
    Except ReadFault (List String) :=
  match tree.node? place with
  | none => .error .missing
  | some (.file _) => .error .notADirectory
  | some .directory =>
    if piece = [] ∨ piece = ['.'] then .ok place
    else if piece = ['.', '.'] then .ok place.dropLast
    else
      let name := String.ofList piece
      if maxNameBytes < name.utf8ByteSize then .error .nameTooLong
      else if (tree.node? (place ++ [name])).isSome then .ok (place ++ [name])
      else .error .missing

/-- The place that a path leads to. -/
def follow (tree : FileTree) (path : Path) : Except ReadFault (List String) :=
  if path.text.isEmpty then .error .missing
  else if path.text.toList.contains '\x00' then
    .error (.other "file name contained an unexpected NUL byte")
  else if maxPathBytes < path.text.utf8ByteSize then .error .nameTooLong
  else
    (Text.pieces '/' path.text.toList).foldlM tree.step
      (if path.isAbsolute then [] else tree.working)

/-- What a path leads to in a tree. -/
def target (tree : FileTree) (path : Path) : Target :=
  match tree.follow path with
  | .error fault => .absent fault
  | .ok place =>
    let canonical : Path := ⟨"/" ++ "/".intercalate place⟩
    match tree.node? place with
    | some (.file bytes) =>
      .file canonical (match String.fromUTF8? bytes with
        | some text => .ok text
        | none => .error .notText)
    | _ => .directory canonical

/-- The files of a tree. -/
def files (tree : FileTree) : Files := ⟨tree.target⟩

end FileTree

end RemoteCalls
