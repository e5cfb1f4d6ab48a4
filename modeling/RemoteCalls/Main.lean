import RemoteCalls.CommandLine
import RemoteCalls.Inspector.Panes

/-!
# The program

Reads from disk whatever a run may look at, does the run in memory, and writes what it says. The
inspector is drawn anew behind every key; the keys come by name, one in each line of the input.
-/

namespace RemoteCalls.Disk

/-- Why a path could not be read. -/
def fault : IO.Error → ReadFault
  | .noFileOrDirectory .. => .missing
  | .inappropriateType _ 21 _ => .isADirectory
  | .inappropriateType .. => .notADirectory
  | .invalidArgument _ 36 _ => .nameTooLong
  | .permissionDenied _ code details => .other (details ++ " (os error " ++ toString code ++ ")")
  | other => .other (toString other)

/-- What a path leads to on disk. -/
def look (path : Path) : IO Target := do
  match ← (IO.FS.realPath path.text).toBaseIO with
  | .error _ =>
    match ← (IO.FS.readBinFile path.text).toBaseIO with
    | .error error => return .absent (fault error)
    | .ok _ => return .absent .missing
  | .ok real =>
    let canonical : Path := ⟨real.toString⟩
    match ← (IO.FS.readBinFile real).toBaseIO with
    | .error error =>
      match fault error with
      | .isADirectory => return .directory canonical
      | fault => return .file canonical (.error fault)
    | .ok bytes =>
      match String.fromUTF8? bytes with
      | some text => return .file canonical (.ok text)
      | none => return .file canonical (.error .notText)

/-- What was found on disk, by paths as written. -/
abbrev Found := List (Path × Target)

/-- The files that were found. Every other path leads nowhere. -/
def Found.files (found : Found) : Files :=
  ⟨fun path => (found.lookup path).getD (.absent .missing)⟩

/-- Looks at paths, and from files on at the places of the headers that they include. -/
partial def load (config : Configuration) (found : Found) : List Path → IO Found
  | [] => return found
  | path :: rest => do
    if (found.lookup path).isSome then load config found rest
    else
      let target ← look path
      let further := match target with
        | .file canonical (.ok text) =>
          if path = canonical then config.headerPaths canonical text else [canonical]
        | .file canonical _ => [canonical]
        | _ => []
      load config ((path, target) :: found) (further ++ rest)

/-- Looks at what a run may need. -/
def survey (line : CommandLine) : IO Files := do
  let found : Found ← match line.configuration with
    | some path => pure [(path, ← look path)]
    | none => pure []
  match line.configure (Found.files found) with
  | .ok config => return (← load config found line.files).files
  | .error _ => return Found.files found

end RemoteCalls.Disk

namespace RemoteCalls.Inspector

/-- Shows the inspector and presses the keys that are named in the input until it is left. -/
partial def State.display (input : IO.FS.Stream) (state : State) : IO Unit := do
  let (screen, state) := state.draw 100 30
  for line in screen.lines do
    IO.println line
  let name ← input.getLine
  let state := state.press (.named (String.ofList (name.toList.takeWhile (· ≠ '\n'))))
  if name.isEmpty || state.quits then return
  state.display input

end RemoteCalls.Inspector

/-- Runs the program on its arguments and gives back how it ends. -/
def main (arguments : List String) : IO UInt32 := do
  let files ← match RemoteCalls.CommandLine.ofArguments arguments with
    | .ok line => RemoteCalls.Disk.survey line
    | .error _ => pure RemoteCalls.Files.empty
  let outcome := RemoteCalls.Outcome.ofArguments files arguments
  IO.print outcome.output
  IO.eprint outcome.errors
  match outcome.inspector with
  | some state => state.display (← IO.getStdin)
  | none => pure ()
  return outcome.code.toUInt32
