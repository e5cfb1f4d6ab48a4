import RemoteCalls.Inspector.Entry

/-!
# The state of the inspector

The inspector shows the entries of a catalog, the selected one in detail, and the errors. Keys move
the selection or scroll the pane in use. Scrolling is brought back into range when a pane is drawn.
-/

namespace RemoteCalls.Inspector

/-- The pane in use. -/
inductive Focus where
  | units
  | detail
  | diagnostics
deriving DecidableEq, Repr, Inhabited

namespace Focus

/-- The pane that follows. -/
def next : Focus → Focus
  | units => detail
  | detail => diagnostics
  | diagnostics => units

/-- The pane before. -/
def previous : Focus → Focus
  | units => diagnostics
  | detail => units
  | diagnostics => detail

end Focus

/-- The keys that mean something, and all others by their character. -/
inductive Key where
  | up
  | down
  | home
  | end_
  | tab
  | backTab
  | escape
  | enter
  | character (c : Char)
deriving DecidableEq, Repr

/-- The key of a name; a name of no other key stands for its first character. -/
def Key.named : String → Key
  | "Up" => up
  | "Down" => down
  | "Home" => home
  | "End" => end_
  | "Tab" => tab
  | "BackTab" => backTab
  | "Esc" => escape
  | "Enter" => enter
  | name => character (name.toList.headD ' ')

/-- How far the panes are scrolled. -/
structure Scrolls where
  units : Nat
  detail : Nat
  diagnostics : Nat
deriving DecidableEq, Repr, Inhabited

/-- What the inspector shows and where it stands; `selected` counts entries from zero. -/
structure State where
  entries : List Entry
  errors : List Diagnostic
  inputCount : Nat
  focus : Focus
  selected : Nat
  scrolls : Scrolls
  quits : Bool
  status : String
deriving Repr

namespace State

/-- The inspector of a catalog before any key is pressed. -/
def ofCatalog (catalog : Catalog) : State :=
  let entries := Entry.ofCatalog catalog
  ⟨entries, catalog.errors, catalog.inputs.length, .units, 0, ⟨0, 0, 0⟩, false,
    toString entries.length ++ " units extracted"⟩

/-- The selected entry. -/
def selected? (state : State) : Option Entry :=
  state.entries[state.selected]?

/-- Selects an entry, says so in the status bar, and shows its details from the top. -/
def select (state : State) (index : Nat) : State :=
  { state with
    selected := index
    scrolls := { state.scrolls with detail := 0 }
    status := match state.entries[index]? with
      | some entry => entry.kind ++ " " ++ entry.name ++ " at " ++ entry.place
      | none => state.status }

/-- Goes up by one entry or one row. -/
def up (state : State) : State :=
  let scrolls := state.scrolls
  match state.focus with
  | .units => if 0 < state.selected then state.select (state.selected - 1) else state
  | .detail => { state with scrolls := { scrolls with detail := scrolls.detail - 1 } }
  | .diagnostics =>
    { state with scrolls := { scrolls with diagnostics := scrolls.diagnostics - 1 } }

/-- Goes down by one entry or one row. -/
def down (state : State) : State :=
  let scrolls := state.scrolls
  match state.focus with
  | .units =>
    if state.selected + 1 < state.entries.length then state.select (state.selected + 1) else state
  | .detail => { state with scrolls := { scrolls with detail := scrolls.detail + 1 } }
  | .diagnostics =>
    { state with scrolls := { scrolls with diagnostics := scrolls.diagnostics + 1 } }

/-- Selects an entry if the list of entries is in use and not empty. -/
def jump (state : State) (index : Nat) : State :=
  if state.focus = .units ∧ state.entries ≠ [] then state.select index else state

/-- The state behind a key. -/
def press (state : State) : Key → State
  | .escape | .character 'q' | .character 'Q' => { state with quits := true }
  | .tab => { state with focus := state.focus.next }
  | .backTab => { state with focus := state.focus.previous }
  | .up => state.up
  | .down => state.down
  | .home => state.jump 0
  | .end_ => state.jump (state.entries.length - 1)
  | .enter | .character _ => state

end State

end RemoteCalls.Inspector
