import RemoteCalls.Inspector.Highlight
import RemoteCalls.Inspector.State
import RemoteCalls.Text.Lines

/-!
# Drawing the inspector

The list of entries, the details of the selected entry, the errors, and the status bar. A pane that
scrolls brings its offset into range before it is drawn, and the list of entries also keeps the
selected entry in view. The details and the status bar are shown without the line breaks that their
texts may hold.
-/

namespace RemoteCalls.Inspector

/-- The number of rows inside of a pane, at least one. -/
def visibleRows (area : Area) : Nat := max (area.height - 2) 1

/-- An offset within what can be scrolled of `total` rows. -/
def clampScroll (offset total visible : Nat) : Nat :=
  min offset (total - visible)

/-- The offset that shows the selected row with the least movement. -/
def followSelection (offset selected visible : Nat) : Nat :=
  if selected < offset then selected
  else if offset + visible ≤ selected then selected + 1 - visible
  else offset

/-- The border of a pane. -/
def borderStyle (focused : Bool) : Style :=
  if focused then (Style.fg Theme.focusedBorder).emphasized else .fg Theme.border

/-- A pane with a single line in place of its rows, which is styled to the end of its row. -/
def drawEmpty (screen : Screen) (area : Area) (focused : Bool) (title line : String)
    (color : Color) : Screen :=
  let screen := screen.border area (borderStyle focused) title
  let row := area.inner.row 0
  (screen.paint row (.fg color)).writeLeft row [⟨line, .plain⟩]

namespace Units

/-- The row of an entry. -/
def row (selected : Bool) (entry : Entry) : List Span :=
  let name := if entry.origin = .included then Theme.comment else Theme.text
  let highlight (style : Style) : Style :=
    if selected then style.patch (Style.bg Theme.selection).emphasized else style
  [⟨if entry.notes.isEmpty then "  " else "@ ", highlight (.fg Theme.note)⟩,
    ⟨Text.padRight 12 entry.kind, highlight (.fg (Theme.kind entry.kind))⟩,
    ⟨entry.name, highlight (.fg name)⟩]

/-- The offset at which the entries are shown. -/
def scroll (entryCount selected visible offset : Nat) : Nat :=
  if entryCount = 0 then offset
  else clampScroll (followSelection offset selected visible) entryCount visible

/-- Draws the list of entries. -/
def draw (screen : Screen) (area : Area) (entries : List Entry) (selected : Nat) (focused : Bool)
    (offset : Nat) : Screen × Nat :=
  let visible := visibleRows area
  let offset := scroll entries.length selected visible offset
  if entries.isEmpty then
    (drawEmpty screen area focused " Units " "(no declarations)" Theme.comment, offset)
  else
    let rows := entries.mapIdx fun index entry => row (index == selected) entry
    ((screen.border area (borderStyle focused) " Units ").writeLines area.inner
      ((rows.drop offset).take visible), offset)

end Units

namespace Detail

/-- A heading. -/
def heading (text : String) : List Span :=
  [⟨text, (Style.fg Theme.secondary).emphasized⟩]

/-- The rows about an entry. -/
def rows (entry : Entry) : List (List Span) :=
  let origin := match entry.origin with
    | .input => "input file"
    | .included => "included"
  [[⟨entry.kind ++ " ", .fg Theme.keyword⟩, ⟨entry.name, (Style.fg Theme.function).emphasized⟩],
    [⟨entry.place ++ " (" ++ origin ++ ")", .fg Theme.comment⟩], []] ++
    (if entry.notes.isEmpty then []
      else [heading "Annotations"] ++
        entry.notes.map (fun note => [⟨"  " ++ note, Style.fg Theme.note⟩]) ++ [[]]) ++
    (if entry.details.isEmpty then []
      else [heading "Details"] ++
        entry.details.map (fun detail => ⟨"  ", .plain⟩ :: highlight detail) ++ [[]]) ++
    (match entry.preview with
      | some preview => [heading "Generated"] ++ (Text.lines preview).map highlight
      | none => [])

/-- The offset at which the details are shown. -/
def scroll (entry : Option Entry) (visible offset : Nat) : Nat :=
  match entry with
  | some entry => clampScroll offset (rows entry).length visible
  | none => offset

/-- Draws the details of an entry. -/
def draw (screen : Screen) (area : Area) (entry : Option Entry) (focused : Bool) (offset : Nat) :
    Screen × Nat :=
  let screen := screen.border area (borderStyle focused) " Detail "
  let visible := visibleRows area
  let offset := scroll entry visible offset
  let shown := match entry with
    | some entry => ((rows entry).drop offset).take visible
    | none => [[⟨"(nothing selected)", .fg Theme.comment⟩]]
  (screen.writeLines area.inner (shown.map (·.map Span.withoutBreaks)), offset)

end Detail

namespace Diagnostics

/-- The row of an error. -/
def row (diagnostic : Diagnostic) : List Span :=
  [match diagnostic.subject with
    | none => ⟨"parse ", .fg Theme.error⟩
    | some _ => ⟨"decl  ", .fg Theme.secondary⟩,
    ⟨diagnostic.text, .fg Theme.text⟩]

/-- The offset at which the errors are shown. -/
def scroll (errorCount visible offset : Nat) : Nat :=
  if errorCount = 0 then offset else clampScroll offset errorCount visible

/-- Draws the errors. -/
def draw (screen : Screen) (area : Area) (errors : List Diagnostic) (focused : Bool)
    (offset : Nat) : Screen × Nat :=
  let title := " Diagnostics (" ++ toString errors.length ++ ") "
  let visible := visibleRows area
  let offset := scroll errors.length visible offset
  if errors.isEmpty then
    (drawEmpty screen area focused title "(no errors)" Theme.success, offset)
  else
    ((screen.border area (borderStyle focused) title).writeLines area.inner
      (((errors.map row).drop offset).take visible), offset)

end Diagnostics

namespace Status

/-- The keys that the status bar explains. -/
def hints : List (String × String) := [("↑/↓", "select/scroll"), ("⇥", "focus"), ("q", "quit")]

/-- The explanation of a key. -/
def hint (key action : String) : List Span :=
  [⟨" " ++ key ++ " ", (Style.bg Theme.comment).patch (.fg .black)⟩,
    ⟨" " ++ action ++ " ", (Style.bg Theme.selection).patch (.fg Theme.text)⟩]

/-- The explanations of the keys with bars between them. -/
def hintRow : List Span :=
  let bar : List Span := [⟨"│ ", (Style.bg Theme.selection).patch (.fg Theme.comment)⟩]
  bar.intercalate (hints.map fun (key, action) => hint key action)

/-- The counts and the message. -/
def row (message : String) (files units errors : Nat) : List Span :=
  let badge := if 0 < errors then Theme.error else Theme.primary
  [⟨" " ++ toString files ++ " files | " ++ toString units ++ " units | " ++ toString errors ++
      " errors ", ((Style.bg badge).patch (.fg .black)).emphasized⟩,
    ⟨" " ++ message ++ " ", (Style.bg Theme.selection).patch (.fg Theme.text)⟩]

/-- Draws the status bar: the counts in the left half, the keys in the right half. -/
def draw (screen : Screen) (area : Area) (message : String) (files units errors : Nat) : Screen :=
  let left : Area := { area with width := (area.width + 1) / 2 }
  let right : Area := ⟨area.left + left.width, area.top, area.width - left.width, area.height⟩
  let screen := screen.paint area (.bg Theme.selection)
  let shown := (row message files units errors).map Span.withoutBreaks
  let screen := screen.writeLeft (left.row 0) shown
  screen.writeRight (right.row 0) hintRow

end Status

/-- The parts of the screen. -/
structure Layout where
  units : Area
  diagnostics : Area
  detail : Area
  status : Area
deriving DecidableEq, Repr

/-- The parts of a screen of the given size: the status bar in the last row, above it the details at
the right, and at the left the entries over the errors. -/
def Layout.of (width height : Nat) : Layout :=
  let rows := height - 1
  let left := (35 * width + 50) / 100
  let upper := (70 * rows + 50) / 100
  { units := ⟨0, 0, left, upper⟩
    diagnostics := ⟨0, upper, left, rows - upper⟩
    detail := ⟨left, 0, width - left, rows⟩
    status := ⟨0, rows, width, height - rows⟩ }

/-- Draws the parts of the inspector on a screen. The state behind the drawing has the offsets at
which the panes are shown. -/
def State.drawIn (state : State) (screen : Screen) (layout : Layout) : Screen × State :=
  let focused (focus : Focus) : Bool := state.focus == focus
  let (screen, units) := Units.draw screen layout.units state.entries state.selected
    (focused .units) state.scrolls.units
  let (screen, diagnostics) := Diagnostics.draw screen layout.diagnostics state.errors
    (focused .diagnostics) state.scrolls.diagnostics
  let (screen, detail) := Detail.draw screen layout.detail state.selected? (focused .detail)
    state.scrolls.detail
  let screen := Status.draw screen layout.status state.status state.inputCount
    state.entries.length state.errors.length
  (screen, { state with scrolls := ⟨units, detail, diagnostics⟩ })

/-- The screen of the inspector in the given size, and the state behind the drawing. -/
def State.draw (state : State) (width height : Nat) : Screen × State :=
  state.drawIn (Screen.blank width height) (Layout.of width height)

end RemoteCalls.Inspector
