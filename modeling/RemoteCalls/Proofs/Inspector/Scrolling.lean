import RemoteCalls.Extraction
import RemoteCalls.Inspector.Panes
import Mathlib.Data.Nat.PSub

/-!
# The selection stays valid and in view

The inspector goes through keys and drawings in any order, and its panes have any size whenever they
are drawn. The selected entry is always one of the entries, and behind each drawing it is among the
rows that are shown. No pane is scrolled further than its last row needs. All differences that are
taken on the way are differences of a larger and a smaller number.
-/

namespace RemoteCalls.Inspector

/-! ## Keys and drawings -/

/-- What happens to the inspector: a key is pressed, it is drawn in some size, or it is drawn with
parts of any sizes. -/
inductive Event where
  | press (key : Key)
  | draw (width height : Nat)
  | drawIn (screen : Screen) (layout : Layout)

namespace State

/-- The state behind an event. -/
def after (state : State) : Event → State
  | .press key => state.press key
  | .draw width height => (state.draw width height).2
  | .drawIn screen layout => (state.drawIn screen layout).2

/-- The state behind some events in order. -/
def run (state : State) (events : List Event) : State :=
  events.foldl after state

end State

theorem Units.snd_draw (screen : Screen) (area : Area) (entries : List Entry) (selected : Nat)
    (focused : Bool) (offset : Nat) :
    (draw screen area entries selected focused offset).2 =
      scroll entries.length selected (visibleRows area) offset := by
  unfold draw
  dsimp only
  split <;> rfl

theorem Diagnostics.snd_draw (screen : Screen) (area : Area) (errors : List Diagnostic)
    (focused : Bool) (offset : Nat) :
    (draw screen area errors focused offset).2 = scroll errors.length (visibleRows area) offset := by
  unfold draw
  dsimp only
  split <;> rfl

/-- A drawing changes nothing but the offsets, and each of them as its pane says. -/
theorem State.snd_drawIn (state : State) (screen : Screen) (layout : Layout) :
    (state.drawIn screen layout).2 = { state with scrolls :=
      { units := Units.scroll state.entries.length state.selected (visibleRows layout.units)
          state.scrolls.units
        diagnostics := Diagnostics.scroll state.errors.length (visibleRows layout.diagnostics)
          state.scrolls.diagnostics
        detail := Detail.scroll state.selected? (visibleRows layout.detail)
          state.scrolls.detail } } := by
  simp only [drawIn, Units.snd_draw, Diagnostics.snd_draw]
  rfl

/-! ## Differences

The same once more, with differences that do not exist where the smaller number is in front. -/

/-- An offset within what can be scrolled; the difference is taken if there are more rows than are
shown. -/
def clampScroll? (offset total visible : Nat) : Option Nat :=
  if visible < total then (total.psub visible).map (min offset) else some 0

/-- The offset that shows the selected row. -/
def followSelection? (offset selected visible : Nat) : Option Nat :=
  if selected < offset then some selected
  else if offset + visible ≤ selected then (selected + 1).psub visible
  else some offset

/-- The offset at which the entries are shown. -/
def Units.scroll? (entryCount selected visible offset : Nat) : Option Nat :=
  if entryCount = 0 then some offset
  else (followSelection? offset selected visible).bind (clampScroll? · entryCount visible)

/-- The offset at which the details are shown. -/
def Detail.scroll? (entry : Option Entry) (visible offset : Nat) : Option Nat :=
  match entry with
  | some entry => clampScroll? offset (rows entry).length visible
  | none => some offset

/-- The offset at which the errors are shown. -/
def Diagnostics.scroll? (errorCount visible offset : Nat) : Option Nat :=
  if errorCount = 0 then some offset else clampScroll? offset errorCount visible

namespace State

/-- The state behind a drawing in the parts of a screen, if all differences exist. -/
def drawIn? (state : State) (layout : Layout) : Option State := do
  let units ← Units.scroll? state.entries.length state.selected (visibleRows layout.units)
    state.scrolls.units
  let diagnostics ← Diagnostics.scroll? state.errors.length (visibleRows layout.diagnostics)
    state.scrolls.diagnostics
  let detail ← Detail.scroll? state.selected? (visibleRows layout.detail) state.scrolls.detail
  return { state with scrolls := ⟨units, detail, diagnostics⟩ }

/-- The state behind a key, if all differences exist. Offsets stop at zero by themselves. -/
def press? (state : State) (key : Key) : Option State :=
  match key, state.focus with
  | .up, .units =>
    if 0 < state.selected then (state.selected.psub 1).map state.select else some state
  | .end_, .units =>
    if state.entries ≠ [] then (state.entries.length.psub 1).map state.select else some state
  | key, _ => some (state.press key)

/-- The state behind an event, if all differences exist. -/
def after? (state : State) : Event → Option State
  | .press key => state.press? key
  | .draw width height => state.drawIn? (Layout.of width height)
  | .drawIn _ layout => state.drawIn? layout

/-- The state behind some events, if all differences exist. -/
def run? (state : State) (events : List Event) : Option State :=
  events.foldlM after? state

end State

theorem psub_of_le {m n : Nat} (h : n ≤ m) : m.psub n = some (m - n) :=
  Nat.psub_eq_sub h

theorem clampScroll?_eq (offset total visible : Nat) :
    clampScroll? offset total visible = some (clampScroll offset total visible) := by
  unfold clampScroll? clampScroll
  split
  · next h => rw [psub_of_le (Nat.le_of_lt h), Option.map_some]
  · next h => rw [Nat.sub_eq_zero_of_le (Nat.le_of_not_lt h), Nat.min_zero]

theorem followSelection?_eq (offset selected visible : Nat) :
    followSelection? offset selected visible = some (followSelection offset selected visible) := by
  unfold followSelection? followSelection
  split
  · rfl
  · split
    · exact psub_of_le (by omega)
    · rfl

namespace State

variable (state : State)

theorem drawIn?_eq (screen : Screen) (layout : Layout) :
    state.drawIn? layout = some (state.drawIn screen layout).2 := by
  have hunits : ∀ count visible offset, Units.scroll? count state.selected visible offset =
      some (Units.scroll count state.selected visible offset) := by
    intro count visible offset
    unfold Units.scroll? Units.scroll
    split
    · rfl
    · rw [followSelection?_eq, Option.bind_some, clampScroll?_eq]
  have hdiagnostics : ∀ count visible offset, Diagnostics.scroll? count visible offset =
      some (Diagnostics.scroll count visible offset) := by
    intro count visible offset
    unfold Diagnostics.scroll? Diagnostics.scroll
    split
    · rfl
    · rw [clampScroll?_eq]
  have hdetail : ∀ entry visible offset, Detail.scroll? entry visible offset =
      some (Detail.scroll entry visible offset) := by
    intro entry visible offset
    cases entry with
    | none => rfl
    | some entry => exact clampScroll?_eq _ _ _
  rw [drawIn?, hunits, hdiagnostics, hdetail, snd_drawIn]
  rfl

theorem press?_eq (key : Key) : state.press? key = some (state.press key) := by
  unfold press?
  split
  · next hfocus =>
    split
    · next h =>
      rw [psub_of_le h]
      simp [press, up, hfocus, h]
    · next h => simp [press, up, hfocus, h]
  · next hfocus =>
    split
    · next h =>
      rw [psub_of_le (List.length_pos_iff.mpr h)]
      simp [press, jump, hfocus, h]
    · next h => simp [press, jump, h]
  · rfl

/-- No difference is ever taken of a smaller and a larger number. -/
theorem run?_eq (events : List Event) : state.run? events = some (state.run events) := by
  induction events generalizing state with
  | nil => rfl
  | cons event events ih =>
    have hafter : state.after? event = some (state.after event) := by
      cases event with
      | press key => exact state.press?_eq key
      | draw width height => exact state.drawIn?_eq _ _
      | drawIn screen layout => exact state.drawIn?_eq screen layout
    rw [run?, List.foldlM_cons, hafter]
    exact ih (state.after event)

end State

/-! ## The selection -/

namespace State

variable {state : State}

/-- The selected entry is one of the entries. -/
def Valid (state : State) : Prop := state.selected < state.entries.length

@[simp] theorem entries_select (state : State) (index : Nat) :
    (state.select index).entries = state.entries := rfl

@[simp] theorem selected_select (state : State) (index : Nat) :
    (state.select index).selected = index := rfl

theorem Valid.select {index : Nat} (h : index < state.entries.length) :
    (state.select index).Valid := h

theorem Valid.up (h : state.Valid) : state.up.Valid := by
  unfold State.up
  split
  · split
    · exact .select (Nat.lt_of_le_of_lt (Nat.sub_le _ _) h)
    · exact h
  · exact h
  · exact h

theorem Valid.down (h : state.Valid) : state.down.Valid := by
  unfold State.down
  split
  · split
    · next hnext => exact .select hnext
    · exact h
  · exact h
  · exact h

theorem Valid.jump (h : state.Valid) {index : Nat} (hindex : index < state.entries.length) :
    (state.jump index).Valid := by
  unfold State.jump
  split
  · exact .select hindex
  · exact h

/-- A key leaves the selection valid. -/
theorem Valid.press (h : state.Valid) (key : Key) : (state.press key).Valid := by
  have hpos : 0 < state.entries.length := Nat.zero_lt_of_lt h
  cases key with
  | up => exact h.up
  | down => exact h.down
  | home => exact h.jump hpos
  | end_ => exact h.jump (Nat.sub_lt hpos Nat.one_pos)
  | tab | backTab | escape | enter => exact h
  | character c =>
    unfold State.press
    split <;> first | exact h | contradiction

/-- A drawing leaves the selection where it is. -/
theorem Valid.drawIn (h : state.Valid) (screen : Screen) (layout : Layout) :
    (state.drawIn screen layout).2.Valid := by
  rw [snd_drawIn]
  exact h

/-- Whatever happens, the selection stays valid. -/
theorem Valid.run (h : state.Valid) (events : List Event) : (state.run events).Valid := by
  induction events generalizing state with
  | nil => exact h
  | cons event events ih =>
    cases event with
    | press key => exact ih (h.press key)
    | draw width height => exact ih (h.drawIn _ _)
    | drawIn screen layout => exact ih (h.drawIn screen layout)

end State

/-! ## What is shown -/

/-- An offset is in range: all rows are shown from the first on if they fit, and otherwise there are
rows enough behind the offset. -/
structure InRange (offset total visible : Nat) : Prop where
  fits : total ≤ visible → offset = 0
  reaches : visible < total → offset + visible ≤ total

theorem inRange_clampScroll (offset total visible : Nat) :
    InRange (clampScroll offset total visible) total visible := by
  unfold clampScroll
  constructor <;> omega

/-- A row is among those that are shown. -/
def InView (offset visible row : Nat) : Prop := offset ≤ row ∧ row < offset + visible

theorem inView_followSelection (offset selected : Nat) {visible : Nat} (h : 0 < visible) :
    InView (followSelection offset selected visible) visible selected := by
  unfold followSelection InView
  split
  · omega
  · split <;> omega

/-- An offset that is brought into range shows each row that it showed before. -/
theorem InView.clampScroll {offset visible row total : Nat} (h : InView offset visible row)
    (hrow : row < total) : InView (clampScroll offset total visible) visible row := by
  unfold InView Inspector.clampScroll at *
  omega

theorem visibleRows_pos (area : Area) : 0 < visibleRows area :=
  Nat.lt_of_lt_of_le Nat.one_pos (Nat.le_max_right _ _)

/-- All panes are scrolled as they should be: the selected entry is shown, and no pane is scrolled
further than its last row needs. -/
structure Settled (state : State) (layout : Layout) : Prop where
  selection : InView state.scrolls.units (visibleRows layout.units) state.selected
  units : InRange state.scrolls.units state.entries.length (visibleRows layout.units)
  detail : ∀ entry ∈ state.selected?,
    InRange state.scrolls.detail (Detail.rows entry).length (visibleRows layout.detail)
  diagnostics : state.errors ≠ [] →
    InRange state.scrolls.diagnostics state.errors.length (visibleRows layout.diagnostics)

/-- Behind a drawing all panes are scrolled as they should be. -/
theorem State.Valid.settled {state : State} (h : state.Valid) (screen : Screen) (layout : Layout) :
    Settled (state.drawIn screen layout).2 layout := by
  rw [snd_drawIn]
  have hunits : Units.scroll state.entries.length state.selected (visibleRows layout.units)
      state.scrolls.units =
        clampScroll (followSelection state.scrolls.units state.selected (visibleRows layout.units))
          state.entries.length (visibleRows layout.units) :=
    if_neg (Nat.ne_zero_of_lt h)
  refine ⟨?_, ?_, ?_, ?_⟩
  · dsimp only
    rw [hunits]
    exact (inView_followSelection _ _ (visibleRows_pos _)).clampScroll h
  · dsimp only
    rw [hunits]
    exact inRange_clampScroll _ _ _
  · intro entry hentry
    have hselected : state.selected? = some entry := hentry
    dsimp only
    rw [hselected]
    exact inRange_clampScroll _ _ _
  · intro herrors
    have hdiagnostics : Diagnostics.scroll state.errors.length (visibleRows layout.diagnostics)
        state.scrolls.diagnostics =
          clampScroll state.scrolls.diagnostics state.errors.length
            (visibleRows layout.diagnostics) :=
      if_neg fun hlength => herrors (List.length_eq_zero_iff.mp hlength)
    dsimp only
    rw [hdiagnostics]
    exact inRange_clampScroll _ _ _

/-- In the inspector of a catalog with at least one entry the selection stays valid whatever keys are
pressed and however large the inspector and its panes are when they are drawn. Behind each drawing the
selected entry is shown and no pane is scrolled too far. All differences that are taken exist. -/
theorem selection_in_view (catalog : Catalog) (h : Entry.ofCatalog catalog ≠ [])
    (events : List Event) :
    let state := (State.ofCatalog catalog).run events
    (State.ofCatalog catalog).run? events = some state ∧ state.Valid ∧
      (∀ width height, Settled (state.draw width height).2 (Layout.of width height)) ∧
      (∀ screen layout, Settled (state.drawIn screen layout).2 layout) ∧
      ∀ area, 0 < visibleRows area := by
  intro state
  have hstart : (State.ofCatalog catalog).Valid := List.length_pos_iff.mpr h
  have hrun : state.Valid := hstart.run events
  exact ⟨State.run?_eq _ events, hrun, fun width height => hrun.settled _ _, hrun.settled,
    visibleRows_pos⟩

/-- Four entries, of which the last is selected and drawn in few rows; then the first is selected
again and drawn in fewer. -/
theorem selection_in_view_of_resize :
    let catalog := (Catalog.empty.extractText .empty (.ofMarkers ["RPC"]) ⟨"a.c"⟩
      "int a; int b; int c; int d; int 5;").2
    let events : List Event := [.press .end_, .draw 40 7, .press .tab, .press .down,
      .draw 100 30, .press .backTab, .press .home]
    let state := (State.ofCatalog catalog).run events
    Entry.ofCatalog catalog ≠ [] ∧
      (State.ofCatalog catalog).run? events = some state ∧ state.Valid ∧
      (∀ width height, Settled (state.draw width height).2 (Layout.of width height)) ∧
      (∀ screen layout, Settled (state.drawIn screen layout).2 layout) ∧
      ∀ area, 0 < visibleRows area := by
  intro catalog events
  have hentries : Entry.ofCatalog catalog ≠ [] := by decide +kernel
  exact ⟨hentries, selection_in_view catalog hentries events⟩

end RemoteCalls.Inspector
