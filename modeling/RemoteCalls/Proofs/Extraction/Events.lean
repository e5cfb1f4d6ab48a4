import RemoteCalls.Proofs.Catalog.Histories
import RemoteCalls.Proofs.Extraction.Policies

/-!
# The events of a run

A run is a row of events: declarations and reports, and headers that are refused or entered. If no
error stops it, all that it leaves can be read from its events: the declarations are added to the
catalog in order, and the reports are those of the events and of refused declarations.
-/

namespace RemoteCalls

/-- What a run comes across that makes a difference to it. A header that is refused counts as met
like one that is entered. -/
inductive Event where
  | declared (d : Declaration)
  | reported (diagnostic : Diagnostic)
  | refused (header : Path) (diagnostic : Diagnostic)
  | entered (header : Path)

namespace Event

/-- The header that is met. -/
def header? : Event → Option Path
  | refused header _ | entered header => some header
  | _ => none

/-- The header that is met and read. -/
def entered? : Event → Option Path
  | entered header => some header
  | _ => none

/-- The declaration that is taken in. -/
def declared? : Event → Option Declaration
  | declared d => some d
  | _ => none

/-- The headers that are met. -/
def headers (events : List Event) : List Path := events.filterMap header?

/-- The headers that are read. -/
def entries (events : List Event) : List Path := events.filterMap entered?

/-- The declarations that are taken in. -/
def declarations (events : List Event) : List Declaration := events.filterMap declared?

/-- The paths that have been met behind some events, the last one first. -/
def behind (events : List Event) (visited : List Path) : List Path :=
  (headers events).reverse ++ visited

/-- What is reported at an event. A declaration is reported if the catalog refuses it. -/
def complaints (catalog : Catalog) : Event → List Diagnostic
  | declared d => (catalog.add d).2.toList
  | reported diagnostic | refused _ diagnostic => [diagnostic]
  | entered _ => []

/-- What is reported at events in a row, where each declaration is added to the catalog. -/
def reports (catalog : Catalog) : List Event → List Diagnostic
  | [] => []
  | event :: events =>
    event.complaints catalog ++ reports (catalog.addAll event.declared?.toList) events

theorem filterMap_cons_toList {α : Type} (part? : Event → Option α) (event : Event)
    (events : List Event) :
    (event :: events).filterMap part? = (part? event).toList ++ events.filterMap part? := by
  cases h : part? event with
  | none => simp [h]
  | some a => simp [h]

@[simp] theorem entries_nil : entries [] = [] := rfl

@[simp] theorem declarations_nil : declarations [] = [] := rfl

@[simp] theorem reports_nil (catalog : Catalog) : reports catalog [] = [] := rfl

theorem headers_cons (event : Event) (events : List Event) :
    headers (event :: events) = event.header?.toList ++ headers events :=
  filterMap_cons_toList header? event events

theorem entries_cons (event : Event) (events : List Event) :
    entries (event :: events) = event.entered?.toList ++ entries events :=
  filterMap_cons_toList entered? event events

theorem declarations_cons (event : Event) (events : List Event) :
    declarations (event :: events) = event.declared?.toList ++ declarations events :=
  filterMap_cons_toList declared? event events

@[simp] theorem behind_nil (visited : List Path) : behind [] visited = visited := rfl

theorem behind_append (front rest : List Event) (visited : List Path) :
    behind (front ++ rest) visited = behind rest (behind front visited) := by
  simp [behind, headers]

theorem behind_cons (event : Event) (rest : List Event) (visited : List Path) :
    behind (event :: rest) visited = behind rest (event.header?.toList ++ visited) := by
  have hreverse : event.header?.toList.reverse = event.header?.toList := by
    cases event.header? <;> rfl
  rw [behind, headers_cons, List.reverse_append, hreverse, List.append_assoc, behind]

end Event

/-- A run that goes on in a header. -/
def Run.enter (run : Run) (header : Path) : Run :=
  { run with
    visited := header :: run.visited
    report := { run.report with included := run.report.included ++ [header] } }

/-- A run behind an event. -/
def Run.meet (policy : ErrorPolicy) (run : Run) : Event → Except Stopped Run
  | .declared d => run.declare policy d
  | .reported diagnostic => run.fail policy diagnostic
  | .refused header diagnostic =>
    { run with visited := header :: run.visited }.fail policy diagnostic
  | .entered header => .ok (run.enter header)

/-- The catalog with other reports. -/
def Catalog.withErrors (catalog : Catalog) (errors : List Diagnostic) : Catalog :=
  { catalog with errors := errors }

/-- The report with more declarations. -/
def Report.noteAll (report : Report) (ds : List Declaration) : Report := ds.foldl note report

namespace Catalog

variable (catalog : Catalog)

@[simp] theorem addAll_nil : catalog.addAll [] = catalog := rfl

theorem addAll_append (ds more : List Declaration) :
    catalog.addAll (ds ++ more) = (catalog.addAll ds).addAll more := List.foldl_append

@[simp] theorem errors_withErrors (errors : List Diagnostic) :
    (catalog.withErrors errors).errors = errors := rfl

@[simp] theorem withErrors_withErrors (errors more : List Diagnostic) :
    (catalog.withErrors errors).withErrors more = catalog.withErrors more := rfl

/-- Reports do not matter for what is added. -/
theorem add_withErrors (errors : List Diagnostic) (d : Declaration) :
    (catalog.withErrors errors).add d =
      ((catalog.add d).1.withErrors errors, (catalog.add d).2) := by
  cases d with
  | placeholder p =>
    cases hknown : catalog.placeholders.any fun known => known.same p with
    | true => simp [Catalog.add, withErrors, hknown]
    | false => simp [Catalog.add, withErrors, hknown]
  | _ => rfl

theorem addAll_withErrors (errors : List Diagnostic) (ds : List Declaration) :
    (catalog.withErrors errors).addAll ds = (catalog.addAll ds).withErrors errors := by
  induction ds generalizing catalog with
  | nil => rfl
  | cons d ds ih =>
    change ((catalog.withErrors errors).add d).1.addAll ds = _
    rw [add_withErrors]
    exact ih (catalog.add d).1

theorem reports_withErrors (errors : List Diagnostic) (events : List Event) :
    Event.reports (catalog.withErrors errors) events = Event.reports catalog events := by
  induction events generalizing catalog with
  | nil => rfl
  | cons event events ih =>
    have hcomplaints : event.complaints (catalog.withErrors errors) = event.complaints catalog := by
      cases event with
      | declared d => simp only [Event.complaints, add_withErrors]
      | _ => rfl
    rw [Event.reports, Event.reports, hcomplaints, addAll_withErrors, ih]

end Catalog

@[simp] theorem Report.noteAll_nil (report : Report) : report.noteAll [] = report := rfl

theorem Report.noteAll_append (report : Report) (ds more : List Declaration) :
    report.noteAll (ds ++ more) = (report.noteAll ds).noteAll more := List.foldl_append

/-- A declaration is noted by name, whatever else has been found. -/
theorem Report.noteAll_with (report : Report) (included : List Path) (errors : List Diagnostic)
    (ds : List Declaration) :
    ({ report with included := included, errors := errors } : Report).noteAll ds =
      { report.noteAll ds with included := included, errors := errors } := by
  induction ds generalizing report with
  | nil => rfl
  | cons d ds ih =>
    have hnote : ({ report with included := included, errors := errors } : Report).note d =
        { report.note d with included := included, errors := errors } := by cases d <;> rfl
    change (({ report with included := included, errors := errors } : Report).note d).noteAll ds = _
    rw [hnote]
    exact ih (report.note d)

/-- What a run leaves if nothing stops it. -/
def Run.behind (run : Run) (events : List Event) : Run :=
  let new := Event.reports run.catalog events
  { catalog := (run.catalog.addAll (Event.declarations events)).withErrors
      (run.catalog.errors ++ new)
    report := { run.report.noteAll (Event.declarations events) with
      included := run.report.included ++ Event.entries events
      errors := run.report.errors ++ new }
    visited := Event.behind events run.visited }

namespace Run

variable {policy : ErrorPolicy} {run later : Run}

/-- What is left by a first event is what the others begin with. -/
theorem behind_cons (run : Run) (event : Event) (events : List Event) :
    run.behind (event :: events) = (run.behind [event]).behind events := by
  simp only [behind, Event.reports, Event.declarations_cons, Event.declarations_nil,
    Event.entries_cons, Event.entries_nil, Event.behind_cons, Event.behind_nil,
    Catalog.addAll_append, Catalog.addAll_withErrors, Catalog.reports_withErrors,
    Catalog.withErrors_withErrors, Catalog.errors_withErrors, Report.noteAll_append,
    Report.noteAll_with, List.append_assoc, List.append_nil]

/-- What is left by one event. -/
theorem behind_singleton (run : Run) (event : Event) :
    run.behind [event] =
      ⟨(run.catalog.addAll event.declared?.toList).withErrors
          (run.catalog.errors ++ event.complaints run.catalog),
        { run.report.noteAll event.declared?.toList with
          included := run.report.included ++ event.entered?.toList
          errors := run.report.errors ++ event.complaints run.catalog },
        event.header?.toList ++ run.visited⟩ := by
  simp only [behind, Event.reports, Event.declarations_cons, Event.declarations_nil,
    Event.entries_cons, Event.entries_nil, Event.behind_cons, Event.behind_nil, List.append_nil]

/-- A declaration is reported if the catalog refuses it. -/
theorem declare_skip (run : Run) (d : Declaration) :
    run.declare .skip d = .ok
      ⟨(run.catalog.add d).1.withErrors (run.catalog.errors ++ (run.catalog.add d).2.toList),
        { run.report.note d with
          errors := run.report.errors ++ (run.catalog.add d).2.toList }, run.visited⟩ := by
  have herrors := Catalog.errors_add run.catalog d
  have hreport := Report.errors_note run.report d
  unfold declare
  cases hadd : run.catalog.add d with
  | mk catalog conflict =>
    rw [hadd] at herrors
    change catalog.errors = run.catalog.errors at herrors
    rw [← herrors, ← hreport]
    cases conflict with
    | none =>
      simp only [Option.toList_none, List.append_nil]
      rfl
    | some diagnostic => rfl

/-- Under the policy `skip` an event does not stop a run. -/
theorem meet_skip (run : Run) (event : Event) :
    run.meet .skip event = .ok (run.behind [event]) := by
  rw [behind_singleton]
  cases event with
  | declared d =>
    have hincluded : (run.report.note d).included = run.report.included ++ [] := by
      rw [List.append_nil]
      cases d <;> rfl
    rw [meet, declare_skip]
    change _ = Except.ok (Run.mk _ { run.report.note d with
      included := run.report.included ++ []
      errors := _ } _)
    rw [← hincluded]
    rfl
  | reported diagnostic =>
    simp only [Event.entered?, Option.toList_none, List.append_nil]
    rfl
  | refused header diagnostic =>
    simp only [Event.entered?, Option.toList_none, List.append_nil]
    rfl
  | entered header =>
    simp only [Event.complaints, List.append_nil]
    rfl

theorem behind_nil (run : Run) : run.behind [] = run := by
  simp [behind, Event.declarations, Event.entries, Catalog.withErrors]

/-- A policy matters only for what stops a run. -/
theorem meet_skip_of_ok {event : Event} (h : run.meet policy event = .ok later) :
    run.meet .skip event = .ok later := by
  cases policy with
  | skip => exact h
  | abort =>
    cases event with
    | declared d =>
      change run.declare .abort d = .ok later at h
      change run.declare .skip d = .ok later
      unfold declare at h ⊢
      cases hadd : run.catalog.add d with
      | mk catalog conflict =>
        rw [hadd] at h
        cases conflict with
        | none => exact h
        | some diagnostic => cases h
    | entered header => exact h
    | _ => cases h

/-- A run that nothing stops leaves what its events say. -/
theorem eq_behind_of_foldlM {events : List Event}
    (h : events.foldlM (Run.meet policy) run = .ok later) : later = run.behind events := by
  induction events generalizing run with
  | nil =>
    cases h
    rw [behind_nil]
  | cons event events ih =>
    rw [List.foldlM_cons] at h
    cases hmeet : run.meet policy event with
    | error stopped =>
      rw [hmeet] at h
      cases h
    | ok middle =>
      rw [hmeet] at h
      have hskip := meet_skip_of_ok hmeet
      rw [meet_skip] at hskip
      cases hskip
      rw [behind_cons]
      exact ih h

/-- Under the policy `skip` nothing stops a run. -/
theorem foldlM_meet_skip (run : Run) (events : List Event) :
    events.foldlM (Run.meet .skip) run = .ok (run.behind events) := by
  induction events generalizing run with
  | nil =>
    rw [behind_nil]
    rfl
  | cons event events ih =>
    rw [List.foldlM_cons, meet_skip, behind_cons run event events]
    exact ih (run.behind [event])

/-- What has been met is what the events say. -/
theorem visited_foldlM_meet {events : List Event}
    (h : events.foldlM (Run.meet policy) run = .ok later) :
    later.visited = Event.behind events run.visited := by
  rw [eq_behind_of_foldlM h]
  rfl

end Run

end RemoteCalls
