import RemoteCalls.Proofs.Catalog.Absorption
import RemoteCalls.Proofs.Extraction.Headers
import RemoteCalls.Proofs.Extraction.Sessions

/-!
# Runs that are repeated

The events of a run do not depend on the catalog. The catalog behind a run absorbs all declarations
of its events, so that the same run on this catalog changes nothing and reports the same errors.
-/

namespace RemoteCalls

namespace Catalog

/-- A catalog that absorbs what another one absorbs behind some events absorbs these events: the
same is reported, and nothing changes. -/
theorem WellFormed.replay {catalog later : Catalog} (h : catalog.WellFormed) {events : List Event}
    (hfound : ∀ d ∈ Event.declarations events, d.DefinedInPlace)
    (hlater : ∀ d complaint, (catalog.addAll (Event.declarations events)).Absorbs d complaint →
      later.Absorbs d complaint) :
    Event.reports later events = Event.reports catalog events ∧
      later.addAll (Event.declarations events) = later := by
  induction events generalizing catalog with
  | nil => exact ⟨rfl, rfl⟩
  | cons event events ih =>
    rw [Event.declarations_cons] at hfound hlater ⊢
    rw [addAll_append] at hlater ⊢
    obtain ⟨hfront, hbehind⟩ := List.forall_mem_append.mp hfound
    have hmiddle := h.addAll hfront
    have hevent : event.complaints later = event.complaints catalog ∧
        later.addAll event.declared?.toList = later := by
      cases event with
      | declared d =>
        have hd := hfront d (List.mem_singleton_self d)
        have hadd := (hlater d _ (hmiddle.absorbs_addAll hbehind (h.absorbs_add hd))).add
        exact ⟨congrArg (·.2.toList) hadd, congrArg Prod.fst hadd⟩
      | _ => exact ⟨rfl, rfl⟩
    obtain ⟨hreports, hsame⟩ := ih hmiddle hbehind hlater
    rw [Event.reports, Event.reports, hevent.1, hevent.2, hreports]
    exact ⟨rfl, hsame⟩

/-- What the reports are does not matter for what is absorbed. -/
theorem absorbs_withErrors {catalog : Catalog} {errors : List Diagnostic} {d : Declaration}
    {complaint : Option Diagnostic} :
    (catalog.withErrors errors).Absorbs d complaint ↔ catalog.Absorbs d complaint := by
  cases d <;> rfl

/-- Declarations leave the input files alone. -/
theorem inputs_addAll (catalog : Catalog) (ds : List Declaration) :
    (catalog.addAll ds).inputs = catalog.inputs := by
  induction ds generalizing catalog with
  | nil => rfl
  | cons d ds ih =>
    have hadd : (catalog.add d).1.inputs = catalog.inputs := by
      cases d with
      | placeholder p =>
        simp only [Catalog.add]
        split <;> rfl
      | _ => rfl
    exact (ih (catalog.add d).1).trans hadd

/-- An input file is known behind itself. -/
theorem addInput_of_inputs {catalog later : Catalog} {file : Path}
    (h : later.inputs = (catalog.addInput file).inputs) : later.addInput file = later := by
  have hknown : later.inputs.any (fun known => known.same file) = true := by
    rw [h]
    unfold addInput
    split
    · next hknown => exact hknown
    · simp
  rw [addInput, if_pos hknown]

theorem wellFormed_session (calls : List Call) : (session calls).WellFormed :=
  (grows_foldl_run calls .empty).wellFormed wellFormed_empty

/-- Events that are met again leave the same report, and nothing new in the catalog but what they
report. -/
theorem WellFormed.behind_again {catalog : Catalog} (h : catalog.WellFormed) {events : List Event}
    (hfound : ∀ d ∈ Event.declarations events, d.DefinedInPlace) (files : Files) (file : Path) :
    let first := (catalog.runOver files file).behind events
    (first.catalog.runOver files file).behind events =
      { first with
        catalog := first.catalog.withErrors (first.catalog.errors ++ first.report.errors) } := by
  intro first
  have hcatalog : first.catalog = ((catalog.addInput file).addAll
      (Event.declarations events)).withErrors first.catalog.errors := rfl
  have hinput : first.catalog.addInput file = first.catalog := by
    refine addInput_of_inputs (show first.catalog.inputs = (catalog.addInput file).inputs from ?_)
    rw [hcatalog]
    exact inputs_addAll _ _
  have hlater : ∀ d complaint,
      ((catalog.addInput file).addAll (Event.declarations events)).Absorbs d complaint →
        first.catalog.Absorbs d complaint := by
    intro d complaint habsorbs
    rw [hcatalog]
    exact absorbs_withErrors.mpr habsorbs
  obtain ⟨hreports, hsame⟩ := (h.addInput file).replay hfound hlater
  have hstart : first.catalog.runOver files file =
      ⟨first.catalog, .empty file, [files.canonical file]⟩ := by rw [runOver, hinput]
  rw [hstart, Run.behind, hreports, hsame]
  rfl

/-- A run that is repeated on the catalog behind it has the same report, and adds nothing to the
catalog but the errors of the report once more. -/
theorem extractText_again (calls : List Call) (files : Files) (config : Configuration) (file : Path)
    (text : String) :
    let run (catalog : Catalog) :=
      catalog.extractText files (config.withPolicy .skip) file text
    let first := run (session calls)
    ∃ report, first.1 = .ok report ∧
      run first.2 = (.ok report, first.2.withErrors (first.2.errors ++ report.errors)) := by
  intro run first
  obtain ⟨events, hunfolds, hresult⟩ := exists_events files (config.withPolicy .skip) file text
  have hsourced := hunfolds.sourced_entries
  have hfound : ∀ d ∈ Event.declarations events, d.DefinedInPlace := by
    intro d hd
    obtain ⟨origin, place, content, -, hmem⟩ := hsourced _ (Event.mem_declarations.mp hd)
    exact (Outline.declaration_foundIn hmem).definition
  have hfirst : first = (.ok ((session calls).runOver files file |>.behind events).report,
      ((session calls).runOver files file |>.behind events).catalog) := (hresult _).2 rfl
  have hagain := (wellFormed_session calls).behind_again hfound files file
  rw [hfirst]
  refine ⟨_, rfl, ((hresult _).2 rfl).trans ?_⟩
  rw [hagain]

end Catalog

end RemoteCalls
