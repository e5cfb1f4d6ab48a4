import RemoteCalls.Proofs.Extraction.Headers
import RemoteCalls.Proofs.Extraction.Sessions
import RemoteCalls.Proofs.Outline.Functions

/-!
# What a session records

A call leaves the catalog as it was, or takes in declarations that it has found in texts. So what
holds of all functions, structures and variables that are found in texts, and is kept by merging two
of them, holds of all that a session records.
-/

namespace RemoteCalls

/-- Merging takes the prototype of one of the two sightings. -/
theorem Function.Scanned.merge {f newer : Function} (hf : f.Scanned) (hnewer : newer.Scanned) :
    (f.merge newer).record.Scanned := by
  unfold Function.merge
  split
  · split
    · exact ⟨hf.name, hf.result, hf.dimensions, hf.params⟩
    · exact hf
  · dsimp only
    split
    · exact ⟨hf.name, hnewer.result, hnewer.dimensions, hnewer.params⟩
    · exact ⟨hf.name, hf.result, hf.dimensions, hf.params⟩

/-- Merging takes the members of one of the two sightings. -/
theorem Structure.Scanned.merge {s newer : Structure} (hs : s.Scanned) (hnewer : newer.Scanned) :
    (s.merge newer).record.Scanned := by
  unfold Structure.merge
  split
  · split
    · exact ⟨hs.name, hs.fields⟩
    · exact hs
  · dsimp only
    split
    · exact ⟨hs.name, hnewer.fields⟩
    · exact ⟨hs.name, hs.fields⟩

/-- Merging keeps the type of the first sighting. -/
theorem Variable.Scanned.merge {v : Variable} (hv : v.Scanned) (newer : Variable) :
    (v.merge newer).Scanned :=
  ⟨hv.name, hv.type⟩

theorem Declaration.Scanned.scannedTypes {d : Declaration} (h : d.Scanned) : d.ScannedTypes := by
  obtain ⟨rules, file, origin, text, hmem⟩ := h
  exact Outline.scannedTypes_of_mem_ofText hmem

namespace Catalog

/-- All functions, structures and variables of a catalog have scanned types. -/
structure ScannedTypes (catalog : Catalog) : Prop where
  functions : ∀ f ∈ catalog.functions, f.Scanned
  structures : ∀ s ∈ catalog.structures, s.Scanned
  globals : ∀ v ∈ catalog.globals, v.Scanned

namespace ScannedTypes

variable {catalog : Catalog}

theorem add (h : catalog.ScannedTypes) {d : Declaration} (hd : d.Scanned) :
    (catalog.add d).1.ScannedTypes := by
  cases d with
  | function f =>
    have hf : f.Scanned := hd.scannedTypes
    have hfunctions := Table.forall_sight
      (fun _ _ hrecord hnewer => Function.Scanned.merge hrecord hnewer)
      catalog.functionTable h.functions hf
    exact ⟨hfunctions, h.structures, h.globals⟩
  | struct s =>
    have hs : s.Scanned := hd.scannedTypes
    have hstructures := Table.forall_sight
      (fun _ _ hrecord hnewer => Structure.Scanned.merge hrecord hnewer)
      catalog.structureTable h.structures hs
    exact ⟨h.functions, hstructures, h.globals⟩
  | typedef t => exact ⟨h.functions, h.structures, h.globals⟩
  | «variable» v =>
    have hv : v.Scanned := hd.scannedTypes
    have hglobals := Table.forall_sight
      (fun _ newer hrecord _ => Variable.Scanned.merge hrecord newer)
      catalog.globalTable h.globals hv
    exact ⟨h.functions, h.structures, hglobals⟩
  | placeholder p =>
    simp only [Catalog.add]
    split
    · exact h
    · exact ⟨h.functions, h.structures, h.globals⟩

theorem addAll (h : catalog.ScannedTypes) {ds : List Declaration} (hds : ∀ d ∈ ds, d.Scanned) :
    (catalog.addAll ds).ScannedTypes := by
  induction ds generalizing catalog with
  | nil => exact h
  | cons d ds ih =>
    exact ih (h.add (hds d (List.mem_cons_self ..))) fun other hother =>
      hds other (List.mem_cons_of_mem _ hother)

theorem addInput (h : catalog.ScannedTypes) (file : Path) :
    (catalog.addInput file).ScannedTypes := by
  unfold Catalog.addInput
  split
  · exact h
  · exact ⟨h.functions, h.structures, h.globals⟩

end ScannedTypes

/-- A run over a text leaves the catalog as it was, or takes in what its events declare, which is
found in the texts that it scans. -/
theorem extractText_cases (files : Files) (config : Configuration) (file : Path) (text : String) :
    ∃ events, (∀ d ∈ Event.declarations events, (Event.declared d).Sourced files config
        (files.canonical file) text (Event.entries events)) ∧ ∀ catalog : Catalog,
      (catalog.extractText files config file text).2 = catalog ∨
        (catalog.extractText files config file text).2 =
          ((catalog.runOver files file).behind events).catalog := by
  obtain ⟨events, hunfolds, hresult⟩ := exists_events files config file text
  refine ⟨events, fun d hd => hunfolds.sourced_entries _ (Event.mem_declarations.mp hd),
    fun catalog => ?_⟩
  obtain ⟨hok, hskip⟩ := hresult catalog
  cases hpolicy : config.errorPolicy with
  | skip => exact .inr (by rw [hskip hpolicy])
  | abort =>
    cases hrun : Run.scan files config config.maxIncludeDepth .input (files.canonical file) text
        (catalog.runOver files file) with
    | ok run =>
      have hextract := extractText_of_ok hrun
      exact .inr (hok run.report (by rw [hextract])).2
    | error stopped =>
      refine .inl ?_
      unfold runOver at hrun
      simp [extractText, hpolicy, hrun]

theorem ScannedTypes.extractText {catalog : Catalog} (h : catalog.ScannedTypes)
    (files : Files) (config : Configuration) (file : Path) (text : String) :
    (catalog.extractText files config file text).2.ScannedTypes := by
  obtain ⟨events, hevents, hcases⟩ := extractText_cases files config file text
  rcases hcases catalog with hsame | hbehind
  · rw [hsame]
    exact h
  · rw [hbehind]
    have hfound : ∀ d ∈ Event.declarations events, d.Scanned := fun d hd => by
      obtain ⟨origin, place, content, -, hmem⟩ := hevents d hd
      exact ⟨_, _, _, _, hmem⟩
    have hall := (h.addInput file).addAll hfound
    exact ⟨hall.functions, hall.structures, hall.globals⟩

theorem ScannedTypes.run {catalog : Catalog} (h : catalog.ScannedTypes) (call : Call) :
    (call.run catalog).ScannedTypes := by
  cases call with
  | ofText files config file text => exact h.extractText files config file text
  | ofFile files config file =>
    change (catalog.extract files config file).2.ScannedTypes
    unfold extract
    cases files.read file with
    | error fault => exact h
    | ok text => exact h.extractText files config file text

/-- All functions, structures and variables that a session records have scanned types. -/
theorem scannedTypes_session (calls : List Call) : (session calls).ScannedTypes := by
  have hfold : ∀ {catalog : Catalog}, catalog.ScannedTypes →
      (calls.foldl Call.run catalog).ScannedTypes := by
    induction calls with
    | nil => exact fun h => h
    | cons call calls ih => exact fun h => ih (h.run call)
  exact hfold ⟨fun f hf => absurd hf List.not_mem_nil, fun s hs => absurd hs List.not_mem_nil,
    fun v hv => absurd hv List.not_mem_nil⟩

theorem scannedFunctions_session (calls : List Call) :
    ∀ f ∈ (session calls).functions, f.Scanned :=
  (scannedTypes_session calls).functions

theorem scannedStructures_session (calls : List Call) :
    ∀ s ∈ (session calls).structures, s.Scanned :=
  (scannedTypes_session calls).structures

theorem scannedGlobals_session (calls : List Call) :
    ∀ v ∈ (session calls).globals, v.Scanned :=
  (scannedTypes_session calls).globals

end Catalog

end RemoteCalls
