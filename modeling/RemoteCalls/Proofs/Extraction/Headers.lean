import Mathlib.Data.List.Perm.Subperm
import RemoteCalls.Proofs.Extraction.Traversal

/-!
# Headers of a run

No path is met twice in a run, every header that is read stands at the end of a chain of include
directives that is not longer than the limit, and what is found in it counts as included. The
declarations go into the catalog in the order in which they stand in the files.
-/

namespace RemoteCalls

/-- Two paths of different places. -/
def Path.Apart (p q : Path) : Prop := p.same q = false

theorem Path.Apart.symm {p q : Path} (h : p.Apart q) : q.Apart p := by
  unfold Apart same at *
  rw [Bool.beq_comm]
  exact h

theorem Path.Apart.ne {p q : Path} (h : p.Apart q) : p ≠ q := by
  rintro rfl
  unfold Apart at h
  rw [Path.same_self] at h
  cases h

namespace Event

theorem header?_of_entered? {event : Event} {header : Path} (h : event.entered? = some header) :
    event.header? = some header := by
  cases event with
  | entered other => exact h
  | _ => cases h

theorem mem_entries {events : List Event} {header : Path} :
    header ∈ entries events ↔ .entered header ∈ events := by
  refine List.mem_filterMap.trans ⟨?_, fun h => ⟨_, h, rfl⟩⟩
  rintro ⟨event, hevent, hentered⟩
  cases event with
  | entered other =>
    obtain rfl := Option.some.inj hentered
    exact hevent
  | _ => cases hentered

theorem mem_declarations {events : List Event} {d : Declaration} :
    d ∈ declarations events ↔ .declared d ∈ events := by
  refine List.mem_filterMap.trans ⟨?_, fun h => ⟨_, h, rfl⟩⟩
  rintro ⟨event, hevent, hdeclared⟩
  cases event with
  | declared other =>
    obtain rfl := Option.some.inj hdeclared
    exact hevent
  | _ => cases hdeclared

/-- Headers that are read are met, in the same order. -/
theorem entries_sublist_headers (events : List Event) :
    (entries events).Sublist (headers events) := by
  induction events with
  | nil => exact List.Sublist.refl _
  | cons event events ih =>
    unfold entries headers at *
    cases hentered : event.entered? with
    | some header =>
      rw [List.filterMap_cons_some hentered,
        List.filterMap_cons_some (header?_of_entered? hentered)]
      exact ih.cons_cons header
    | none =>
      rw [List.filterMap_cons_none hentered]
      cases hheader : event.header? with
      | none => rwa [List.filterMap_cons_none hheader]
      | some header =>
        rw [List.filterMap_cons_some hheader]
        exact ih.cons header

end Event

/-- The files that a run scans: the input file with its text, and the headers that it reads. -/
inductive Scans (files : Files) (input : Path) (text : String) (headers : List Path) :
    Origin → Path → String → Prop where
  | input : Scans files input text headers .input input text
  | header {header : Path} {content : String} (hmem : header ∈ headers)
      (hread : files.read header = .ok content) :
      Scans files input text headers .included header content

/-- A chain of as many include directives, from the input file to a file that a run scans, over
files that it scans. -/
inductive Chain (files : Files) (config : Configuration) (input : Path) (text : String)
    (headers : List Path) : Nat → Origin → Path → String → Prop where
  | input : Chain files config input text headers 0 .input input text
  | step {steps : Nat} {origin : Origin} {file resolved : Path} {content inner : String}
      {header : Inclusion} {position : Position}
      (hchain : Chain files config input text headers steps origin file content)
      (hfound : .inclusion header position ∈
        Outline.ofText config.noteRules file origin content)
      (hresolved : files.resolve config.includePaths file header = some resolved)
      (hmem : files.canonical resolved ∈ headers)
      (hread : files.read (files.canonical resolved) = .ok inner) :
      Chain files config input text headers (steps + 1) .included (files.canonical resolved) inner

theorem Chain.scans {files : Files} {config : Configuration} {input file : Path}
    {text content : String} {headers : List Path} {steps : Nat} {origin : Origin}
    (h : Chain files config input text headers steps origin file content) :
    Scans files input text headers origin file content := by
  cases h with
  | input => exact .input
  | step _ _ _ hmem hread => exact .header hmem hread

/-- Where an event comes from: a finding in a file that the run scans. A header that is read stands
at the end of a chain, and one that is refused is so at its directive. -/
def Event.Sourced (files : Files) (config : Configuration) (input : Path) (text : String)
    (headers : List Path) : Event → Prop
  | .declared d => ∃ origin file content, Scans files input text headers origin file content ∧
      .declaration d ∈ Outline.ofText config.noteRules file origin content
  | .reported diagnostic => ∃ origin file content,
      Scans files input text headers origin file content ∧
      .diagnostic diagnostic ∈ Outline.ofText config.noteRules file origin content
  | .refused path diagnostic => ∃ origin file content header position resolved,
      Scans files input text headers origin file content ∧
      .inclusion header position ∈ Outline.ofText config.noteRules file origin content ∧
      files.resolve config.includePaths file header = some resolved ∧
      files.canonical resolved = path ∧
      diagnostic.place = ⟨file, position⟩ ∧ diagnostic.subject = none ∧
      diagnostic.reason.refusesHeader = true
  | .entered path => (∃ resolved, files.isFile resolved = true ∧ files.canonical resolved = path) ∧
      ∃ steps content, steps ≤ config.maxIncludeDepth ∧
        Chain files config input text headers steps .included path content

/-- A directive leads to a file only. -/
theorem Files.isFile_of_resolve {files : Files} {includePaths : List Path} {including path : Path}
    {header : Inclusion} (h : files.resolve includePaths including header = some path) :
    files.isFile path = true :=
  List.find?_some (p := files.isFile) h

namespace Unfolds

variable {files : Files} {config : Configuration} {depth : Nat} {file : Path}
  {visited : List Path} {found : List Finding} {events : List Event}

theorem apart_of_new {path : Path} (h : visited.any path.same = false) :
    ∀ q ∈ visited, path.Apart q := by
  intro q hq
  exact Bool.eq_false_iff.mpr (List.any_eq_false.mp h q hq)

/-- Paths that are met are all apart, if those met before are. -/
theorem pairwise_behind (h : Unfolds files config depth file visited found events)
    (hvisited : visited.Pairwise Path.Apart) :
    (Event.behind events visited).Pairwise Path.Apart := by
  induction h with
  | nil => exact hvisited
  | declaration d _ ih =>
    rw [Event.behind_cons]
    exact ih hvisited
  | diagnostic diagnostic _ ih =>
    rw [Event.behind_cons]
    exact ih hvisited
  | passed _ _ _ ih => exact ih hvisited
  | tooDeep _ _ hnew _ ih =>
    rw [Event.behind_cons]
    exact ih (List.pairwise_cons.mpr ⟨apart_of_new hnew, hvisited⟩)
  | unreadable _ _ hnew _ _ ih =>
    rw [Event.behind_cons]
    exact ih (List.pairwise_cons.mpr ⟨apart_of_new hnew, hvisited⟩)
  | followed _ _ hnew _ _ _ ihwithin ih =>
    rw [Event.behind_append, Event.behind_cons]
    exact ih (ihwithin (List.pairwise_cons.mpr ⟨apart_of_new hnew, hvisited⟩))

/-- The input file and the headers that are met are all apart. -/
theorem pairwise_headers {input : Path}
    (h : Unfolds files config depth file [input] found events) :
    (input :: Event.headers events).Pairwise Path.Apart := by
  have hbehind := h.pairwise_behind (List.pairwise_singleton _ input)
  have hreverse : Event.behind events [input] = (input :: Event.headers events).reverse := by
    simp [Event.behind, Event.headers]
  rw [hreverse, List.pairwise_reverse] at hbehind
  exact hbehind.imp Path.Apart.symm

variable {input : Path} {text : String} {headers : List Path}

/-- Every event comes from a finding of a file that the run scans. -/
theorem sourced (h : Unfolds files config depth file visited found events)
    {steps : Nat} {origin : Origin} {content : String}
    (hchain : Chain files config input text headers steps origin file content)
    (hsteps : steps + depth = config.maxIncludeDepth)
    (hfound : ∀ finding ∈ found, finding ∈ Outline.ofText config.noteRules file origin content)
    (hheaders : ∀ header ∈ Event.entries events, header ∈ headers) :
    ∀ event ∈ events, event.Sourced files config input text headers := by
  have hrest : ∀ {finding : Finding} {rest : List Finding} {origin : Origin} {file : Path}
      {content : String},
      (∀ other ∈ finding :: rest, other ∈ Outline.ofText config.noteRules file origin content) →
      ∀ other ∈ rest, other ∈ Outline.ofText config.noteRules file origin content :=
    fun h other hother => h other (List.mem_cons_of_mem _ hother)
  induction h generalizing steps origin content with
  | nil =>
    intro event hevent
    cases hevent
  | declaration d _ ih =>
    refine List.forall_mem_cons.mpr ⟨?_, ih hchain hsteps (hrest hfound) hheaders⟩
    exact ⟨origin, _, content, hchain.scans, hfound _ List.mem_cons_self⟩
  | diagnostic diagnostic _ ih =>
    refine List.forall_mem_cons.mpr ⟨?_, ih hchain hsteps (hrest hfound) hheaders⟩
    exact ⟨origin, _, content, hchain.scans, hfound _ List.mem_cons_self⟩
  | passed _ _ _ ih => exact ih hchain hsteps (hrest hfound) hheaders
  | tooDeep position hresolved _ _ ih =>
    refine List.forall_mem_cons.mpr ⟨?_, ih hchain hsteps (hrest hfound) hheaders⟩
    exact ⟨origin, _, content, _, position, _, hchain.scans, hfound _ List.mem_cons_self, hresolved,
      rfl, rfl, rfl, rfl⟩
  | unreadable position hresolved _ _ _ ih =>
    refine List.forall_mem_cons.mpr ⟨?_, ih hchain hsteps (hrest hfound) hheaders⟩
    exact ⟨origin, _, content, _, position, _, hchain.scans, hfound _ List.mem_cons_self, hresolved,
      rfl, rfl, rfl, rfl⟩
  | followed position hresolved _ hread _ _ ihwithin ih =>
    have hmem := hheaders _ (Event.mem_entries.mpr List.mem_cons_self)
    have hnext := hchain.step (hfound _ List.mem_cons_self) hresolved hmem hread
    have hwithin := ihwithin hnext (by omega) (fun _ hfinding => hfinding) fun header hheader =>
      hheaders header (Event.mem_entries.mpr
        (List.mem_append_left _ (List.mem_cons_of_mem _ (Event.mem_entries.mp hheader))))
    have hbehind := ih hchain hsteps (hrest hfound) fun header hheader =>
      hheaders header (Event.mem_entries.mpr
        (List.mem_append_right _ (Event.mem_entries.mp hheader)))
    refine List.forall_mem_append.mpr ⟨List.forall_mem_cons.mpr ⟨?_, hwithin⟩, hbehind⟩
    exact ⟨⟨_, Files.isFile_of_resolve hresolved, rfl⟩, _, _, by omega, hnext⟩

/-- Every event of a run comes from a finding of a file that the run scans. -/
theorem sourced_entries
    (h : Unfolds files config config.maxIncludeDepth input [input]
      (Outline.ofText config.noteRules input .input text) events) :
    ∀ event ∈ events, event.Sourced files config input text (Event.entries events) := by
  have hchain : Chain files config input text (Event.entries events) 0 .input input text := .input
  exact h.sourced hchain (Nat.zero_add _) (fun _ hfinding => hfinding) fun _ hheader => hheader

end Unfolds

namespace Catalog

/-- A run over a text as it begins. -/
def runOver (files : Files) (catalog : Catalog) (file : Path) : Run :=
  ⟨catalog.addInput file, .empty file, [files.canonical file]⟩

section

variable {files : Files} {config : Configuration} {catalog : Catalog} {file : Path} {text : String}

theorem extractText_of_ok {run : Run}
    (h : Run.scan files config config.maxIncludeDepth .input (files.canonical file) text
      (catalog.runOver files file) = .ok run) :
    catalog.extractText files config file text = (.ok run.report, run.catalog) := by
  unfold runOver at h
  simp only [extractText, h]

theorem extractText_of_error {stopped : Stopped}
    (h : Run.scan files config config.maxIncludeDepth .input (files.canonical file) text
      (catalog.runOver files file) = .error stopped) :
    (catalog.extractText files config file text).1 = .error stopped.diagnostic := by
  unfold runOver at h
  simp only [extractText, h]

end

/-- What a run leaves is what its events leave, whatever was in the catalog before. Under the policy
`skip` nothing stops it. -/
theorem exists_events (files : Files) (config : Configuration) (file : Path) (text : String) :
    ∃ events,
      Unfolds files config config.maxIncludeDepth (files.canonical file) [files.canonical file]
        (Outline.ofText config.noteRules (files.canonical file) .input text) events ∧
      ∀ catalog : Catalog,
        let behind := (catalog.runOver files file).behind events
        (∀ report, (catalog.extractText files config file text).1 = .ok report →
          report = behind.report ∧
            (catalog.extractText files config file text).2 = behind.catalog) ∧
        (config.errorPolicy = .skip →
          catalog.extractText files config file text = (.ok behind.report, behind.catalog)) := by
  obtain ⟨events, hunfolds, hscan⟩ := Run.unfolds_scan files config config.maxIncludeDepth .input
    (files.canonical file) text [files.canonical file]
  refine ⟨events, hunfolds, fun catalog => ?_⟩
  intro behind
  have hrun := hscan (catalog.runOver files file) rfl
  refine ⟨fun report hreport => ?_, fun hskip => ?_⟩
  · cases hmeet : events.foldlM (Run.meet config.errorPolicy) (catalog.runOver files file) with
    | ok later =>
      rw [extractText_of_ok (hrun.trans hmeet)] at hreport ⊢
      obtain rfl := Run.eq_behind_of_foldlM hmeet
      exact ⟨(Except.ok.inj hreport).symm, rfl⟩
    | error stopped =>
      rw [extractText_of_error (hrun.trans hmeet)] at hreport
      cases hreport
  · rw [hskip, Run.foldlM_meet_skip] at hrun
    exact extractText_of_ok hrun

/-- A run meets no path twice, so that it reads no more headers than there are files. Each header
that it reads stands at the end of a chain of at most `maxIncludeDepth` directives, what is found in
it counts as included, and what is found in the input file does not. The declarations are added in
the order of the files, where those of a header stand in the place of its directive. -/
theorem extractText_traverses (files : Files) (config : Configuration) (catalog : Catalog)
    (file : Path) (text : String) :
    let input := files.canonical file
    let result := catalog.extractText files config file text
    ∃ events,
      Unfolds files config config.maxIncludeDepth input [input]
        (Outline.ofText config.noteRules input .input text) events ∧
      (input :: Event.entries events).Pairwise Path.Apart ∧
      (∀ known : List Path, (∀ path, files.isFile path = true → files.canonical path ∈ known) →
        (Event.entries events).length ≤ known.length) ∧
      (∀ header ∈ Event.entries events, ∃ steps content, steps ≤ config.maxIncludeDepth ∧
        Chain files config input text (Event.entries events) steps .included header content) ∧
      (∀ d ∈ Event.declarations events,
        d.origin = .input ∧ d.place.file = input ∨
          d.origin = .included ∧ d.place.file ∈ Event.entries events) ∧
      (∀ report, result.1 = .ok report →
        report.included = Event.entries events ∧
          result.2 = ((catalog.addInput file).addAll (Event.declarations events)).withErrors
            (catalog.errors ++ report.errors)) ∧
      (config.errorPolicy = .skip → ∃ report, result.1 = .ok report) := by
  intro input result
  obtain ⟨events, hunfolds, hresult⟩ := exists_events files config file text
  obtain ⟨hreport, hskip⟩ := hresult catalog
  have hsourced := hunfolds.sourced_entries
  have hentered : ∀ header ∈ Event.entries events,
      (Event.entered header).Sourced files config input text (Event.entries events) :=
    fun header hheader => hsourced _ (Event.mem_entries.mp hheader)
  have hapart : (input :: Event.entries events).Pairwise Path.Apart :=
    hunfolds.pairwise_headers.sublist ((Event.entries_sublist_headers events).cons_cons input)
  refine ⟨events, hunfolds, hapart, fun known hknown => ?_, fun header hheader =>
    (hentered header hheader).2, fun d hd => ?_, fun report hok => ?_, fun hpolicy => ?_⟩
  · have hnodup : (Event.entries events).Nodup :=
      (List.pairwise_cons.mp hapart).2.imp Path.Apart.ne
    refine (List.subperm_of_subset hnodup fun header hheader => ?_).length_le
    obtain ⟨⟨resolved, hfile, rfl⟩, -⟩ := hentered header hheader
    exact hknown resolved hfile
  · obtain ⟨origin, place, content, hscans, hfound⟩ :=
      hsourced _ (Event.mem_declarations.mp hd)
    have hd := Outline.declaration_foundIn hfound
    rw [hd.origin, hd.file]
    cases hscans with
    | input => exact Or.inl ⟨rfl, rfl⟩
    | header hmem _ => exact Or.inr ⟨rfl, hmem⟩
  · obtain ⟨rfl, hcatalog⟩ := hreport report hok
    refine ⟨List.nil_append _, hcatalog.trans ?_⟩
    change _ = ((catalog.addInput file).addAll _).withErrors (catalog.errors ++ ([] ++ _))
    rw [← errors_addInput catalog file, List.nil_append]
    rfl
  · exact ⟨_, congrArg Prod.fst (hskip hpolicy)⟩

/-- Headers that include each other and the input file are read once each. -/
example :
    let files : Files := ⟨fun path =>
      if path.text = "a.h" then .file path (.ok "#include \"b.h\"\n#include \"api.c\"\nint a;\n")
      else if path.text = "b.h" then .file path (.ok "#include \"a.h\"\nint b;\n")
      else if path.text = "api.c" then .file path (.ok "")
      else .absent .missing⟩
    let result := empty.extractText files (.ofMarkers ["RPC"]) ⟨"api.c"⟩
      "#include \"a.h\"\nint c;\n"
    result.1.toOption.map (·.included) = some [⟨"a.h"⟩, ⟨"b.h"⟩] ∧
      result.2.globals.map (·.name) = ["b", "a", "c"] := by
  decide +kernel

end Catalog

end RemoteCalls
