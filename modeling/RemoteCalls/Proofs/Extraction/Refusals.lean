import Mathlib.Data.List.Pairwise
import RemoteCalls.Proofs.Extraction.Headers

/-!
# Headers that are not taken in

A header counts as met even if it is refused, so that a later directive for it is passed over in
silence. Hence a directive that is met leads to a file that is scanned, or there is a report on this
directive or on another one for the same header.
-/

namespace RemoteCalls

/-- An include directive at a place of a file that a run scans leads to a path. -/
def Leads (files : Files) (config : Configuration) (input : Path) (text : String)
    (headers : List Path) (place : Place) (path : Path) : Prop :=
  ∃ origin content header resolved,
    Scans files input text headers origin place.file content ∧
    .inclusion header place.position ∈ Outline.ofText config.noteRules place.file origin content ∧
    files.resolve config.includePaths place.file header = some resolved ∧
    files.canonical resolved = path

namespace Report

/-- Whether a run has scanned a path: it is that of the input file or of a header. -/
def Scanned (report : Report) (input path : Path) : Prop :=
  ∃ scanned ∈ input :: report.included, path.same scanned = true

/-- Whether there is a report on the directive at a place, for its depth or for a header that cannot
be read. -/
def Refuses (report : Report) (place : Place) : Prop :=
  ∃ diagnostic ∈ report.errors, diagnostic.place = place ∧ diagnostic.subject = none ∧
    diagnostic.reason.refusesHeader = true

/-- Whether the directive at a place, which leads to a path, is answered. -/
def Answers (report : Report) (input : Path) (place : Place) (path : Path) : Prop :=
  report.Scanned input path ∨ report.Refuses place

end Report

theorem Path.same_trans {p q r : Path} (h : p.same q = true) (hnext : q.same r = true) :
    p.same r = true :=
  Path.same_iff.mpr ((Path.same_iff.mp h).trans (Path.same_iff.mp hnext))

namespace Event

variable {events : List Event} {visited : List Path} {path : Path}

theorem mem_headers : path ∈ headers events ↔ ∃ event ∈ events, event.header? = some path :=
  List.mem_filterMap

theorem mem_behind : path ∈ behind events visited ↔ path ∈ headers events ∨ path ∈ visited := by
  simp [behind]

/-- A header that is met is read or refused. -/
theorem entered_or_refused_of_mem_headers (h : path ∈ headers events) :
    path ∈ entries events ∨ ∃ diagnostic, .refused path diagnostic ∈ events := by
  obtain ⟨event, hevent, hheader⟩ := mem_headers.mp h
  cases event with
  | entered header =>
    obtain rfl := Option.some.inj hheader
    exact Or.inl (mem_entries.mpr hevent)
  | refused header diagnostic =>
    obtain rfl := Option.some.inj hheader
    exact Or.inr ⟨diagnostic, hevent⟩
  | _ => cases hheader

end Event

/-- A declaration is not reported for a header. -/
theorem Catalog.refusesHeader_of_add {catalog : Catalog} {d : Declaration} {diagnostic : Diagnostic}
    (h : (catalog.add d).2 = some diagnostic) : diagnostic.reason.refusesHeader = false := by
  cases d with
  | placeholder p =>
    simp only [Catalog.add] at h
    split at h
    · cases h
    · cases h
  | _ =>
    obtain ⟨place, -, rfl⟩ := Option.map_eq_some_iff.mp h
    rfl

/-- What is reported for a header is so at an event that is no declaration. -/
theorem Event.mem_reports {catalog : Catalog} {events : List Event} {diagnostic : Diagnostic}
    (hreason : diagnostic.reason.refusesHeader = true) :
    diagnostic ∈ reports catalog events ↔
      .reported diagnostic ∈ events ∨ ∃ path, .refused path diagnostic ∈ events := by
  induction events generalizing catalog with
  | nil => simp
  | cons event events ih =>
    rw [reports, List.mem_append, ih]
    cases event with
    | declared d =>
      have hnone : diagnostic ∉ (declared d).complaints catalog := by
        intro hmem
        have hfalse := Catalog.refusesHeader_of_add (Option.mem_toList.mp hmem)
        rw [hreason] at hfalse
        cases hfalse
      simp [hnone]
    | reported other => simp [complaints, or_assoc]
    | refused header other => simp [complaints, exists_or, or_left_comm]
    | entered header => simp [complaints]

namespace Unfolds

variable {files : Files} {config : Configuration} {depth : Nat} {file : Path}
  {visited : List Path} {found : List Finding} {events : List Event}

/-- Every directive for a header leads to a path that has been met behind the events. -/
def Covers (files : Files) (config : Configuration) (file : Path) (found : List Finding)
    (visited : List Path) : Prop :=
  ∀ header position resolved, .inclusion header position ∈ found →
    files.resolve config.includePaths file header = some resolved →
    ∃ path ∈ visited, (files.canonical resolved).same path = true

theorem Covers.mono {later : List Path} (h : Covers files config file found visited)
    (hlater : ∀ path ∈ visited, path ∈ later) : Covers files config file found later := by
  intro header position resolved hfound hresolved
  obtain ⟨path, hpath, hsame⟩ := h header position resolved hfound hresolved
  exact ⟨path, hlater path hpath, hsame⟩

theorem Covers.cons {finding : Finding} (h : Covers files config file found visited)
    (hfinding : ∀ header position resolved, finding = .inclusion header position →
      files.resolve config.includePaths file header = some resolved →
      ∃ path ∈ visited, (files.canonical resolved).same path = true) :
    Covers files config file (finding :: found) visited := by
  intro header position resolved hfound hresolved
  rcases List.mem_cons.mp hfound with heq | hfound
  · exact hfinding header position resolved heq.symm hresolved
  · exact h header position resolved hfound hresolved

/-- Every directive for a header leads to a path that is met, in the file itself and in the headers
that are read. -/
theorem covers (h : Unfolds files config depth file visited found events) :
    Covers files config file found (Event.behind events visited) ∧
    ∀ path content, .entered path ∈ events → files.read path = .ok content →
      Covers files config path (Outline.ofText config.noteRules path .included content)
        (Event.behind events visited) := by
  have hkept : ∀ {events : List Event} {visited : List Path} {path : Path}, path ∈ visited →
      path ∈ Event.behind events visited := fun hmem => Event.mem_behind.mpr (Or.inr hmem)
  have hself : ∀ {events : List Event} {visited : List Path} (path : Path),
      ∃ met ∈ Event.behind events (path :: visited), path.same met = true :=
    fun path => ⟨path, hkept List.mem_cons_self, path.same_self⟩
  induction h with
  | nil =>
    refine ⟨fun header position resolved hfound => ?_, fun path content hmem => ?_⟩
    · cases hfound
    · cases hmem
  | declaration d _ ih =>
    rw [Event.behind_cons]
    refine ⟨ih.1.cons fun header position resolved heq => ?_, fun path content hmem => ?_⟩
    · cases heq
    · exact ih.2 path content (List.mem_of_ne_of_mem Event.noConfusion hmem)
  | diagnostic diagnostic _ ih =>
    rw [Event.behind_cons]
    refine ⟨ih.1.cons fun header position resolved heq => ?_, fun path content hmem => ?_⟩
    · cases heq
    · exact ih.2 path content (List.mem_of_ne_of_mem Event.noConfusion hmem)
  | passed position hmet _ ih =>
    refine ⟨ih.1.cons fun header _ resolved heq hresolved => ?_, ih.2⟩
    cases heq
    obtain ⟨path, hpath, hsame⟩ := List.any_eq_true.mp (hmet resolved hresolved)
    exact ⟨path, hkept hpath, hsame⟩
  | tooDeep position hresolved _ _ ih =>
    rw [Event.behind_cons]
    refine ⟨ih.1.cons fun header _ resolved heq hresolved' => ?_, fun path content hmem => ?_⟩
    · cases heq
      cases hresolved.symm.trans hresolved'
      exact hself _
    · exact ih.2 path content (List.mem_of_ne_of_mem Event.noConfusion hmem)
  | unreadable position hresolved _ _ _ ih =>
    rw [Event.behind_cons]
    refine ⟨ih.1.cons fun header _ resolved heq hresolved' => ?_, fun path content hmem => ?_⟩
    · cases heq
      cases hresolved.symm.trans hresolved'
      exact hself _
    · exact ih.2 path content (List.mem_of_ne_of_mem Event.noConfusion hmem)
  | followed position hresolved _ hread _ _ ihwithin ih =>
    rw [Event.behind_append, Event.behind_cons]
    refine ⟨ih.1.cons fun header _ resolved heq hresolved' => ?_,
      fun path content hmem hcontent => ?_⟩
    · cases heq
      cases hresolved.symm.trans hresolved'
      obtain ⟨met, hmet, hsame⟩ := hself _
      exact ⟨met, hkept hmet, hsame⟩
    · rcases List.mem_append.mp hmem with hfront | hbehind
      · rcases List.mem_cons.mp hfront with heq | hinner
        · cases heq
          cases hread.symm.trans hcontent
          exact ihwithin.1.mono fun _ => hkept
        · exact (ihwithin.2 path content hinner hcontent).mono fun _ => hkept
      · exact ih.2 path content hbehind hcontent

end Unfolds

section

variable {files : Files} {config : Configuration} {input : Path} {text : String}

/-- A file is scanned once, with one text. -/
theorem Scans.unique {headers : List Path} (hinput : input ∉ headers) {file : Path}
    {origin origin' : Origin} {content content' : String}
    (h : Scans files input text headers origin file content)
    (h' : Scans files input text headers origin' file content') :
    origin = origin' ∧ content = content' := by
  cases h with
  | input =>
    cases h' with
    | input => exact ⟨rfl, rfl⟩
    | header hmem _ => exact absurd hmem hinput
  | header hmem hread =>
    cases h' with
    | input => exact absurd hmem hinput
    | header _ hread' => exact ⟨rfl, Except.ok.inj (hread.symm.trans hread')⟩

/-- A directive leads to one path. -/
theorem Leads.unique {headers : List Path} (hinput : input ∉ headers) {place : Place}
    {path path' : Path} (h : Leads files config input text headers place path)
    (h' : Leads files config input text headers place path') : path = path' := by
  obtain ⟨origin, content, header, resolved, hscans, hfound, hresolved, rfl⟩ := h
  obtain ⟨origin', content', header', resolved', hscans', hfound', hresolved', rfl⟩ := h'
  obtain ⟨rfl, rfl⟩ := hscans.unique hinput hscans'
  obtain rfl := Outline.header_eq_of_mem_ofText hfound hfound'
  rw [Option.some.inj (hresolved.symm.trans hresolved')]

variable {events : List Event}
  (h : Unfolds files config config.maxIncludeDepth input [input]
    (Outline.ofText config.noteRules input .input text) events)

include h

theorem Unfolds.input_not_mem_entries : input ∉ Event.entries events := by
  intro hmem
  have hapart := (List.pairwise_cons.mp h.pairwise_headers).1 input
    ((Event.entries_sublist_headers events).subset hmem)
  exact hapart.ne rfl

/-- A header is refused at one event. -/
theorem Unfolds.refused_unique {path path' : Path} {diagnostic diagnostic' : Diagnostic}
    (hrefused : .refused path diagnostic ∈ events)
    (hrefused' : .refused path' diagnostic' ∈ events) (hsame : path.same path' = true) :
    diagnostic = diagnostic' := by
  have hpairwise := List.pairwise_filterMap.mp (List.pairwise_cons.mp h.pairwise_headers).2
  have : Std.Symm fun e e' : Event => ∀ p, e.header? = some p → ∀ p', e'.header? = some p' →
      p.Apart p' := ⟨fun _ _ hall p hp p' hp' => (hall p' hp' p hp).symm⟩
  by_contra hne
  have hevents : Event.refused path diagnostic ≠ .refused path' diagnostic' := by
    intro heq
    exact hne (Event.refused.inj heq).2
  have hapart := hpairwise.forall hrefused hrefused' hevents path rfl path' rfl
  have hdiffer : path.same path' = false := hapart
  rw [hsame] at hdiffer
  cases hdiffer

/-- A header is refused at a directive that leads to it. -/
theorem Unfolds.leads_of_refused {path : Path} {diagnostic : Diagnostic}
    (hrefused : .refused path diagnostic ∈ events) :
    Leads files config input text (Event.entries events) diagnostic.place path ∧
      diagnostic.subject = none ∧ diagnostic.reason.refusesHeader = true := by
  obtain ⟨origin, file, content, header, position, resolved, hscans, hfound, hresolved, hpath,
    hplace, hsubject, hreason⟩ := h.sourced_entries _ hrefused
  refine ⟨⟨origin, content, header, resolved, ?_⟩, hsubject, hreason⟩
  rw [hplace]
  exact ⟨hscans, hfound, hresolved, hpath⟩

/-- What is reported for a header is so where the header is refused. -/
theorem Unfolds.refused_of_mem_reports {catalog : Catalog} {diagnostic : Diagnostic}
    (hmem : diagnostic ∈ Event.reports catalog events)
    (hreason : diagnostic.reason.refusesHeader = true) :
    ∃ path, .refused path diagnostic ∈ events := by
  rcases (Event.mem_reports hreason).mp hmem with hreported | hrefused
  · -- The scan of a file reports no header.
    obtain ⟨origin, file, content, -, hfound⟩ := h.sourced_entries _ hreported
    have hfalse := (Outline.diagnostic_foundIn hfound).reason
    rw [hreason] at hfalse
    cases hfalse
  · exact hrefused

/-- A directive leads to the input file, to a header that is read or to one that is refused. -/
theorem Unfolds.met_of_leads {place : Place} {path : Path}
    (hleads : Leads files config input text (Event.entries events) place path) :
    (∃ scanned ∈ input :: Event.entries events, path.same scanned = true) ∨
      ∃ refused diagnostic, path.same refused = true ∧ .refused refused diagnostic ∈ events := by
  obtain ⟨hfile, hheaders⟩ := h.covers
  obtain ⟨file, position⟩ := place
  obtain ⟨origin, content, header, resolved, hscans, hfound, hresolved, rfl⟩ := hleads
  have hmet : ∃ met ∈ Event.behind events [input], (files.canonical resolved).same met = true := by
    cases hscans with
    | input => exact hfile header position resolved hfound hresolved
    | header hmem hread =>
      exact hheaders file content (Event.mem_entries.mp hmem) hread header position resolved hfound
        hresolved
  obtain ⟨met, hmem, hsame⟩ := hmet
  rcases Event.mem_behind.mp hmem with hheader | hinput
  · rcases Event.entered_or_refused_of_mem_headers hheader with hentered | ⟨diagnostic, hrefused⟩
    · exact Or.inl ⟨met, List.mem_cons_of_mem _ hentered, hsame⟩
    · exact Or.inr ⟨met, diagnostic, hsame, hrefused⟩
  · exact Or.inl ⟨met, List.mem_cons.mpr (Or.inl (List.mem_singleton.mp hinput)), hsame⟩

end

/-- Whether a finding is the directive for a header at a position. -/
def Finding.isInclusion (header : Inclusion) (position : Position) : Finding → Bool
  | .inclusion other place => other = header ∧ place = position
  | _ => false

namespace Catalog

/-- The headers that a run reads and the reports on headers, from its events. -/
theorem exists_refusals (files : Files) (config : Configuration) (catalog : Catalog) (file : Path)
    (text : String) : ∃ events report,
    (catalog.extractText files (config.withPolicy .skip) file text).1 = .ok report ∧
    Unfolds files (config.withPolicy .skip) config.maxIncludeDepth (files.canonical file)
      [files.canonical file] (Outline.ofText config.noteRules (files.canonical file) .input text)
      events ∧
    report.included = Event.entries events ∧
    ∃ start : Catalog, report.errors = Event.reports start events := by
  obtain ⟨events, hunfolds, hresult⟩ := exists_events files (config.withPolicy .skip) file text
  refine ⟨events, _, congrArg Prod.fst ((hresult catalog).2 rfl), hunfolds, List.nil_append _,
    catalog.addInput file, List.nil_append _⟩

/-- A directive that is met leads to a path that is scanned, or the header is refused at this
directive or at another one. So all directives are answered if there is no more than one for each
header that is not scanned, and only then. -/
theorem extractText_answers (files : Files) (config : Configuration) (catalog : Catalog)
    (file : Path) (text : String) :
    let input := files.canonical file
    ∃ report,
      (catalog.extractText files (config.withPolicy .skip) file text).1 = .ok report ∧
      let leads := Leads files config input text report.included
      (∀ place path, leads place path → report.Scanned input path ∨
        ∃ other path', leads other path' ∧ path.same path' = true ∧ report.Refuses other) ∧
      ((∀ place path, leads place path → report.Answers input place path) ↔
        ∀ place path other path', leads place path → leads other path' →
          path.same path' = true → ¬ report.Scanned input path → place = other) := by
  intro input
  obtain ⟨events, report, hreport, hunfolds, hincluded, start, herrors⟩ :=
    exists_refusals files config catalog file text
  refine ⟨report, hreport, ?_⟩
  intro leads
  have hleads : ∀ {place path}, leads place path ↔
      Leads files (config.withPolicy .skip) input text (Event.entries events) place path := by
    intro place path
    rw [← hincluded]
    exact Iff.rfl
  have hinput : input ∉ Event.entries events := hunfolds.input_not_mem_entries
  have hrefuses : ∀ {path diagnostic}, .refused path diagnostic ∈ events →
      report.Refuses diagnostic.place ∧ leads diagnostic.place path := by
    intro path diagnostic hrefused
    obtain ⟨hplace, hsubject, hreason⟩ := hunfolds.leads_of_refused hrefused
    refine ⟨⟨diagnostic, ?_, rfl, hsubject, hreason⟩, hleads.mpr hplace⟩
    rw [herrors]
    exact (Event.mem_reports hreason).mpr (Or.inr ⟨path, hrefused⟩)
  have hrefused : ∀ {place path}, report.Refuses place → leads place path →
      ∃ diagnostic, diagnostic.place = place ∧ .refused path diagnostic ∈ events := by
    rintro place path ⟨diagnostic, hmem, rfl, -, hreason⟩ hplace
    rw [herrors] at hmem
    obtain ⟨path', hrefused⟩ := hunfolds.refused_of_mem_reports hmem hreason
    have hpath := (hunfolds.leads_of_refused hrefused).1.unique hinput (hleads.mp hplace)
    exact ⟨diagnostic, rfl, hpath ▸ hrefused⟩
  have hanswered : ∀ place path, leads place path → report.Scanned input path ∨
      ∃ other path', leads other path' ∧ path.same path' = true ∧ report.Refuses other := by
    intro place path hplace
    rcases hunfolds.met_of_leads (hleads.mp hplace) with hscanned | ⟨path', diagnostic, hsame, hmem⟩
    · exact Or.inl (by rwa [Report.Scanned, hincluded])
    · exact Or.inr ⟨diagnostic.place, path', (hrefuses hmem).2, hsame, (hrefuses hmem).1⟩
  refine ⟨hanswered, fun hall => ?_, fun hone => ?_⟩
  · intro place path other path' hplace hother hsame hnot
    have hnot' : ¬ report.Scanned input path' := by
      rintro ⟨scanned, hmem, hscanned⟩
      exact hnot ⟨scanned, hmem, Path.same_trans hsame hscanned⟩
    obtain ⟨diagnostic, rfl, hmem⟩ := hrefused ((hall _ _ hplace).resolve_left hnot) hplace
    obtain ⟨diagnostic', rfl, hmem'⟩ := hrefused ((hall _ _ hother).resolve_left hnot') hother
    rw [hunfolds.refused_unique hmem hmem' hsame]
  · intro place path hplace
    by_cases hscanned : report.Scanned input path
    · exact Or.inl hscanned
    · obtain ⟨other, path', hother, hsame, hrefuses⟩ :=
        (hanswered place path hplace).resolve_left hscanned
      rw [hone place path other path' hplace hother hsame hscanned]
      exact Or.inr hrefuses

/-- With a depth limit of one, `b.h` is refused below `a.h`. The directive for it behind that one is
passed over, so that `b.h` is never scanned and there is no report on the directive. -/
theorem not_answered_of_late_header :
    let files : Files := ⟨fun path =>
      if path.text = "a.h" then .file path (.ok "#include \"b.h\"\n")
      else if path.text = "b.h" then .file path (.ok "int b;\n")
      else .absent .missing⟩
    let config := { Configuration.ofMarkers ["RPC"] with maxIncludeDepth := 1 }
    let text := "#include \"a.h\"\n#include \"b.h\"\n"
    let input : Path := ⟨"main.c"⟩
    ∃ report,
      (empty.extractText files (config.withPolicy .skip) input text).1 = .ok report ∧
      Leads files config input text report.included ⟨input, ⟨2, 1⟩⟩ ⟨"b.h"⟩ ∧
      ¬ report.Answers input ⟨input, ⟨2, 1⟩⟩ ⟨"b.h"⟩ := by
  intro files config text input
  obtain ⟨events, report, hreport, -⟩ := exists_refusals files config empty input text
  have hresult : ((empty.extractText files (config.withPolicy .skip) input text).1.toOption.map
      fun report => (report.included, report.errors)) =
      some ([⟨"a.h"⟩], [⟨⟨⟨"a.h"⟩, ⟨1, 1⟩⟩, none, .includeDepth 1 "b.h"⟩]) := by decide +kernel
  rw [hreport] at hresult
  obtain ⟨hincluded, herrors⟩ := Prod.mk.inj (Option.some.inj hresult)
  have hfound : (Outline.ofText config.noteRules input .input text).any
      (Finding.isInclusion ⟨"b.h", false⟩ ⟨2, 1⟩) = true := by decide +kernel
  refine ⟨report, hreport, ?_, ?_⟩
  · obtain ⟨finding, hfinding, hinclusion⟩ := List.any_eq_true.mp hfound
    cases finding with
    | inclusion header position =>
      obtain ⟨rfl, rfl⟩ := of_decide_eq_true hinclusion
      exact ⟨.input, text, _, ⟨"b.h"⟩, .input, hfinding, by decide +kernel, by decide +kernel⟩
    | _ => cases hinclusion
  · rintro (⟨scanned, hmem, hsame⟩ | ⟨diagnostic, hmem, hplace, -⟩)
    · rw [hincluded] at hmem
      have hapart : ∀ scanned ∈ [input, ⟨"a.h"⟩], (⟨"b.h"⟩ : Path).same scanned = false := by
        decide +kernel
      rw [hapart scanned hmem] at hsame
      cases hsame
    · rw [herrors] at hmem
      rw [List.mem_singleton.mp hmem] at hplace
      exact absurd hplace (by decide +kernel)

end Catalog

end RemoteCalls
