import RemoteCalls.Extraction

/-!
# The two error policies

Under the policy `skip` a run always ends with a report, and the catalog is told of the same errors
as the report. Under the policy `abort` the run does the same as long as there is no error, and the
first error that `skip` would have reported stops it.
-/

namespace RemoteCalls

/-- The same settings with another error policy. -/
def Configuration.withPolicy (config : Configuration) (policy : ErrorPolicy) : Configuration :=
  { config with errorPolicy := policy }

@[simp] theorem Configuration.errorPolicy_withPolicy (config : Configuration)
    (policy : ErrorPolicy) : (config.withPolicy policy).errorPolicy = policy := rfl

@[simp] theorem Configuration.noteRules_withPolicy (config : Configuration)
    (policy : ErrorPolicy) : (config.withPolicy policy).noteRules = config.noteRules := rfl

@[simp] theorem Configuration.includePaths_withPolicy (config : Configuration)
    (policy : ErrorPolicy) : (config.withPolicy policy).includePaths = config.includePaths := rfl

@[simp] theorem Configuration.maxIncludeDepth_withPolicy (config : Configuration)
    (policy : ErrorPolicy) :
    (config.withPolicy policy).maxIncludeDepth = config.maxIncludeDepth := rfl

/-- A sighting leaves the reports of the catalog alone. -/
@[simp] theorem Catalog.errors_add (catalog : Catalog) (declaration : Declaration) :
    (catalog.add declaration).1.errors = catalog.errors := by
  cases declaration with
  | placeholder p =>
    simp only [Catalog.add]
    split <;> rfl
  | _ => rfl

/-- An input file leaves the reports of the catalog alone. -/
@[simp] theorem Catalog.errors_addInput (catalog : Catalog) (file : Path) :
    (catalog.addInput file).errors = catalog.errors := by
  unfold Catalog.addInput
  split <;> rfl

/-- A declaration leaves the errors of a report alone. -/
@[simp] theorem Report.errors_note (report : Report) (declaration : Declaration) :
    (report.note declaration).errors = report.errors := by
  cases declaration <;> rfl

namespace Run

/-- How a run goes on under the two policies. Under `skip` it ends well, and the catalog and the
report have the same `new` errors. Under `abort` it ends at the same place if there are none, and is
stopped by the first of them otherwise. -/
def Agree (run : Run) (skipping aborting : Except Stopped Run) : Prop :=
  ∃ behind new,
    skipping = .ok behind ∧
    behind.report.errors = run.report.errors ++ new ∧
    behind.catalog.errors = run.catalog.errors ++ new ∧
    match new with
    | [] => aborting = .ok behind
    | first :: _ => ∃ stopped, aborting = .error stopped ∧ stopped.diagnostic = first

/-- A step without an error is the same under both policies. -/
theorem agree_ok {run behind : Run} (hreport : behind.report.errors = run.report.errors)
    (hcatalog : behind.catalog.errors = run.catalog.errors) :
    Agree run (.ok behind) (.ok behind) := by
  refine ⟨behind, [], rfl, ?_, ?_, rfl⟩
  · rw [hreport, List.append_nil]
  · rw [hcatalog, List.append_nil]

/-- Only the errors of the run in front matter. -/
theorem Agree.of_errors_eq {run other : Run} {skipping aborting : Except Stopped Run}
    (hreport : other.report.errors = run.report.errors)
    (hcatalog : other.catalog.errors = run.catalog.errors)
    (h : Agree other skipping aborting) : Agree run skipping aborting := by
  obtain ⟨behind, new, hskip, hnew, hlog, habort⟩ := h
  rw [hreport] at hnew
  rw [hcatalog] at hlog
  exact ⟨behind, new, hskip, hnew, hlog, habort⟩

theorem agree_fail (run : Run) (diagnostic : Diagnostic) :
    Agree run (run.fail .skip diagnostic) (run.fail .abort diagnostic) := by
  refine ⟨_, [diagnostic], rfl, rfl, rfl, ?_⟩
  exact ⟨_, rfl, rfl⟩

/-- Two steps in a row agree if each does. A run that `abort` has stopped in the first step has the
error in front of those of the second. -/
theorem Agree.bind {run : Run} {skipping aborting : Except Stopped Run}
    {skip abort : Run → Except Stopped Run} (h : Agree run skipping aborting)
    (hnext : ∀ behind, Agree behind (skip behind) (abort behind)) :
    Agree run (skipping >>= skip) (aborting >>= abort) := by
  obtain ⟨middle, new, rfl, hreport, hcatalog, habort⟩ := h
  obtain ⟨behind, later, hskip, hreport', hcatalog', habort'⟩ := hnext middle
  refine ⟨behind, new ++ later, hskip, ?_, ?_, ?_⟩
  · rw [hreport', hreport, List.append_assoc]
  · rw [hcatalog', hcatalog, List.append_assoc]
  · cases new with
    | nil =>
      have hok : aborting = .ok middle := habort
      rw [hok]
      exact habort'
    | cons first rest =>
      obtain ⟨stopped, hstopped, hfirst⟩ := habort
      rw [hstopped]
      exact ⟨stopped, rfl, hfirst⟩

theorem agree_declare (run : Run) (declaration : Declaration) :
    Agree run (run.declare .skip declaration) (run.declare .abort declaration) := by
  unfold declare
  cases hadd : run.catalog.add declaration with
  | mk catalog conflict =>
    have hcatalog : catalog.errors = run.catalog.errors := by
      rw [← Catalog.errors_add run.catalog declaration, hadd]
    have hreport := Report.errors_note run.report declaration
    cases conflict with
    | none => exact agree_ok hreport hcatalog
    | some diagnostic => exact (agree_fail _ diagnostic).of_errors_eq hreport hcatalog

/-- Two ways of reading headers agree on every header, or no header may be read at all. -/
def HeadersAgree : Option HeaderReader → Option HeaderReader → Prop
  | none, none => True
  | some skip, some abort => ∀ path text run, Agree run (skip path text run) (abort path text run)
  | _, _ => False

variable (files : Files) (config : Configuration)

theorem agree_follow {skip abort : Option HeaderReader} (h : HeadersAgree skip abort)
    (place : Place) (header : Inclusion) (run : Run) :
    Agree run (run.follow files (config.withPolicy .skip) skip place header)
      (run.follow files (config.withPolicy .abort) abort place header) := by
  unfold follow
  simp only [Configuration.includePaths_withPolicy, Configuration.errorPolicy_withPolicy,
    Configuration.maxIncludeDepth_withPolicy]
  cases files.resolve config.includePaths place.file header with
  | none => exact agree_ok rfl rfl
  | some resolved =>
    by_cases hvisited : run.visited.any (files.canonical resolved).same
    · simp only [hvisited, if_true]
      exact agree_ok rfl rfl
    · simp only [hvisited]
      match skip, abort, h with
      | none, none, _ => exact (agree_fail _ _).of_errors_eq rfl rfl
      | some skip, some abort, h =>
        cases hread : files.read (files.canonical resolved) with
        | error fault => exact (agree_fail _ _).of_errors_eq rfl rfl
        | ok text => exact (h _ _ _).of_errors_eq rfl rfl

theorem agree_take {skip abort : Option HeaderReader} (h : HeadersAgree skip abort) (file : Path)
    (run : Run) (finding : Finding) :
    Agree run (run.take files (config.withPolicy .skip) skip file finding)
      (run.take files (config.withPolicy .abort) abort file finding) := by
  cases finding with
  | declaration declaration => exact agree_declare run declaration
  | inclusion header position => exact agree_follow files config h ⟨file, position⟩ header run
  | diagnostic diagnostic => exact agree_fail run diagnostic

/-- Both policies see the same findings of a file, so that they agree on the file if they agree on
each finding. -/
theorem agree_scanWith {skip abort : Option HeaderReader} (h : HeadersAgree skip abort)
    (origin : Origin) (file : Path) (text : String) (run : Run) :
    Agree run (run.scanWith files (config.withPolicy .skip) skip origin file text)
      (run.scanWith files (config.withPolicy .abort) abort origin file text) := by
  unfold scanWith
  rw [Configuration.noteRules_withPolicy, Configuration.noteRules_withPolicy]
  induction Outline.ofText config.noteRules file origin text generalizing run with
  | nil => exact agree_ok rfl rfl
  | cons finding rest ih =>
    rw [List.foldlM_cons, List.foldlM_cons]
    exact (agree_take files config h file run finding).bind fun behind => ih behind

/-- The policies agree however deep headers may be nested. -/
theorem agree_scan (depth : Nat) (origin : Origin) (file : Path) (text : String) (run : Run) :
    Agree run (Run.scan files (config.withPolicy .skip) depth origin file text run)
      (Run.scan files (config.withPolicy .abort) depth origin file text run) := by
  induction depth generalizing origin file text run with
  | zero =>
    have hnone : HeadersAgree none none := trivial
    exact agree_scanWith files config hnone origin file text run
  | succ depth ih =>
    have hdeeper : HeadersAgree
        (some (Run.scan files (config.withPolicy .skip) depth .included))
        (some (Run.scan files (config.withPolicy .abort) depth .included)) :=
      fun path text run => ih .included path text run
    exact agree_scanWith files config hdeeper origin file text run

end Run

namespace Catalog

/-- Under `skip` the run over a text always ends with a report, whose errors are just those that the
catalog is told of. Under `abort` the run has the same result if there are none; otherwise it is
stopped by the first of them, and the catalog stays as it was. A file that cannot be read leaves the
catalog as it was under either policy; any other file is read as its text. -/
theorem policies_agree (files : Files) (config : Configuration) (catalog : Catalog)
    (file : Path) :
    (∀ text, ∃ report after,
      catalog.extractText files (config.withPolicy .skip) file text = (.ok report, after) ∧
      after.errors = catalog.errors ++ report.errors ∧
      catalog.extractText files (config.withPolicy .abort) file text =
        match report.errors with
        | [] => (.ok report, after)
        | first :: _ => (.error first, catalog)) ∧
    ∀ policy, catalog.extract files (config.withPolicy policy) file =
      match files.read file with
      | .error fault => (.error (.unreadable file fault), catalog)
      | .ok text =>
        let (result, after) := catalog.extractText files (config.withPolicy policy) file text
        (result.mapError .stopped, after) := by
  refine ⟨?_, fun policy => rfl⟩
  intro text
  rcases Run.agree_scan files config config.maxIncludeDepth .input (files.canonical file) text
    ⟨catalog.addInput file, .empty file, [files.canonical file]⟩ with
    ⟨behind, new, hskip, hreport, hcatalog, habort⟩
  have hnew : behind.report.errors = new := hreport
  rw [errors_addInput] at hcatalog
  refine ⟨behind.report, behind.catalog, ?_, ?_, ?_⟩
  · simp only [extractText, Configuration.maxIncludeDepth_withPolicy, hskip]
  · rw [hnew]
    exact hcatalog
  · rw [hnew]
    cases new with
    | nil =>
      have hok : _ = Except.ok behind := habort
      simp only [extractText, Configuration.maxIncludeDepth_withPolicy, hok]
    | cons first rest =>
      obtain ⟨stopped, hstopped, hfirst⟩ := habort
      simp only [extractText, Configuration.errorPolicy_withPolicy,
        Configuration.maxIncludeDepth_withPolicy, hstopped, hfirst, Option.getD_some]

end Catalog

end RemoteCalls
