import RemoteCalls.Extraction
import RemoteCalls.Proofs.Catalog.WellFormed
import RemoteCalls.Proofs.Outline.Isolation

/-!
# Sessions

A session is a row of calls, each of them a run over a file or a text, with files and settings of
its own. All that a run does to the catalog is to take in sightings, reports and input files, and
each of these steps keeps the catalog well formed.
-/

namespace RemoteCalls

namespace Catalog

/-- What a catalog becomes step by step. What is sighted is consistent. -/
inductive Grows (first : Catalog) : Catalog → Prop where
  | refl : Grows first first
  | add {catalog : Catalog} {d : Declaration} (hd : d.Consistent) (h : Grows first catalog) :
      Grows first (catalog.add d).1
  | report {catalog : Catalog} (diagnostic : Diagnostic) (h : Grows first catalog) :
      Grows first (catalog.report diagnostic)
  | addInput {catalog : Catalog} (file : Path) (h : Grows first catalog) :
      Grows first (catalog.addInput file)

theorem Grows.trans {first middle last : Catalog} (h : first.Grows middle)
    (hnext : middle.Grows last) : first.Grows last := by
  induction hnext with
  | refl => exact h
  | add hd _ ih => exact .add hd ih
  | report diagnostic _ ih => exact .report diagnostic ih
  | addInput file _ ih => exact .addInput file ih

/-- Each step keeps a catalog well formed, and so do all of them. -/
theorem Grows.wellFormed {first last : Catalog} (h : first.Grows last) (hfirst : first.WellFormed) :
    last.WellFormed := by
  induction h with
  | refl => exact hfirst
  | add hd _ ih => exact ih.add hd
  | report diagnostic _ ih => exact ih.report diagnostic
  | addInput file _ ih => exact ih.addInput file

end Catalog

/-- What is found in a text is consistent. -/
theorem Outline.consistent_ofText (rules : NoteRules) (file : Path) (origin : Origin)
    (text : String) : Consistent (ofText rules file origin text) := by
  unfold ofText
  cases Lexed.ofText text with
  | error fault => exact consistent_diagnostic _
  | ok lexed =>
    show Consistent (ofLexed rules file origin lexed)
    rw [ofLexed_eq]
    exact (consistent_scan _ _).append (consistent_dangling _ _)

namespace Run

/-- The catalog has grown, whether a run goes on or has been stopped. -/
def Grown (run : Run) : Except Stopped Run → Prop
  | .ok behind => run.catalog.Grows behind.catalog
  | .error stopped => run.catalog.Grows stopped.run.catalog

/-- Only the catalog of the run in front matters. -/
theorem Grown.of_grows {run other : Run} {result : Except Stopped Run}
    (hother : run.catalog.Grows other.catalog) (h : other.Grown result) : run.Grown result := by
  cases result with
  | ok behind => exact hother.trans h
  | error stopped => exact hother.trans h

theorem Grown.bind {run : Run} {result : Except Stopped Run} {next : Run → Except Stopped Run}
    (h : run.Grown result) (hnext : ∀ behind : Run, behind.Grown (next behind)) :
    run.Grown (result >>= next) := by
  cases result with
  | ok behind => exact (hnext behind).of_grows h
  | error stopped => exact h

theorem grown_fail (policy : ErrorPolicy) (run : Run) (diagnostic : Diagnostic) :
    run.Grown (run.fail policy diagnostic) := by
  cases policy with
  | abort => exact .report diagnostic .refl
  | skip => exact .report diagnostic .refl

theorem grown_declare (policy : ErrorPolicy) (run : Run) {d : Declaration} (hd : d.Consistent) :
    run.Grown (run.declare policy d) := by
  have hadd : run.catalog.Grows (run.catalog.add d).1 := .add hd .refl
  unfold declare
  cases hresult : run.catalog.add d with
  | mk catalog conflict =>
    rw [hresult] at hadd
    cases conflict with
    | none => exact hadd
    | some diagnostic => exact (grown_fail policy _ diagnostic).of_grows hadd

variable {deeper : Option HeaderReader}

theorem grown_follow (hdeeper : ∀ scan, deeper = some scan →
      ∀ path text run, Grown run (scan path text run))
    (files : Files) (config : Configuration) (place : Place) (header : Inclusion) (run : Run) :
    run.Grown (run.follow files config deeper place header) := by
  unfold follow
  cases files.resolve config.includePaths place.file header with
  | none => exact .refl
  | some resolved =>
    by_cases hvisited : run.visited.any (files.canonical resolved).same = true
    · simp only [hvisited, if_true]
      exact .refl
    · simp only [hvisited]
      cases deeper with
      | none => exact (grown_fail config.errorPolicy _ _).of_grows .refl
      | some scan =>
        cases files.read (files.canonical resolved) with
        | error fault => exact (grown_fail config.errorPolicy _ _).of_grows .refl
        | ok text => exact (hdeeper scan rfl _ _ _).of_grows .refl

theorem grown_take (hdeeper : ∀ scan, deeper = some scan →
      ∀ path text run, Grown run (scan path text run))
    (files : Files) (config : Configuration) (file : Path) (run : Run) {finding : Finding}
    (hfinding : ∀ d, finding = .declaration d → d.Consistent) :
    run.Grown (run.take files config deeper file finding) := by
  cases finding with
  | declaration d => exact grown_declare config.errorPolicy run (hfinding d rfl)
  | inclusion header position =>
    exact grown_follow hdeeper files config ⟨file, position⟩ header run
  | diagnostic diagnostic => exact grown_fail config.errorPolicy run diagnostic

/-- What is found in a file makes the catalog grow finding by finding. -/
theorem grown_scanWith (hdeeper : ∀ scan, deeper = some scan →
      ∀ path text run, Grown run (scan path text run))
    (files : Files) (config : Configuration) (origin : Origin) (file : Path) (text : String)
    (run : Run) : run.Grown (run.scanWith files config deeper origin file text) := by
  have hconsistent := Outline.consistent_ofText config.noteRules file origin text
  unfold scanWith
  generalize Outline.ofText config.noteRules file origin text = found at hconsistent ⊢
  induction found generalizing run with
  | nil => exact .refl
  | cons finding rest ih =>
    rw [List.foldlM_cons]
    have hfinding : ∀ d, finding = .declaration d → d.Consistent := by
      intro d hd
      exact hconsistent d (hd ▸ List.mem_cons_self)
    have hrest : Outline.Consistent rest := fun d hd => hconsistent d (List.mem_cons_of_mem _ hd)
    exact (grown_take hdeeper files config file run hfinding).bind fun behind => ih behind hrest

/-- A run makes the catalog grow however deep headers may be nested. -/
theorem grown_scan (files : Files) (config : Configuration) (depth : Nat) (origin : Origin)
    (file : Path) (text : String) (run : Run) :
    run.Grown (Run.scan files config depth origin file text run) := by
  induction depth generalizing origin file text run with
  | zero =>
    apply grown_scanWith
    intro scan hscan
    cases hscan
  | succ depth ih =>
    apply grown_scanWith
    intro scan hscan
    obtain rfl := Option.some.inj hscan
    exact fun path text run => ih .included path text run

end Run

namespace Catalog

variable (files : Files) (config : Configuration) (catalog : Catalog) (file : Path)

/-- A run over a text makes the catalog grow, or leaves it as it was. -/
theorem grows_extractText (text : String) :
    catalog.Grows (catalog.extractText files config file text).2 := by
  have hinput : catalog.Grows (catalog.addInput file) := .addInput file .refl
  have hscan := Run.grown_scan files config config.maxIncludeDepth .input (files.canonical file)
    text ⟨catalog.addInput file, .empty file, [files.canonical file]⟩
  unfold extractText
  simp only
  split
  · next run hrun =>
    rw [hrun] at hscan
    exact hinput.trans hscan
  · next stopped hstopped =>
    rw [hstopped] at hscan
    cases config.errorPolicy with
    | abort => exact .refl
    | skip => exact hinput.trans hscan

/-- A run over a file makes the catalog grow, or leaves it as it was. -/
theorem grows_extract : catalog.Grows (catalog.extract files config file).2 := by
  unfold extract
  cases files.read file with
  | error fault => exact .refl
  | ok text => exact grows_extractText files config catalog file text

end Catalog

/-- A call: a run over a file, or over a text that is taken for that of a file. -/
inductive Call where
  | ofFile (files : Files) (config : Configuration) (file : Path)
  | ofText (files : Files) (config : Configuration) (file : Path) (text : String)

/-- The catalog behind a call, whatever its result. -/
def Call.run (catalog : Catalog) : Call → Catalog
  | ofFile files config file => (catalog.extract files config file).2
  | ofText files config file text => (catalog.extractText files config file text).2

theorem Call.grows_run (call : Call) (catalog : Catalog) : catalog.Grows (call.run catalog) := by
  cases call with
  | ofFile files config file => exact catalog.grows_extract files config file
  | ofText files config file text => exact catalog.grows_extractText files config file text

namespace Catalog

/-- The catalog behind some calls that have begun with none. -/
def session (calls : List Call) : Catalog := calls.foldl Call.run .empty

theorem grows_foldl_run (calls : List Call) (catalog : Catalog) :
    catalog.Grows (calls.foldl Call.run catalog) := by
  induction calls generalizing catalog with
  | nil => exact .refl
  | cons call rest ih => exact (call.grows_run catalog).trans (ih _)

/-- A catalog is well formed behind any calls and in the midst of the next one, so that a look-up
finds the one record of a name. Calls do no more than what makes a catalog grow. A sighting leaves
all that is there but the record of its kind and name, and one that contradicts a definition changes
nothing. -/
theorem session_sound (calls : List Call) {catalog : Catalog} (h : (session calls).Grows catalog) :
    catalog.WellFormed ∧ catalog.LooksUp ∧
      (∀ call : Call, catalog.Grows (call.run catalog)) ∧
      ∀ d, catalog.Keeps d (catalog.add d).1 ∧
        ((catalog.add d).2 ≠ none → (catalog.add d).1 = catalog) := by
  have hsession : (session calls).WellFormed := (grows_foldl_run calls .empty).wellFormed
    wellFormed_empty
  have hcatalog : catalog.WellFormed := h.wellFormed hsession
  refine ⟨hcatalog, hcatalog.looksUp, fun call => call.grows_run catalog, ?_⟩
  intro d
  exact ⟨hcatalog.keeps_add d, add_of_conflict catalog d⟩

/-- A function with bodies on two lines, behind a call for a file that is not there. The second body
is refused and changes nothing. -/
theorem session_sound_of_second_body :
    let body (line : Nat) : Declaration :=
      .function ⟨"close", .base (.builtin "int") .plain, ⟨[], false⟩, .empty, .input,
        ⟨⟨"api.c"⟩, ⟨line, 1⟩⟩, true, some ⟨⟨"api.c"⟩, ⟨line, 1⟩⟩, []⟩
    let catalog := ((session [.ofFile .empty (.ofMarkers ["RPC"]) ⟨"api.c"⟩]).add (body 1)).1
    catalog.WellFormed ∧ catalog.LooksUp ∧ (catalog.add (body 2)).2 ≠ none ∧
      (catalog.add (body 2)).1 = catalog := by
  intro body catalog
  have hgrows : (session [.ofFile .empty (.ofMarkers ["RPC"]) ⟨"api.c"⟩]).Grows catalog :=
    .add rfl .refl
  have hrefused : (catalog.add (body 2)).2 ≠ none := by
    have hresult : (catalog.add (body 2)).2 =
        some (redefinition .function "close" ⟨⟨"api.c"⟩, ⟨2, 1⟩⟩ ⟨⟨"api.c"⟩, ⟨1, 1⟩⟩) := rfl
    simp [hresult]
  obtain ⟨hcatalog, hlooksUp, -, hsighting⟩ := session_sound _ hgrows
  exact ⟨hcatalog, hlooksUp, hrefused, (hsighting (body 2)).2 hrefused⟩

end Catalog

end RemoteCalls
