import RemoteCalls.Proofs.Catalog.Histories
import RemoteCalls.Proofs.Extraction.Policies
import RemoteCalls.Proofs.Token.Cut

/-!
# Texts that leave a construct open

A text is read to its end before anything is taken from it. A string, a character or a comment that
is left open is reported where it begins, and no declaration in front of it gets into the catalog,
so that just the texts without new declarations lose nothing.
-/

namespace RemoteCalls

/-- Nothing is found in a text that leaves a construct open but where it begins. -/
theorem Outline.ofText_of_unclosed (rules : NoteRules) (file : Path) (origin : Origin)
    {front behind : String} {cause : Unclosed} (hfront : Segment.Complete front.toList)
    (hbehind : Segment.cut 0 behind.toList = ([], some cause)) :
    ofText rules file origin (front ++ behind) =
      [.diagnostic ⟨⟨file, Position.start.after front.toList⟩, none, .unclosed cause⟩] := by
  unfold ofText
  rw [Lexed.ofText_of_unclosed hfront hbehind]

/-- A run over a text in which nothing is found but an error tells of it and goes on. -/
theorem Run.scan_of_diagnostic (files : Files) (depth : Nat) (run : Run) {config : Configuration}
    {origin : Origin} {file : Path} {text : String} {diagnostic : Diagnostic}
    (hpolicy : config.errorPolicy = .skip)
    (hfound : Outline.ofText config.noteRules file origin text = [.diagnostic diagnostic]) :
    Run.scan files config depth origin file text run =
      .ok { run with
        catalog := run.catalog.report diagnostic
        report := { run.report with errors := run.report.errors ++ [diagnostic] } } := by
  have hwith : ∀ deeper, Run.scanWith files config deeper origin file text run =
      .ok { run with
        catalog := run.catalog.report diagnostic
        report := { run.report with errors := run.report.errors ++ [diagnostic] } } := by
    intro deeper
    unfold Run.scanWith
    rw [hfound]
    simp only [List.foldlM_cons, List.foldlM_nil, Run.take, Run.fail, hpolicy]
    rfl
  cases depth with
  | zero => exact hwith none
  | succ depth => exact hwith _

namespace Catalog

/-- Two catalogs with the same records and the same placeholders. -/
structure SameDeclarations (catalog other : Catalog) : Prop where
  functions : catalog.functionTable = other.functionTable
  structures : catalog.structureTable = other.structureTable
  typedefs : catalog.typedefTable = other.typedefTable
  globals : catalog.globalTable = other.globalTable
  placeholders : catalog.placeholders = other.placeholders

theorem SameDeclarations.symm {catalog other : Catalog} (h : catalog.SameDeclarations other) :
    other.SameDeclarations catalog :=
  ⟨h.functions.symm, h.structures.symm, h.typedefs.symm, h.globals.symm, h.placeholders.symm⟩

theorem SameDeclarations.trans {catalog middle other : Catalog}
    (h : catalog.SameDeclarations middle) (hnext : middle.SameDeclarations other) :
    catalog.SameDeclarations other :=
  ⟨h.functions.trans hnext.functions, h.structures.trans hnext.structures,
    h.typedefs.trans hnext.typedefs, h.globals.trans hnext.globals,
    h.placeholders.trans hnext.placeholders⟩

theorem sameDeclarations_refl (catalog : Catalog) : catalog.SameDeclarations catalog :=
  ⟨rfl, rfl, rfl, rfl, rfl⟩

theorem SameDeclarations.add {catalog other : Catalog} (h : catalog.SameDeclarations other)
    (d : Declaration) : (catalog.add d).1.SameDeclarations (other.add d).1 := by
  obtain ⟨hfunctions, hstructures, htypedefs, hglobals, hplaceholders⟩ := h
  cases d with
  | placeholder p =>
    simp only [Catalog.add, hplaceholders]
    split
    · exact ⟨hfunctions, hstructures, htypedefs, hglobals, hplaceholders⟩
    · exact ⟨hfunctions, hstructures, htypedefs, hglobals, rfl⟩
  | function f => exact ⟨by simp only [Catalog.add, hfunctions], hstructures, htypedefs, hglobals,
      hplaceholders⟩
  | struct s => exact ⟨hfunctions, by simp only [Catalog.add, hstructures], htypedefs, hglobals,
      hplaceholders⟩
  | typedef t => exact ⟨hfunctions, hstructures, by simp only [Catalog.add, htypedefs], hglobals,
      hplaceholders⟩
  | «variable» v => exact ⟨hfunctions, hstructures, htypedefs, by simp only [Catalog.add, hglobals],
      hplaceholders⟩

theorem SameDeclarations.addAll {catalog other : Catalog} (h : catalog.SameDeclarations other)
    (ds : List Declaration) : (catalog.addAll ds).SameDeclarations (other.addAll ds) := by
  induction ds generalizing catalog other with
  | nil => exact h
  | cons d ds ih => exact ih (h.add d)

theorem sameDeclarations_addInput (catalog : Catalog) (file : Path) :
    (catalog.addInput file).SameDeclarations catalog := by
  unfold addInput
  split
  · exact ⟨rfl, rfl, rfl, rfl, rfl⟩
  · exact ⟨rfl, rfl, rfl, rfl, rfl⟩

theorem SameDeclarations.report {catalog other : Catalog} (h : catalog.SameDeclarations other)
    (diagnostic : Diagnostic) : (catalog.report diagnostic).SameDeclarations other :=
  ⟨h.functions, h.structures, h.typedefs, h.globals, h.placeholders⟩

/-- A construct that is left open behind a complete text is the only error of the run, at the place
where it begins, and the catalog gets no declaration. So the declarations of the text are there as
they are behind a run over the text alone if that run changes no declaration, and only then. -/
theorem extractText_of_unclosed (files : Files) (config : Configuration) (catalog : Catalog)
    (file : Path) {front behind : String} {cause : Unclosed}
    (hfront : Segment.Complete front.toList)
    (hbehind : Segment.cut 0 behind.toList = ([], some cause)) :
    let run := catalog.extractText files (config.withPolicy .skip) file
    let place : Place := ⟨files.canonical file, Position.start.after front.toList⟩
    let fault : Diagnostic := ⟨place, none, .unclosed cause⟩
    run (front ++ behind) =
        (.ok { Report.empty file with errors := [fault] }, (catalog.addInput file).report fault) ∧
      ((run (front ++ behind)).2.errors = catalog.errors ++ [fault] ∧
          (run (front ++ behind)).2.SameDeclarations (run front).2 ↔
        catalog.SameDeclarations (run front).2) := by
  intro run place fault
  have hresult : run (front ++ behind) =
      (.ok { Report.empty file with errors := [fault] },
        (catalog.addInput file).report fault) := by
    have hscan := Run.scan_of_diagnostic files config.maxIncludeDepth
      ⟨catalog.addInput file, .empty file, [files.canonical file]⟩
      (Configuration.errorPolicy_withPolicy config .skip)
      (Outline.ofText_of_unclosed (config.withPolicy .skip).noteRules (files.canonical file) .input
        hfront hbehind)
    show extractText _ _ _ _ _ = _
    simp only [extractText, Configuration.maxIncludeDepth_withPolicy, hscan]
    rfl
  have hsame : (run (front ++ behind)).2.SameDeclarations catalog := by
    rw [hresult]
    exact (sameDeclarations_addInput catalog file).report fault
  have herrors : (run (front ++ behind)).2.errors = catalog.errors ++ [fault] := by
    rw [hresult]
    show (catalog.addInput file).errors ++ [fault] = _
    rw [errors_addInput]
  refine ⟨hresult, ?_⟩
  constructor
  · rintro ⟨-, hkept⟩
    exact hsame.symm.trans hkept
  · intro hnone
    exact ⟨herrors, hsame.trans hnone⟩

/-- A comment that is left open behind the variable `a`, which gets no record. -/
theorem extractText_of_open_comment :
    let skip := (Configuration.ofMarkers ["RPC"]).withPolicy .skip
    let run := empty.extractText .empty skip ⟨"api.c"⟩
    let fault : Diagnostic := ⟨⟨⟨"api.c"⟩, ⟨2, 1⟩⟩, none, .unclosed .comment⟩
    run ("int a;\n" ++ "/* never closed") =
      (.ok { Report.empty ⟨"api.c"⟩ with errors := [fault] },
        (empty.addInput ⟨"api.c"⟩).report fault) := by
  intro skip run fault
  have hfront : Segment.Complete "int a;\n".toList := ⟨by decide +kernel, by decide +kernel⟩
  have hbehind : Segment.cut 0 "/* never closed".toList = ([], some .comment) := by decide +kernel
  have hplace : Position.start.after "int a;\n".toList = ⟨2, 1⟩ := by decide +kernel
  have hresult := (extractText_of_unclosed .empty (.ofMarkers ["RPC"]) empty ⟨"api.c"⟩
    hfront hbehind).1
  rw [hplace] at hresult
  exact hresult

/-- The variable `a` has a record behind a run over its declaration, which has no error, and has
none where a comment is left open behind it. -/
theorem not_sameDeclarations_of_open_comment :
    let skip := (Configuration.ofMarkers ["RPC"]).withPolicy .skip
    let run := empty.extractText .empty skip ⟨"api.c"⟩
    Segment.Complete "int a;\n".toList ∧
      Segment.cut 0 "/* never closed".toList = ([], some .comment) ∧
      (run "int a;\n").2.errors = [] ∧
      ¬ (run ("int a;\n" ++ "/* never closed")).2.SameDeclarations (run "int a;\n").2 := by
  intro skip run
  refine ⟨⟨by decide +kernel, by decide +kernel⟩, by decide +kernel, by decide +kernel, ?_⟩
  intro hsame
  have hnames : (run ("int a;\n" ++ "/* never closed")).2.globals.map (·.name) = ["a"] := by
    have halone : (run "int a;\n").2.globals.map (·.name) = ["a"] := by decide +kernel
    rw [globals, hsame.globals]
    exact halone
  exact absurd hnames (by decide +kernel)

end Catalog

end RemoteCalls
