import RemoteCalls.Proofs.Extraction.Events

/-!
# The order of a run

What a run does to its files is a row of events in which a header that is followed stands for what
it holds. Which events these are is a matter of the files and the settings alone, and the run is
that of the events.
-/

namespace RemoteCalls

/-- The events of the findings of a file below which include directives may be nested `depth` deep,
where some paths have been met before. A directive that leads nowhere or to a path met before is
passed over. Any other one is refused, for its depth or because the header cannot be read, or the
events of the header stand in its place. -/
inductive Unfolds (files : Files) (config : Configuration) :
    (depth : Nat) → (file : Path) → (visited : List Path) → List Finding → List Event → Prop where
  | nil {depth file visited} : Unfolds files config depth file visited [] []
  | declaration {depth file visited found events} (d : Declaration)
      (rest : Unfolds files config depth file visited found events) :
      Unfolds files config depth file visited (.declaration d :: found) (.declared d :: events)
  | diagnostic {depth file visited found events} (diagnostic : Diagnostic)
      (rest : Unfolds files config depth file visited found events) :
      Unfolds files config depth file visited (.diagnostic diagnostic :: found)
        (.reported diagnostic :: events)
  | passed {depth file visited found events} {header : Inclusion} (position : Position)
      (hmet : ∀ resolved, files.resolve config.includePaths file header = some resolved →
        visited.any (files.canonical resolved).same = true)
      (rest : Unfolds files config depth file visited found events) :
      Unfolds files config depth file visited (.inclusion header position :: found) events
  | tooDeep {file visited found events resolved} {header : Inclusion} (position : Position)
      (hresolved : files.resolve config.includePaths file header = some resolved)
      (hnew : visited.any (files.canonical resolved).same = false)
      (rest : Unfolds files config 0 file (files.canonical resolved :: visited) found events) :
      Unfolds files config 0 file visited (.inclusion header position :: found)
        (.refused (files.canonical resolved)
          ⟨⟨file, position⟩, none, .includeDepth config.maxIncludeDepth header.path⟩ :: events)
  | unreadable {depth file visited found events resolved fault} {header : Inclusion}
      (position : Position)
      (hresolved : files.resolve config.includePaths file header = some resolved)
      (hnew : visited.any (files.canonical resolved).same = false)
      (hread : files.read (files.canonical resolved) = .error fault)
      (rest : Unfolds files config (depth + 1) file (files.canonical resolved :: visited) found
        events) :
      Unfolds files config (depth + 1) file visited (.inclusion header position :: found)
        (.refused (files.canonical resolved)
          ⟨⟨file, position⟩, none, .unreadableHeader (files.canonical resolved) fault⟩ :: events)
  | followed {depth file visited found events resolved text inner} {header : Inclusion}
      (position : Position)
      (hresolved : files.resolve config.includePaths file header = some resolved)
      (hnew : visited.any (files.canonical resolved).same = false)
      (hread : files.read (files.canonical resolved) = .ok text)
      (within : Unfolds files config depth (files.canonical resolved)
        (files.canonical resolved :: visited)
        (Outline.ofText config.noteRules (files.canonical resolved) .included text) inner)
      (rest : Unfolds files config (depth + 1) file
        (Event.behind inner (files.canonical resolved :: visited)) found events) :
      Unfolds files config (depth + 1) file visited (.inclusion header position :: found)
        (.entered (files.canonical resolved) :: inner ++ events)

namespace Run

/-- Only where a run goes on does it matter how it does. -/
theorem bind_congr_of_ok {result : Except Stopped Run} {f g : Run → Except Stopped Run}
    (h : ∀ later, result = .ok later → f later = g later) : result >>= f = result >>= g := by
  cases result with
  | error stopped => rfl
  | ok later => exact h later rfl

variable {files : Files} {config : Configuration}

/-- Some events are what a run makes of a finding, whatever the catalog and the report: the run is
that of the events, and they unfold the finding in front of any others. -/
def Makes (files : Files) (config : Configuration) (depth : Nat) (deeper : Option HeaderReader)
    (file : Path) (visited : List Path) (finding : Finding) (front : List Event) : Prop :=
  (∀ run : Run, run.visited = visited →
    run.take files config deeper file finding =
      front.foldlM (Run.meet config.errorPolicy) run) ∧
  ∀ found events, Unfolds files config depth file (Event.behind front visited) found events →
    Unfolds files config depth file visited (finding :: found) (front ++ events)

/-- Reading headers is unfolding them, less deep by one. -/
def ReaderUnfolds (files : Files) (config : Configuration) : Nat → Option HeaderReader → Prop
  | 0, deeper => deeper = none
  | depth + 1, deeper => ∃ scan, deeper = some scan ∧ ∀ path text visited, ∃ events,
      Unfolds files config depth path visited
        (Outline.ofText config.noteRules path .included text) events ∧
      ∀ run : Run, run.visited = visited →
        scan path text run = events.foldlM (Run.meet config.errorPolicy) run

variable {depth : Nat} {deeper : Option HeaderReader}

/-- A directive is passed over, refused or followed, just as it unfolds. -/
theorem makes_inclusion (hdeeper : ReaderUnfolds files config depth deeper) (file : Path)
    (visited : List Path) (header : Inclusion) (position : Position) :
    ∃ front, Makes files config depth deeper file visited (.inclusion header position) front := by
  cases hresolved : files.resolve config.includePaths file header with
  | none =>
    refine ⟨[], fun run _ => ?_, fun found events hrest =>
      .passed position (fun resolved h => ?_) hrest⟩
    · simp only [take, follow, hresolved]
      rfl
    · rw [hresolved] at h
      cases h
  | some resolved =>
    cases hvisited : visited.any (files.canonical resolved).same with
    | true =>
      refine ⟨[], fun run hrun => ?_, fun found events hrest =>
        .passed position (fun other h => ?_) hrest⟩
      · simp only [take, follow, hresolved, hrun, hvisited]
        rfl
      · rw [hresolved] at h
        cases h
        exact hvisited
    | false =>
      cases depth with
      | zero =>
        obtain rfl : deeper = none := hdeeper
        refine ⟨[_], fun run hrun => ?_, fun found events hrest =>
          .tooDeep position hresolved hvisited hrest⟩
        simp only [take, follow, hresolved, hrun, hvisited, List.foldlM_cons, List.foldlM_nil, meet]
        simp
      | succ depth =>
        obtain ⟨scan, rfl, hscan⟩ := hdeeper
        cases hread : files.read (files.canonical resolved) with
        | error fault =>
          refine ⟨[_], fun run hrun => ?_, fun found events hrest =>
            .unreadable position hresolved hvisited hread hrest⟩
          simp only [take, follow, hresolved, hrun, hvisited, hread, List.foldlM_cons,
            List.foldlM_nil, meet]
          simp
        | ok text =>
          obtain ⟨inner, hinner, hrun⟩ :=
            hscan (files.canonical resolved) text (files.canonical resolved :: visited)
          refine ⟨.entered (files.canonical resolved) :: inner, fun run hvisitedRun => ?_,
            fun found events hrest => .followed position hresolved hvisited hread hinner ?_⟩
          · have htake : run.take files config (some scan) file (.inclusion header position) =
                scan (files.canonical resolved) text (run.enter (files.canonical resolved)) := by
              simp only [take, follow, hresolved, hvisitedRun, hvisited, hread]
              simp [enter, hvisitedRun]
            have hentered : (run.enter (files.canonical resolved)).visited =
                files.canonical resolved :: visited := congrArg _ hvisitedRun
            rw [htake, hrun _ hentered, List.foldlM_cons]
            rfl
          · rw [Event.behind_cons] at hrest
            exact hrest

theorem exists_makes (hdeeper : ReaderUnfolds files config depth deeper) (file : Path)
    (visited : List Path) (finding : Finding) :
    ∃ front, Makes files config depth deeper file visited finding front := by
  cases finding with
  | declaration d =>
    refine ⟨[.declared d], fun run _ => ?_, fun found events hrest => .declaration d hrest⟩
    simp [take, meet]
  | diagnostic diagnostic =>
    refine ⟨[.reported diagnostic], fun run _ => ?_, fun found events hrest =>
      .diagnostic diagnostic hrest⟩
    simp [take, meet]
  | inclusion header position => exact makes_inclusion hdeeper file visited header position

/-- All findings of a file unfold to events that do what the run does. -/
theorem unfolds_findings (hdeeper : ReaderUnfolds files config depth deeper) (file : Path)
    (visited : List Path) (found : List Finding) :
    ∃ events, Unfolds files config depth file visited found events ∧
      ∀ run : Run, run.visited = visited →
        found.foldlM (Run.take files config deeper file) run =
          events.foldlM (Run.meet config.errorPolicy) run := by
  induction found generalizing visited with
  | nil => exact ⟨[], .nil, fun _ _ => rfl⟩
  | cons finding found ih =>
    obtain ⟨front, htake, hfront⟩ := exists_makes hdeeper file visited finding
    obtain ⟨events, hrest, hevents⟩ := ih (Event.behind front visited)
    refine ⟨front ++ events, hfront found events hrest, fun run hrun => ?_⟩
    rw [List.foldlM_cons, List.foldlM_append, htake run hrun]
    refine bind_congr_of_ok fun later hlater => hevents later ?_
    rw [visited_foldlM_meet hlater, hrun]

/-- A run over a file is a row of events that only the files decide. -/
theorem unfolds_scan (files : Files) (config : Configuration) (depth : Nat) (origin : Origin)
    (file : Path) (text : String) (visited : List Path) :
    ∃ events, Unfolds files config depth file visited
        (Outline.ofText config.noteRules file origin text) events ∧
      ∀ run : Run, run.visited = visited →
        Run.scan files config depth origin file text run =
          events.foldlM (Run.meet config.errorPolicy) run := by
  induction depth generalizing origin file text visited with
  | zero =>
    have hdeeper : ReaderUnfolds files config 0 none := rfl
    exact unfolds_findings hdeeper file visited _
  | succ depth ih =>
    have hdeeper : ReaderUnfolds files config (depth + 1)
        (some (Run.scan files config depth .included)) :=
      ⟨_, rfl, fun path text visited => ih .included path text visited⟩
    exact unfolds_findings hdeeper file visited _

end Run

end RemoteCalls
