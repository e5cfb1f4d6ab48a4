import RemoteCalls.Proofs.Outline.Indexed
import RemoteCalls.Proofs.Outline.Isolation
import RemoteCalls.Proofs.Outline.Scripts

/-!
# The reading of a file ends, inside of its bounds

Each step of the reading of a file takes a lexeme, and the readers that call each other return.
Written as a loop over the indices of the tokens, with the readers as scripts, the reading makes no
step that is not allowed: the index is always one of a token, no counter falls below zero, and all
slices lie inside of their rows.
-/

namespace RemoteCalls.Indexed

open Outline (step stepAt scan)

variable {α : Type}

/-! ### The loop over the tokens of a file -/

/-- Scripts for what is read at file scope. A declaration goes down a bounded number of steps. -/
structure Program where
  note : Script (Option Note)
  marker : Script (Option Note)
  macroCall : Script Unit
  external : Nat → Script (List Declaration)
  note_reader : note.reader = Outline.attributeNote
  marker_reader : marker.reader = Reader.marker
  macroCall_reader : macroCall.reader = Outline.macroCall
  external_reader : ∀ steps, (external steps).reader = Reader.external steps

/-- What the loop carries from turn to turn: the notes that wait for a declaration, how many linkage
blocks are open, and what is found. -/
structure Progress where
  pending : List PendingNote
  linkage : Nat
  found : List Finding

/-- The same with something more that is found. -/
def Progress.report (progress : Progress) (more : List Finding) : Progress :=
  { progress with found := progress.found ++ more }

/-- The result of the loop if it ends here. -/
def Progress.result (progress : Progress) : List Finding × Outline :=
  (progress.found, ⟨[], progress.pending, progress.linkage⟩)

/-- A turn of the loop over the tokens of a file. -/
abbrev ScanTurn := Turn Progress (List Finding × Outline)

/-- The notes that wait behind some trivia. -/
def absorb? (rules : NoteRules) : List PendingNote → List Trivia → Option (List PendingNote)
  | pending, [] => some pending
  | pending, .blankLine _ :: rest =>
    absorb? rules (pending.map fun p => { p with detached := true }) rest
  | pending, .comment body position :: rest => do
    let notes ← comment? rules body.toList
    absorb? rules (pending ++ notes.map (⟨·, position, false⟩)) rest

/-- The turn that ends with a failure: it goes on behind the declaration, or ends the loop. -/
def failTurn (setting : Setting) (row : List Lexeme) (i : Nat) (progress : Progress) :
    Failure → Option ScanTurn
  | .malformed diagnostic => do
    let front ← slot? row i
    let progress := { progress with pending := [] }
    match ← behindFailure? row i ((front.map Lexeme.position).getD setting.finish) with
    | .ok next => return .go next (progress.report [.diagnostic diagnostic])
    | .error opened =>
      return .stop (progress.report
        [.diagnostic diagnostic, .diagnostic ⟨setting.place opened, none, .unbalanced⟩]).result
  | .fatal diagnostic =>
    some (.stop ({ progress with pending := [] }.report [.diagnostic diagnostic]).result)
  | .outOfSteps => none

namespace Program

variable (program : Program) (setting : Setting) (row : List Lexeme) (i : Nat)
  (progress : Progress)

/-- Where a script begins at file scope. -/
def front (i : Nat) : Spot := ⟨i, .variable, []⟩

/-- The turn that takes an attribute note. -/
def noteTurn (position : Position) : Option ScanTurn := do
  match ← program.note.run setting row (front i) with
  | .ok (some note, spot) =>
    return .go spot.index
      { progress with pending := progress.pending ++ [⟨note, position, false⟩] }
  | .ok (none, spot) => return .go spot.index progress
  | .error (.malformed diagnostic) => return .go (i + 1) (progress.report [.diagnostic diagnostic])
  | .error (.fatal diagnostic) => return .stop (progress.report [.diagnostic diagnostic]).result
  | .error .outOfSteps => none

/-- The turn that takes a marker statement. -/
def markerTurn (position : Position) : Option ScanTurn := do
  match ← program.marker.run setting row (front i) with
  | .ok (some note, spot) =>
    return .go spot.index ({ progress with pending := [] }.report
      (PendingNote.dangling setting progress.pending ++
        [Finding.declaration (.placeholder ⟨note, setting.origin, setting.place position⟩)]))
  | .ok (none, spot) => return .go spot.index progress
  | .error failure => failTurn setting row i progress failure

/-- The turn that takes a macro call. -/
def macroTurn : Option ScanTurn := do
  match ← program.macroCall.run setting row (front i) with
  | .ok ((), spot) => return .go spot.index progress
  | .error failure => failTurn setting row i progress failure

/-- The turn that takes a declaration. -/
def declarationTurn : Option ScanTurn := do
  match ← (program.external (Reader.stepsFor (row.length - i))).run setting row (front i) with
  | .ok (found, spot) =>
    return .go spot.index ({ progress with pending := [] }.report
      (Outline.declarations setting spot.kind progress.pending found))
  | .error failure => failTurn setting row i progress failure

/-- A turn of the loop, by what begins at the index. -/
def turn (i : Nat) (progress : Progress) : Option Lexeme → Option ScanTurn
  | none => some (.stop progress.result)
  | some lexeme => do
    let pending ← absorb? setting.rules progress.pending lexeme.trivia
    let progress := { progress with pending := pending }
    let ahead (k : Nat) : Token := (row[i + k]?.map Lexeme.token).getD .endOfFile
    match Outline.Front.ofTokens setting.rules lexeme.token (ahead 1) (ahead 2) with
    | .inclusion header =>
      return .go (i + 1) ({ progress with pending := [] }.report
        (PendingNote.dangling setting pending ++ [Finding.inclusion header lexeme.position]))
    | .note => program.noteTurn setting row i progress lexeme.position
    | .semicolon => return .go (i + 1) progress
    | .closeBrace =>
      if 0 < progress.linkage then
        return .go (i + 1) { progress with linkage := ← progress.linkage.ppred }
      else
        return .go (i + 1) (progress.report
          [.diagnostic ⟨setting.place lexeme.position, some .variable, .strayBrace⟩])
    | .linkage => return .go (i + 3) { progress with linkage := progress.linkage + 1 }
    | .marker => program.markerTurn setting row i progress lexeme.position
    | .macroCall => program.macroTurn setting row i progress
    | .declaration => program.declarationTurn setting row i progress

/-- What is found in a row of lexemes, and where reading stands behind them. -/
def scan? : Option (List Finding × Outline) :=
  loop (program.turn setting row) row 0 ⟨[], 0, []⟩

end Program

theorem absorb?_eq (rules : NoteRules) (pending : List PendingNote) (trivia : List Trivia) :
    absorb? rules pending trivia = some (PendingNote.absorb rules pending trivia) := by
  induction trivia generalizing pending with
  | nil => rfl
  | cons first rest ih =>
    cases first with
    | blankLine position => exact ih _
    | comment body position =>
      rw [absorb?, comment?_eq]
      exact ih _

/-- A turn leads to where a step of reading leads to. -/
def Leads (row : List Lexeme) (found : List Finding) (result : List Finding × Outline) :
    ScanTurn → Prop
  | .go next progress => next ≤ row.length ∧ progress.found = found ++ result.1 ∧
      result.2 = ⟨row.drop next, progress.pending, progress.linkage⟩
  | .stop last => last = (found ++ result.1, result.2) ∧ result.2.rest = []

section

variable {setting : Setting} {row : List Lexeme} {i : Nat} {progress : Progress}

/-- Where the reading stands by index, as the lexemes that are left. -/
def Progress.outline (progress : Progress) (row : List Lexeme) (i : Nat) : Outline :=
  ⟨row.drop i, progress.pending, progress.linkage⟩

theorem leads_failTurn (hi : i < row.length) {failure : Failure} (h : failure ≠ .outOfSteps) :
    ∃ turn, failTurn setting row i progress failure = some turn ∧
      Leads row progress.found
        (Outline.recover setting (progress.outline row i) failure) turn := by
  cases failure with
  | malformed diagnostic =>
    obtain ⟨found, hfound, hmap, hbound⟩ := behindFailure?_eq hi
      (Reader.headPosition setting.finish (row.drop i))
    have hbehind : Outline.behindFailure none 0
        (Reader.headPosition setting.finish (progress.outline row i).rest) false
        (progress.outline row i).rest = found.map row.drop := hmap.symm
    rw [failTurn, slot?_of_le (Nat.le_of_lt hi)]
    simp only [Option.bind_eq_bind, Option.bind_some, headPosition_eq, hfound, Outline.recover,
      hbehind]
    cases found with
    | ok next => exact ⟨_, rfl, (hbound next rfl).2, rfl, rfl⟩
    | error opened => exact ⟨_, rfl, rfl, rfl⟩
  | fatal diagnostic => exact ⟨_, rfl, rfl, rfl⟩
  | outOfSteps => exact absurd rfl h

/-- A script that runs at file scope comes to what its reader comes to. -/
theorem run_front (setting : Setting) {m : Reader α} {script : Script α} (hreader : script.reader = m)
    (hi : i < row.length) :
    ∃ result, script.run setting row (Program.front i) = some result ∧
      result.map (Prod.map id (Spot.cursor row)) = m setting ⟨row.drop i, .variable, []⟩ ∧
      ∀ a spot, result = .ok (a, spot) → spot.index ≤ row.length := by
  subst hreader
  have hfront : (Program.front i).index ≤ row.length := Nat.le_of_lt hi
  obtain ⟨result, hrun, hsame, hwithin⟩ := script.run_agrees setting row hfront
  exact ⟨result, hrun, hsame, fun a spot h => (hwithin a spot h).2⟩

theorem front_consistent (row : List Lexeme) (i : Nat) :
    ((Program.front i).cursor row).Consistent :=
  Cursor.consistent_of_tags_nil rfl

/-- A reader that does not run out of steps has no other result than those of the text. -/
theorem ne_outOfSteps (setting : Setting) {cursor : Cursor} (hcursor : cursor.Consistent)
    {closed : Bool} {m wide : Reader α} {Q : α → Nat → Prop}
    (h : Reader.Reads closed cursor.rest.length m wide Q) :
    m setting cursor ≠ .error .outOfSteps := by
  intro hout
  have houtcome := h setting cursor hcursor rfl
  rw [hout] at houtcome
  exact houtcome

variable (program : Program)

theorem leads_noteTurn (progress : Progress) (hi : i < row.length) (position : Position) :
    ∃ turn, program.noteTurn setting row i progress position = some turn ∧
      Leads row progress.found
        (Outline.stepNote setting (progress.outline row i) position) turn := by
  obtain ⟨result, hrun, hsame, hwithin⟩ :=
    run_front setting program.note_reader hi
  have hpos : 0 < (row.drop i).length := by rw [List.length_drop]; omega
  have hsteps : Outline.attributeNote setting ⟨row.drop i, .variable, []⟩ ≠ .error .outOfSteps :=
    ne_outOfSteps setting (front_consistent row i) (Outline.attributeNote_reads hpos)
  have hread : Outline.run setting (progress.outline row i) Outline.attributeNote =
      result.map (Prod.map id (Spot.cursor row)) := hsame.symm
  rw [← hsame] at hsteps
  rw [Program.noteTurn, hrun, Outline.stepNote, hread]
  cases result with
  | ok result =>
    obtain ⟨note, spot⟩ := result
    have hspot := hwithin note spot rfl
    cases note with
    | some note => exact ⟨_, rfl, hspot, (List.append_nil _).symm, rfl⟩
    | none => exact ⟨_, rfl, hspot, (List.append_nil _).symm, rfl⟩
  | error failure =>
    cases failure with
    | malformed diagnostic =>
      refine ⟨_, rfl, hi, rfl, ?_⟩
      exact congrArg (fun rest => Outline.mk rest progress.pending progress.linkage)
        List.tail_drop
    | fatal diagnostic => exact ⟨_, rfl, rfl, rfl⟩
    | outOfSteps => exact absurd rfl hsteps

theorem leads_markerTurn (progress : Progress) (hi : i < row.length) (position : Position) :
    ∃ turn, program.markerTurn setting row i progress position = some turn ∧
      Leads row progress.found
        (Outline.stepMarker setting (progress.outline row i) position) turn := by
  obtain ⟨result, hrun, hsame, hwithin⟩ :=
    run_front setting program.marker_reader hi
  have hpos : 0 < (row.drop i).length := by rw [List.length_drop]; omega
  have hsteps : Reader.marker setting ⟨row.drop i, .variable, []⟩ ≠ .error .outOfSteps :=
    ne_outOfSteps setting (front_consistent row i) (Reader.marker_reads hpos)
  have hread : Outline.run setting (progress.outline row i) Reader.marker =
      result.map (Prod.map id (Spot.cursor row)) := hsame.symm
  rw [← hsame] at hsteps
  rw [Program.markerTurn, hrun, Outline.stepMarker, hread]
  cases result with
  | ok result =>
    obtain ⟨note, spot⟩ := result
    have hspot := hwithin note spot rfl
    cases note with
    | some note => exact ⟨_, rfl, hspot, rfl, rfl⟩
    | none => exact ⟨_, rfl, hspot, (List.append_nil _).symm, rfl⟩
  | error failure =>
    exact leads_failTurn hi fun hout => hsteps (congrArg Except.error hout)

theorem leads_macroTurn (progress : Progress) (hi : i < row.length) :
    ∃ turn, program.macroTurn setting row i progress = some turn ∧
      Leads row progress.found (Outline.stepMacro setting (progress.outline row i)) turn := by
  obtain ⟨result, hrun, hsame, hwithin⟩ :=
    run_front setting program.macroCall_reader hi
  have hsteps : Outline.macroCall setting ⟨row.drop i, .variable, []⟩ ≠ .error .outOfSteps :=
    ne_outOfSteps setting (front_consistent row i) Outline.macroCall_reads
  have hread : Outline.run setting (progress.outline row i) Outline.macroCall =
      result.map (Prod.map id (Spot.cursor row)) := hsame.symm
  rw [← hsame] at hsteps
  rw [Program.macroTurn, hrun, Outline.stepMacro, hread]
  cases result with
  | ok result =>
    exact ⟨_, rfl, hwithin result.1 result.2 rfl, (List.append_nil _).symm, rfl⟩
  | error failure =>
    exact leads_failTurn hi fun hout => hsteps (congrArg Except.error hout)

theorem leads_declarationTurn (progress : Progress) (hi : i < row.length) :
    ∃ turn, program.declarationTurn setting row i progress = some turn ∧
      Leads row progress.found
        (Outline.stepDeclaration setting (progress.outline row i)) turn := by
  obtain ⟨result, hrun, hsame, hwithin⟩ := run_front setting
    (program.external_reader (Reader.stepsFor (row.length - i))) hi
  have hsteps : Reader.readExternal setting (row.drop i) ≠ .error .outOfSteps := by
    intro hout
    have houtcome := Reader.readExternal_outcome setting (row.drop i) []
    rw [hout] at houtcome
    exact houtcome
  have hread : Reader.external (Reader.stepsFor (row.length - i)) setting
      ⟨row.drop i, .variable, []⟩ = Reader.readExternal setting (row.drop i) := by
    rw [Reader.readExternal, List.length_drop]
  have hread' : Reader.readExternal setting (progress.outline row i).rest =
      result.map (Prod.map id (Spot.cursor row)) := (hsame.trans hread).symm
  rw [← hread, ← hsame] at hsteps
  rw [Program.declarationTurn, hrun, Outline.stepDeclaration, hread']
  cases result with
  | ok result => exact ⟨_, rfl, hwithin result.1 result.2 rfl, rfl, rfl⟩
  | error failure =>
    exact leads_failTurn hi fun hout => hsteps (congrArg Except.error hout)

/-- A turn of the loop makes no step that is not allowed, and leads to where a step of reading leads
to. -/
theorem leads_turn (setting : Setting) (progress : Progress) {lexeme : Lexeme} {rest : List Lexeme} (hrow : row.drop i = lexeme :: rest) :
    ∃ turn, program.turn setting row i progress (some lexeme) = some turn ∧
      Leads row progress.found (step setting (progress.outline row i)) turn := by
  have hi := length_lt_of_drop hrow
  have hrest := drop_succ_of_drop hrow
  let taken : Progress :=
    { progress with pending := PendingNote.absorb setting.rules progress.pending lexeme.trivia }
  have hahead : ∀ k, (row[i + 1 + k]?.map Lexeme.token).getD .endOfFile =
      Reader.headToken (rest.drop k) := by
    intro k
    rw [← headToken_eq, ← hrest, List.drop_drop, List.head?_drop]
  have hstep : step setting (progress.outline row i) =
      stepAt setting (taken.outline row i) lexeme.position := by
    unfold step Progress.outline
    rw [hrow]
  have hof : Outline.Front.of setting.rules (taken.outline row i).rest =
      Outline.Front.ofTokens setting.rules lexeme.token (Reader.headToken (rest.drop 0))
        (Reader.headToken (rest.drop 1)) := by
    change Outline.Front.of setting.rules (row.drop i) = _
    rw [hrow, List.drop_one]
    rfl
  have htail : (taken.outline row i).rest.tail = row.drop (i + 1) := List.tail_drop
  rw [hstep, stepAt, hof]
  simp only [Program.turn, absorb?_eq, Option.bind_eq_bind, Option.bind_some]
  rw [hahead 0, hahead 1]
  cases hfront : Outline.Front.ofTokens setting.rules lexeme.token
    (Reader.headToken (rest.drop 0)) (Reader.headToken (rest.drop 1)) with
  | inclusion header => exact ⟨_, rfl, hi, rfl, congrArg (Outline.mk · [] _) htail⟩
  | note => exact leads_noteTurn program taken hi lexeme.position
  | semicolon =>
    exact ⟨_, rfl, hi, (List.append_nil _).symm, congrArg (Outline.mk · _ _) htail⟩
  | closeBrace =>
    by_cases hlinkage : 0 < progress.linkage
    · have hdown : progress.linkage.ppred = some (progress.linkage - 1) :=
        Nat.ppred_eq_pred hlinkage
      have hlinkage' : 0 < (taken.outline row i).linkage := hlinkage
      dsimp only
      rw [if_pos hlinkage, hdown, if_pos hlinkage']
      exact ⟨_, rfl, hi, (List.append_nil _).symm, congrArg (Outline.mk · _ _) htail⟩
    · have hlinkage' : ¬ 0 < (taken.outline row i).linkage := hlinkage
      dsimp only
      rw [if_neg hlinkage, if_neg hlinkage']
      exact ⟨_, rfl, hi, rfl, congrArg (Outline.mk · _ _) htail⟩
  | linkage =>
    have hlength := Outline.Front.length_of_linkage (hof.trans hfront)
    change 3 ≤ (row.drop i).length at hlength
    rw [List.length_drop] at hlength
    refine ⟨_, rfl, by omega, (List.append_nil _).symm, ?_⟩
    exact congrArg (Outline.mk · _ _) List.drop_drop
  | marker => exact leads_markerTurn program taken hi lexeme.position
  | macroCall => exact leads_macroTurn program taken hi
  | declaration => exact leads_declarationTurn program taken hi

/-- The loop from an index on comes to what reading comes to from there. -/
theorem loop_turn (hi : i ≤ row.length) :
    loop (program.turn setting row) row i progress =
      some (progress.found ++ (scan setting (progress.outline row i)).1,
        (scan setting (progress.outline row i)).2) := by
  induction hn : row.length - i using Nat.strongRecOn generalizing i progress with
  | ind n ih =>
    cases hrow : row.drop i with
    | nil =>
      have hnil : (progress.outline row i).rest = [] := hrow
      rw [Outline.scan_of_nil hnil, List.append_nil]
      refine loop_of_stop hi ?_
      rw [hrow]
      exact congrArg (fun rest => some (Turn.stop (_, Outline.mk rest _ _))) hrow.symm
    | cons lexeme rest =>
      have hlt := length_lt_of_drop hrow
      have hne : (progress.outline row i).rest ≠ [] := by
        change row.drop i ≠ []
        rw [hrow]
        exact List.cons_ne_nil _ _
      have hshrinks := (Outline.local_step setting hne).takes.shrinks
      change _ < (row.drop i).length at hshrinks
      rw [List.length_drop] at hshrinks
      obtain ⟨turn, hturn, hleads⟩ := leads_turn program setting progress hrow
      rw [Outline.scan_of_ne_nil hne]
      cases turn with
      | stop last =>
        obtain ⟨rfl, hnil⟩ := hleads
        rw [Outline.scan_of_nil hnil, List.append_nil]
        refine loop_of_stop hi ?_
        rw [hrow]
        exact hturn
      | go next progress' =>
        obtain ⟨hnext, hfound, hstep⟩ := hleads
        -- A step takes a lexeme, so that the loop moves on.
        rw [hstep] at hshrinks ⊢
        change (row.drop next).length < _ at hshrinks
        rw [List.length_drop] at hshrinks
        rw [loop_of_go hrow hturn (by omega), ih _ (by omega) hnext rfl, hfound,
          List.append_assoc]
        rfl

end

/-- The loop over the tokens of a file makes no step that is not allowed, and finds what reading
finds. -/
theorem Program.scan?_eq (program : Program) (setting : Setting) (row : List Lexeme) :
    program.scan? setting row = some (scan setting (Outline.start row)) :=
  loop_turn program (Nat.zero_le _)

/-- What is read at file scope is read by scripts. -/
theorem exists_program : Nonempty Program := by
  obtain ⟨note, hnote⟩ := attributeNote_scripted.script
  obtain ⟨marker, hmarker⟩ := marker_scripted.script
  obtain ⟨macroCall, hmacroCall⟩ := macroCall_scripted.script
  choose external hexternal using
    fun steps => (external_scripted (Nat.le_refl steps)).script
  exact ⟨⟨note, marker, macroCall, external, hnote, hmarker, hmacroCall, hexternal⟩⟩

/-! ### Readers that return -/

/-- A reader that goes down a bounded number of steps returns: from `enough` steps on, the bound
makes no difference to what it comes to, and is not what it fails for. -/
def Returns (read : Nat → Reader α) (enough : Nat) (setting : Setting) (cursor : Cursor) : Prop :=
  ∃ result, result ≠ .error .outOfSteps ∧
    ∀ steps, enough ≤ steps → read steps setting cursor = result

theorem returns_of_reads {read : Nat → Reader α} {enough : Nat} {setting : Setting}
    {cursor : Cursor} {closed : Bool} {wide : Reader α} {Q : α → Nat → Prop}
    (hreads : Reader.Reads closed cursor.rest.length (read enough) wide Q)
    (hcursor : cursor.Consistent)
    (hscripted : ∀ more, enough ≤ more → Scripted (read enough) (read more)) :
    Returns read enough setting cursor := by
  have hsteps := ne_outOfSteps setting hcursor hreads
  refine ⟨read enough setting cursor, hsteps, fun steps hle => ?_⟩
  exact (((hscripted steps hle).wide setting cursor).resolve_left hsteps).symm

/-- As many steps as the readers that call each other can go down in a row. -/
def enoughFor (row : List Lexeme) : Nat := 4 * row.length + 6

/-- The readers that call each other return, wherever they begin. Those that begin with a token of
their own are only called in front of one. -/
structure AllReturn (setting : Setting) (cursor : Cursor) : Prop where
  specifiers : Returns Reader.specifiers (enoughFor cursor.rest) setting cursor
  tagSpecifier : cursor.rest ≠ [] →
    Returns Reader.tagSpecifier (enoughFor cursor.rest) setting cursor
  structureBody : cursor.rest ≠ [] → ∀ start tag,
    Returns (fun steps => Reader.structureBody start tag (Reader.members steps))
      (enoughFor cursor.rest) setting cursor
  member : ∀ s : Structure, s.Consistent →
    Returns (Reader.member · s) (enoughFor cursor.rest) setting cursor
  declarator : ∀ abstract,
    Returns (Reader.declarator · abstract) (enoughFor cursor.rest) setting cursor
  parameters : cursor.rest ≠ [] →
    Returns Reader.parameters (enoughFor cursor.rest) setting cursor
  external : Returns Reader.external (enoughFor cursor.rest) setting cursor

theorem allReturn (setting : Setting) {cursor : Cursor} (hcursor : cursor.Consistent) :
    AllReturn setting cursor := by
  have hall := Reader.allRead (Nat.le_refl (enoughFor cursor.rest))
  have hscripted : ∀ more, enoughFor cursor.rest ≤ more →
      AllScripted (enoughFor cursor.rest) more := fun _ => allScripted
  have hpos : cursor.rest ≠ [] → 0 < cursor.rest.length := List.length_pos_iff.mpr
  constructor
  case specifiers =>
    exact returns_of_reads (hall.specifiers (by unfold enoughFor; omega)) hcursor
      fun more h => (hscripted more h).specifiers
  case tagSpecifier =>
    intro hne
    exact returns_of_reads (hall.tagSpecifier (by unfold enoughFor; omega) (hpos hne)) hcursor
      fun more h => (hscripted more h).tagSpecifier
  case structureBody =>
    intro hne start tag
    have hbody : Reader.Reads false cursor.rest.length
        (Reader.structureBody start tag (Reader.members (enoughFor cursor.rest)))
        (Reader.structureBody start tag (Reader.members (enoughFor cursor.rest)))
        fun s _ => s.Consistent := by
      refine Reader.structureBody_reads (hpos hne) fun opened s k hk hs => ?_
      exact hall.members opened (by unfold enoughFor; omega) hs
    exact returns_of_reads hbody hcursor
      fun more h => structureBody_scripted (hscripted more h).members
  case member =>
    intro s hs
    exact returns_of_reads (hall.member (by unfold enoughFor; omega) hs) hcursor
      fun more h => (hscripted more h).member s
  case declarator =>
    intro abstract
    exact returns_of_reads (hall.declarator abstract (by unfold enoughFor; omega)) hcursor
      fun more h => (hscripted more h).declarator abstract
  case parameters =>
    intro hne
    exact returns_of_reads (hall.parameters (by unfold enoughFor; omega) (hpos hne)) hcursor
      fun more h => (hscripted more h).parameters
  case external =>
    exact returns_of_reads
      (Reader.external_reads (by unfold enoughFor; omega) (Nat.le_refl _)) hcursor
      fun more h => external_scripted h

end RemoteCalls.Indexed

namespace RemoteCalls.Outline

open Indexed

/-- The reading of a row of lexemes ends and stays inside of its bounds. -/
structure Confined (setting : Setting) (row : List Lexeme) : Prop where
  /-- A turn at an index of the row goes on behind it, at most at the end of the row. -/
  turns : ∀ i pending linkage, i < row.length → ∃ next, i < next ∧ next ≤ row.length ∧
    (step setting ⟨row.drop i, pending, linkage⟩).2.rest = row.drop next
  /-- Nothing is left at the end, and more turns than lexemes make no difference. -/
  ends : (scan setting (start row)).2.rest = [] ∧ ∀ turns, row.length ≤ turns →
    walk setting turns (start row) = scan setting (start row)
  /-- The readers that call each other return at every index. -/
  returns : ∀ i kind tags, i ≤ row.length → Cursor.Consistent ⟨row.drop i, kind, tags⟩ →
    AllReturn setting ⟨row.drop i, kind, tags⟩
  /-- The readers are scripts, and with every index, counter and slice checked, the same is found. -/
  checked : Nonempty Program ∧
    ∀ program : Program, program.scan? setting row = some (scan setting (start row))
  /-- What is looked through inside of notes, bodies and comments is looked through by index. -/
  parens : ∀ inner, loop matchTurn inner 0 0 = some (Lexeme.parensMatch 0 inner)
  arguments : ∀ inner, arguments? inner = some (Lexeme.arguments inner)
  bodies : ∀ body, body? setting.rules body = some (Note.ofBody setting.rules true 0 [] body)
  comments : ∀ text, comment? setting.rules text = some (Note.ofComment setting.rules false 0 text)

theorem exists_next (setting : Setting) {row : List Lexeme} {i : Nat} (hi : i < row.length)
    (pending : List PendingNote) (linkage : Nat) :
    ∃ next, i < next ∧ next ≤ row.length ∧
      (step setting ⟨row.drop i, pending, linkage⟩).2.rest = row.drop next := by
  have hne : (Outline.mk (row.drop i) pending linkage).rest ≠ [] := by
    intro hnil
    exact absurd (List.drop_eq_nil_iff.mp hnil) (Nat.not_le_of_lt hi)
  obtain ⟨hsuffix, hshrinks, -⟩ := (local_step setting hne).takes
  have hrow := hsuffix.trans (List.drop_suffix i row)
  refine ⟨row.length - (step setting ⟨row.drop i, pending, linkage⟩).2.rest.length, ?_, ?_, ?_⟩
  · rw [List.length_drop] at hshrinks
    omega
  · exact Nat.sub_le _ _
  · exact List.suffix_iff_eq_drop.mp hrow

/-- The reading of a file ends, whatever its lexemes and the configuration are, and it never leaves
its bounds. -/
theorem scan_confined (setting : Setting) (row : List Lexeme) : Confined setting row where
  turns _ pending linkage hi := exists_next setting hi pending linkage
  ends := ⟨rest_scan setting _, fun _ h => walk_eq_scan h⟩
  returns _ _ _ _ hcursor := allReturn setting hcursor
  checked := ⟨exists_program, fun program => program.scan?_eq setting row⟩
  parens inner := loop_matchTurn inner (Nat.zero_le _) 0
  arguments := arguments?_eq
  bodies := body?_eq setting.rules
  comments := comment?_eq setting.rules

end RemoteCalls.Outline
