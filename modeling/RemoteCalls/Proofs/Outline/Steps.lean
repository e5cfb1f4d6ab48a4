import RemoteCalls.Proofs.Outline.External
import RemoteCalls.Proofs.Outline.Recovery

/-!
# One step of reading at file scope

Each step takes lexemes off the front of a row, and what it declares is consistent. A step that
reports nothing does the same if other lexemes are put behind the row, as long as the row is ended
and no semicolon comes behind it.
-/

namespace RemoteCalls.Outline

open Reader (Reads Outcome headToken)

/-- The same outline with more lexemes behind those that are left. -/
def extend (outline : Outline) (behind : List Lexeme) : Outline :=
  { outline with rest := outline.rest ++ behind }

/-- Nothing is reported. -/
def Clean (found : List Finding) : Prop := ∀ diagnostic, .diagnostic diagnostic ∉ found

/-- Whether a finding is a report. -/
def isReport : Finding → Bool
  | .diagnostic _ => true
  | _ => false

theorem clean_iff {found : List Finding} :
    Clean found ↔ ∀ finding ∈ found, isReport finding = false := by
  constructor
  · intro h finding hfinding
    cases finding with
    | diagnostic diagnostic => exact absurd hfinding (h diagnostic)
    | _ => rfl
  · intro h diagnostic hdiagnostic
    cases h _ hdiagnostic

instance (found : List Finding) : Decidable (Clean found) := decidable_of_iff _ clean_iff.symm

/-- What is declared is consistent. -/
def Consistent (found : List Finding) : Prop := ∀ d, .declaration d ∈ found → d.Consistent

theorem clean_append {found more : List Finding} :
    Clean (found ++ more) ↔ Clean found ∧ Clean more := by
  simp only [Clean, List.mem_append, not_or, forall_and]

theorem Consistent.append {found more : List Finding} (h : Consistent found)
    (hmore : Consistent more) : Consistent (found ++ more) := by
  intro d hd
  rcases List.mem_append.mp hd with hd | hd
  · exact h d hd
  · exact hmore d hd

/-- The result of a step has lexemes taken off the front, and only consistent declarations. -/
structure Takes (outline : Outline) (result : List Finding × Outline) : Prop where
  suffix : result.2.rest <:+ outline.rest
  shrinks : result.2.rest.length < outline.rest.length
  consistent : Consistent result.1

/-- A step takes lexemes off the front, and does not see what stands behind an ended row unless it
reports something. -/
structure Local (step : Setting → Outline → List Finding × Outline) (setting : Setting)
    (outline : Outline) : Prop where
  takes : Takes outline (step setting outline)
  undisturbed : Clean (step setting outline).1 → Ended outline.rest → ∀ finish behind,
    headToken behind ≠ .semicolon →
    step (setting.endingAt finish) (outline.extend behind) =
      ((step setting outline).1, (step setting outline).2.extend behind)

variable {step : Setting → Outline → List Finding × Outline} {setting : Setting}
  {outline : Outline}

/-! ### Findings without declarations -/

theorem consistent_nil : Consistent [] := fun _ hd => absurd hd List.not_mem_nil

theorem consistent_diagnostic (diagnostic : Diagnostic) : Consistent [.diagnostic diagnostic] := by
  intro d hd
  cases List.mem_singleton.mp hd

theorem not_clean_cons (diagnostic : Diagnostic) (found : List Finding) :
    ¬ Clean (.diagnostic diagnostic :: found) :=
  fun hclean => hclean diagnostic List.mem_cons_self

theorem consistent_dangling (setting : Setting) (pending : List PendingNote) :
    Consistent (PendingNote.dangling setting pending) := by
  intro d hd
  unfold PendingNote.dangling at hd
  split at hd
  · cases hd
  · obtain ⟨p, -, hp⟩ := List.mem_map.mp hd
    cases hp

/-- Where no error is reported on notes, nothing at all is said about them. -/
theorem dangling_eq_nil_of_clean {setting : Setting} {pending : List PendingNote}
    (h : Clean (PendingNote.dangling setting pending)) :
    PendingNote.dangling setting pending = [] := by
  unfold PendingNote.dangling at h ⊢
  split
  · rfl
  · next hrefuse =>
    rw [hrefuse] at h
    cases pending with
    | nil => rfl
    | cons p pending => exact absurd h (not_clean_cons _ _)

/-! ### Failures -/

/-- A failure is reported. -/
theorem not_clean_recover {failure : Failure} (h : failure ≠ .outOfSteps) :
    ¬ Clean (recover setting outline failure).1 := by
  cases failure with
  | malformed diagnostic =>
    unfold recover
    simp only
    split <;> exact not_clean_cons _ _
  | fatal diagnostic => exact not_clean_cons _ _
  | outOfSteps => exact absurd rfl h

/-- At least one lexeme is skipped behind a failure. -/
theorem takes_recover (hne : outline.rest ≠ []) (failure : Failure) :
    Takes outline (recover setting outline failure) := by
  have hpos : 0 < outline.rest.length := List.length_pos_iff.mpr hne
  cases failure with
  | malformed diagnostic =>
    unfold recover
    simp only
    split
    · next rest hrest =>
      obtain ⟨hsuffix, hless⟩ := behindFailure_suffix hrest
      exact ⟨hsuffix, hless hne, consistent_diagnostic diagnostic⟩
    · exact ⟨List.nil_suffix, hpos,
        (consistent_diagnostic diagnostic).append (consistent_diagnostic _)⟩
  | fatal diagnostic => exact ⟨List.nil_suffix, hpos, consistent_diagnostic diagnostic⟩
  | outOfSteps => exact ⟨List.nil_suffix, hpos, consistent_nil⟩

/-- A step that reports an error and goes on behind it. -/
theorem local_of_reported {diagnostic : Diagnostic} {next : Outline}
    (hstep : step setting outline = ([.diagnostic diagnostic], next))
    (hsuffix : next.rest <:+ outline.rest) (hless : next.rest.length < outline.rest.length) :
    Local step setting outline := by
  refine ⟨?_, ?_⟩
  · rw [hstep]
    exact ⟨hsuffix, hless, consistent_diagnostic diagnostic⟩
  · rw [hstep]
    exact fun hclean => absurd hclean (not_clean_cons _ _)

/-- A step with a closed reader. Behind it the lexemes that the reader left are left. -/
theorem local_of_closed {α : Type} {narrow : Reader α} {wide : List Lexeme → Reader α}
    {Q : α → Nat → Prop} (found : α → DeclKind → List Finding)
    (pending : α → List PendingNote) (hne : outline.rest ≠ [])
    (houtcome : ∀ behind, Outcome true (wide behind) Q setting ⟨outline.rest, .variable, []⟩
      (narrow setting ⟨outline.rest, .variable, []⟩))
    (hstep : step setting outline =
      match narrow setting ⟨outline.rest, .variable, []⟩ with
      | .ok (a, next) => (found a next.kind, ⟨next.rest, pending a, outline.linkage⟩)
      | .error failure => recover setting outline failure)
    (hwide : ∀ finish behind a next,
      wide behind (setting.endingAt finish) ⟨outline.rest ++ behind, .variable, []⟩ =
        .ok (a, next) →
      step (setting.endingAt finish) (outline.extend behind) =
        (found a next.kind, ⟨next.rest, pending a, outline.linkage⟩))
    (hconsistent : ∀ a k kind, Q a k → Consistent (found a kind)) :
    Local step setting outline := by
  cases hrun : narrow setting ⟨outline.rest, .variable, []⟩ with
  | error failure =>
    have hfailure := houtcome []
    rw [hrun] at hstep hfailure
    have hsteps : failure ≠ .outOfSteps := by
      rintro rfl
      exact hfailure
    refine ⟨?_, ?_⟩
    · rw [hstep]
      exact takes_recover hne failure
    · intro hclean
      rw [hstep] at hclean
      exact absurd hclean (not_clean_recover hsteps)
  | ok result =>
    obtain ⟨a, next⟩ := result
    rw [hrun] at hstep houtcome
    obtain ⟨-, hQ, hsuffix, hless, -⟩ := houtcome []
    refine ⟨?_, ?_⟩
    · rw [hstep]
      exact ⟨hsuffix, hless rfl, hconsistent a _ _ hQ⟩
    · intro _ hended finish behind hbehind
      obtain ⟨-, -, -, -, hsame⟩ := houtcome behind
      rw [hstep, hwide finish behind a (next.extend behind)
        (hsame finish behind ⟨hended, fun _ => hbehind⟩)]
      rfl

/-! ### Statements and declarations -/

theorem local_stepMarker (position : Position) (hne : outline.rest ≠ []) :
    Local (stepMarker · · position) setting outline := by
  have hmarker := Reader.marker_reads (List.length_pos_iff.mpr hne) setting
    ⟨outline.rest, .variable, []⟩ (Cursor.consistent_of_tags_nil rfl) rfl
  refine local_of_closed
    (fun note _ => match note with
      | some note => PendingNote.dangling setting outline.pending ++
          [.declaration (.placeholder ⟨note, setting.origin, setting.place position⟩)]
      | none => [])
    (fun note => match note with
      | some _ => []
      | none => outline.pending)
    hne (fun _ => hmarker) ?_ ?_ ?_
  · unfold stepMarker run
    cases Reader.marker setting ⟨outline.rest, .variable, []⟩ with
    | error failure => rfl
    | ok result =>
      rcases result with ⟨_ | note, next⟩
      · rfl
      · rfl
  · intro finish behind note next hrun
    unfold stepMarker run extend
    rw [hrun]
    cases note with
    | none => rfl
    | some note => rfl
  · intro note _ _ _
    cases note with
    | none => exact consistent_nil
    | some note =>
      refine (consistent_dangling _ _).append ?_
      intro d hd
      cases List.mem_singleton.mp hd
      trivial

theorem macroCall_reads {n : Nat} : Reads true n macroCall macroCall fun _ _ => True := by
  unfold macroCall
  apply Reader.advance_reads.bind
  intro _ k _ _
  have hgroup : Reads true k (Functor.discard Reader.group) (Functor.discard Reader.group) _ :=
    Reader.group_reads.discard
  exact hgroup.endStatement.mono fun _ _ _ _ => trivial

theorem local_stepMacro (hne : outline.rest ≠ []) : Local stepMacro setting outline := by
  have hcall := macroCall_reads setting ⟨outline.rest, .variable, []⟩
    (Cursor.consistent_of_tags_nil rfl) rfl
  refine local_of_closed (fun _ _ => []) (fun _ => outline.pending) hne (fun _ => hcall) ?_ ?_ ?_
  · unfold stepMacro run
    cases macroCall setting ⟨outline.rest, .variable, []⟩ with
    | error failure => rfl
    | ok result => rfl
  · intro finish behind _ next hrun
    unfold stepMacro run extend
    rw [hrun]
  · intro _ _ _ _
    exact consistent_nil

/-- The notes in front of consistent declarations leave them consistent. -/
theorem consistent_declarations (kind : DeclKind) (pending : List PendingNote)
    {found : List Declaration} (h : Declaration.AllConsistent found) :
    Consistent (declarations setting kind pending found) := by
  unfold declarations
  refine Consistent.append ?_ ?_
  · intro d hd
    obtain ⟨p, -, hp⟩ := List.mem_map.mp hd
    cases hp
  · intro d hd
    obtain ⟨other, hother, hd⟩ := List.mem_map.mp hd
    cases hd
    exact (h other hother).annotate _

theorem local_stepDeclaration (hne : outline.rest ≠ []) :
    Local stepDeclaration setting outline := by
  refine local_of_closed (fun found kind => declarations setting kind outline.pending found)
    (fun _ => []) hne (Reader.readExternal_outcome setting outline.rest) ?_ ?_ ?_
  · unfold stepDeclaration Reader.readExternal
    cases Reader.external (Reader.stepsFor outline.rest.length) setting
        ⟨outline.rest, .variable, []⟩ with
    | error failure => rfl
    | ok result => rfl
  · intro finish behind found next hrun
    unfold stepDeclaration extend
    rw [show Reader.readExternal (setting.endingAt finish) (outline.rest ++ behind) = _ from hrun]
    rfl
  · intro found _ kind hfound
    exact consistent_declarations kind outline.pending hfound

/-! ### Attribute notes -/

theorem noteArguments_reads {n : Nat} :
    Reads false n noteArguments noteArguments fun _ k => k ≤ n := by
  unfold noteArguments
  refine .ite_token (by decide) ?_ ?_
  · intro _
    refine Reader.group_reads.map ?_
    intro _ k hk _
    exact hk
  · exact Reader.pure_reads (Nat.le_refl n)

theorem attributeNote_reads {n : Nat} (hn : 0 < n) :
    Reads false n attributeNote attributeNote fun _ k => k < n := by
  unfold attributeNote
  apply Reader.noteRules_reads.look
  intro rules
  apply Reader.position_reads.look
  intro position
  apply (Reader.placeAt_reads position).look
  intro place
  apply Reader.advance_reads.bind
  intro _ m _ hm
  apply Reader.token_reads.bind
  intro t j hj _
  cases t with
  | identifier name =>
    apply Reader.advance_reads.bind
    intro _ i hi _
    refine noteArguments_reads.map ?_
    intro _ l hl _
    omega
  | _ =>
    intro setting cursor _ _
    rfl

/-- Where no marker is in front no marker statement begins. -/
theorem beginsMarker_of_not_marker {rules : NoteRules} {first : Token}
    (h : ∀ name, first = .identifier name → rules.isMarker name = false) (second : Token) :
    Reader.beginsMarker rules first second = false := by
  cases first with
  | identifier name =>
    have hmarker := h name rfl
    cases second <;> first | rfl | exact hmarker
  | _ => rfl

theorem noteArguments_apply (setting : Setting) (cursor : Cursor) :
    noteArguments setting cursor =
      if headToken cursor.rest = .openParen then
        (Reader.group >>= fun inner => pure (Lexeme.arguments inner)) setting cursor
      else .ok ([], cursor) := by
  change (if headToken cursor.rest = .openParen then _ else _ : Reader (List String)) setting
    cursor = _
  split <;> rfl

theorem noteArguments_extend {cursor next : Cursor} {arguments : List String}
    {behind : List Lexeme} (finish : Position) (hcursor : cursor.Consistent)
    (hended : Ended cursor.rest) (hbehind : headToken behind ≠ .semicolon)
    (h : noteArguments setting cursor = .ok (arguments, next)) :
    noteArguments (setting.endingAt finish) (cursor.extend behind) =
      .ok (arguments, next.extend behind) := by
  have hhead : headToken (cursor.extend behind).rest = headToken cursor.rest :=
    Reader.headToken_append hended.ne_nil behind
  rw [noteArguments_apply] at h ⊢
  rw [hhead]
  by_cases hparen : headToken cursor.rest = .openParen
  · rw [if_pos hparen] at h ⊢
    have hgroup : Reads true cursor.rest.length
        (Reader.group >>= fun inner => pure (Lexeme.arguments inner))
        (Reader.group >>= fun inner => pure (Lexeme.arguments inner)) fun _ _ => True :=
      Reader.group_reads.map fun _ _ _ _ => trivial
    have hrun := hgroup setting cursor hcursor rfl
    rw [h] at hrun
    obtain ⟨-, -, -, -, hwide⟩ := hrun
    exact hwide finish behind ⟨hended, fun _ => hbehind⟩
  · rw [if_neg hparen] at h ⊢
    cases h
    rfl

theorem attributeNote_cons (setting : Setting) (sign : Lexeme) (name : String)
    (position : Position) (trivia : List Trivia) (row : List Lexeme) :
    attributeNote setting ⟨sign :: ⟨.identifier name, position, trivia⟩ :: row, .variable, []⟩ =
      match noteArguments setting ⟨row, .variable, []⟩ with
      | .ok (arguments, next) =>
        .ok (if setting.rules.isMarker name then Note.of? name arguments else none, next)
      | .error failure => .error failure := by
  change (noteArguments >>= fun arguments =>
    pure (if setting.rules.isMarker name then Note.of? name arguments else none)) setting
      ⟨row, .variable, []⟩ = _
  rw [Reader.bind_apply]
  cases noteArguments setting ⟨row, .variable, []⟩ with
  | error failure => rfl
  | ok result => rfl

/-- A row does not end with a name, so that what is behind it does not look like arguments of the
name. -/
theorem attributeNote_extend {row behind : List Lexeme} {note : Option Note} {next : Cursor}
    (finish : Position) (hended : Ended row) (hbehind : headToken behind ≠ .semicolon)
    (h : attributeNote setting ⟨row, .variable, []⟩ = .ok (note, next)) :
    attributeNote (setting.endingAt finish) ⟨row ++ behind, .variable, []⟩ =
      .ok (note, next.extend behind) := by
  rcases row with _ | ⟨sign, _ | ⟨⟨token, position, trivia⟩, row⟩⟩
  · exact absurd rfl hended.ne_nil
  · change Except.error _ = Except.ok _ at h
    cases h
  · cases token with
    | identifier name =>
      have hne : row ≠ [] := by
        rintro rfl
        obtain ⟨front, last, hrow, hlast⟩ := hended
        obtain ⟨-, hl⟩ := List.append_inj' (show [sign] ++ [_] = front ++ [last] from hrow) rfl
        rw [← List.singleton_inj.mp hl] at hlast
        rcases hlast with hlast | hlast <;> cases hlast
      have hended' : Ended row := hended.suffix ⟨[sign, _], rfl⟩ hne
      rw [attributeNote_cons] at h
      rw [List.cons_append, List.cons_append, attributeNote_cons]
      cases hrun : noteArguments setting ⟨row, .variable, []⟩ with
      | error failure =>
        rw [hrun] at h
        cases h
      | ok result =>
        obtain ⟨arguments, next'⟩ := result
        rw [hrun] at h
        cases h
        have hrun' : noteArguments (setting.endingAt finish) ⟨row ++ behind, .variable, []⟩ =
            .ok (arguments, next.extend behind) :=
          noteArguments_extend finish (Cursor.consistent_of_tags_nil rfl) hended' hbehind hrun
        rw [hrun']
        rfl
    | _ =>
      change Except.error _ = Except.ok _ at h
      cases h

theorem local_stepNote (position : Position) (hne : outline.rest ≠ []) :
    Local (stepNote · · position) setting outline := by
  have hnote := attributeNote_reads (List.length_pos_iff.mpr hne) setting
    ⟨outline.rest, .variable, []⟩ (Cursor.consistent_of_tags_nil rfl) rfl
  cases hrun : attributeNote setting ⟨outline.rest, .variable, []⟩ with
  | error failure =>
    rw [hrun] at hnote
    have htail : outline.rest.tail.length < outline.rest.length := by
      have := List.length_pos_iff.mpr hne
      rw [List.length_tail]
      omega
    cases failure with
    | malformed diagnostic =>
      have hstep : stepNote setting outline position = ([.diagnostic diagnostic],
          ⟨outline.rest.tail, outline.pending, outline.linkage⟩) := by
        unfold stepNote run
        rw [hrun]
      exact local_of_reported hstep (List.tail_suffix _) htail
    | fatal diagnostic =>
      have hstep : stepNote setting outline position = ([.diagnostic diagnostic],
          ⟨[], outline.pending, outline.linkage⟩) := by
        unfold stepNote run
        rw [hrun]
      exact local_of_reported hstep List.nil_suffix (List.length_pos_iff.mpr hne)
    | outOfSteps => exact absurd hnote id
  | ok result =>
    obtain ⟨note, next⟩ := result
    rw [hrun] at hnote
    obtain ⟨-, hless, hsuffix, -, -⟩ := hnote
    have hstep : ∀ setting outline note next,
        attributeNote setting ⟨outline.rest, .variable, []⟩ = .ok (note, next) →
        stepNote setting outline position = ([], ⟨next.rest, outline.pending ++
          (note.map (⟨·, position, false⟩)).toList, outline.linkage⟩) := by
      intro setting outline note next hrun
      unfold stepNote run
      rw [hrun]
      cases note with
      | none => simp
      | some note => rfl
    refine ⟨?_, ?_⟩
    · rw [hstep setting outline note next hrun]
      exact ⟨hsuffix, hless, consistent_nil⟩
    · intro _ hended finish behind hbehind
      rw [hstep setting outline note next hrun, hstep _ (outline.extend behind) note _
        (attributeNote_extend finish hended hbehind hrun)]
      rfl

/-! ### The step -/

/-- What begins with three tokens does not depend on the tokens behind a semicolon or a brace. -/
theorem Front.ofTokens_of_second {rules : NoteRules} {first second : Token}
    (h : second = .semicolon ∨ second = .closeBrace) (third third' : Token) :
    ofTokens rules first second third = ofTokens rules first second third' := by
  rcases h with rfl | rfl <;> cases first <;> rfl

/-- What begins at the front of an ended row does not depend on what stands behind the row. -/
theorem Front.of_append {rules : NoteRules} {row : List Lexeme} (hended : Ended row)
    (behind : List Lexeme) : Front.of rules (row ++ behind) = Front.of rules row := by
  obtain ⟨front, last, rfl, hlast⟩ := hended
  rcases front with _ | ⟨first, _ | ⟨second, front⟩⟩
  · change ofTokens rules last.token _ _ = ofTokens rules last.token _ _
    rcases hlast with hlast | hlast
    · rw [hlast]
      rfl
    · rw [hlast]
      rfl
  · exact ofTokens_of_second hlast _ _
  · change ofTokens rules first.token second.token (headToken (front ++ [last] ++ behind)) =
      ofTokens rules first.token second.token (headToken (front ++ [last]))
    rw [Reader.headToken_append (by simp)]

theorem Front.beginsLinkage_of_linkage {rules : NoteRules} {first second third : Token}
    (h : ofTokens rules first second third = .linkage) :
    beginsLinkage first second third = true := by
  unfold ofTokens at h
  split at h
  · cases h
  · cases h
  · cases h
  · cases h
  · split at h
    · assumption
    · split at h
      · cases h
      · split at h <;> cases h

/-- A linkage block begins with three lexemes. -/
theorem Front.length_of_linkage {rules : NoteRules} {row : List Lexeme}
    (h : Front.of rules row = .linkage) : 3 ≤ row.length := by
  have hbegins := beginsLinkage_of_linkage h
  rcases row with _ | ⟨first, _ | ⟨second, _ | ⟨third, row⟩⟩⟩
  · cases hbegins
  · simp [headToken, beginsLinkage] at hbegins
  · simp [headToken, beginsLinkage] at hbegins
  · simp

/-- A step that takes a known number of lexemes off the front of an ended row. -/
theorem local_of_drop {k : Nat} {found : List Finding} (pending : List PendingNote)
    (linkage : Nat) (hk : 0 < k) (hlength : k ≤ outline.rest.length) (hfound : Consistent found)
    (hstep : step setting outline = (found, ⟨outline.rest.drop k, pending, linkage⟩))
    (hbehind : Ended outline.rest → ∀ finish behind,
      step (setting.endingAt finish) (outline.extend behind) =
        (found, ⟨(outline.rest ++ behind).drop k, pending, linkage⟩)) :
    Local step setting outline := by
  refine ⟨?_, ?_⟩
  · rw [hstep]
    refine ⟨List.drop_suffix _ _, ?_, hfound⟩
    change (outline.rest.drop k).length < outline.rest.length
    rw [List.length_drop]
    omega
  · intro _ hended finish behind _
    rw [hstep, hbehind hended, List.drop_append_of_le_length hlength]
    rfl

theorem local_stepAt (position : Position) (hne : outline.rest ≠ []) :
    Local (stepAt · · position) setting outline := by
  have hpos : 1 ≤ outline.rest.length := List.length_pos_iff.mpr hne
  have hfront : ∀ {front}, Front.of setting.rules outline.rest = front → Ended outline.rest →
      ∀ finish behind,
        Front.of (setting.endingAt finish).rules (outline.extend behind).rest = front :=
    fun h hended _ behind => (Front.of_append hended behind).trans h
  -- A step that is one of the others from an outline and from the same one with more behind.
  have hsame : ∀ {other : Setting → Outline → List Finding × Outline},
      Local other setting outline → stepAt setting outline position = other setting outline →
      (Ended outline.rest → ∀ finish behind,
        stepAt (setting.endingAt finish) (outline.extend behind) position =
          other (setting.endingAt finish) (outline.extend behind)) →
      Local (stepAt · · position) setting outline := by
    intro other hlocal hat hbehind
    refine ⟨?_, ?_⟩
    · rw [hat]
      exact hlocal.takes
    · rw [hat]
      intro hclean hended finish behind hhead
      rw [hbehind hended]
      exact hlocal.undisturbed hclean hended finish behind hhead
  cases hof : Front.of setting.rules outline.rest with
  | inclusion header =>
    have hinclusion : Consistent [.inclusion header position] := by
      intro d hd
      cases List.mem_singleton.mp hd
    refine local_of_drop [] outline.linkage Nat.one_pos hpos
      ((consistent_dangling setting outline.pending).append hinclusion) ?_ ?_
    · simp only [stepAt, hof, List.drop_one]
    · intro hended finish behind
      simp only [stepAt, hfront hof hended, List.drop_one]
      rfl
  | note =>
    refine hsame (local_stepNote position hne) ?_ ?_
    · simp only [stepAt, hof]
    · intro hended finish behind
      simp only [stepAt, hfront hof hended]
  | semicolon =>
    refine local_of_drop outline.pending outline.linkage Nat.one_pos hpos consistent_nil ?_ ?_
    · simp only [stepAt, hof, List.drop_one]
    · intro hended finish behind
      simp only [stepAt, hfront hof hended, List.drop_one]
      rfl
  | closeBrace =>
    by_cases hlinkage : 0 < outline.linkage
    · refine local_of_drop outline.pending (outline.linkage - 1) Nat.one_pos hpos consistent_nil
        ?_ ?_
      · simp only [stepAt, hof, hlinkage, List.drop_one, if_true]
      · intro hended finish behind
        have hlinkage' : 0 < (outline.extend behind).linkage := hlinkage
        simp only [stepAt, hfront hof hended, hlinkage', List.drop_one, if_true]
        rfl
    · have hstep : stepAt setting outline position =
          ([.diagnostic ⟨setting.place position, some .variable, .strayBrace⟩],
            ⟨outline.rest.tail, outline.pending, outline.linkage⟩) := by
        simp only [stepAt, hof, hlinkage]
        rfl
      have htail : outline.rest.tail.length < outline.rest.length := by
        rw [List.length_tail]
        omega
      exact local_of_reported hstep (List.tail_suffix _) htail
  | linkage =>
    refine local_of_drop outline.pending (outline.linkage + 1) (by decide)
      (Front.length_of_linkage hof) consistent_nil ?_ ?_
    · simp only [stepAt, hof]
    · intro hended finish behind
      simp only [stepAt, hfront hof hended]
      rfl
  | marker =>
    refine hsame (local_stepMarker position hne) ?_ ?_
    · simp only [stepAt, hof]
    · intro hended finish behind
      simp only [stepAt, hfront hof hended]
  | macroCall =>
    refine hsame (local_stepMacro hne) ?_ ?_
    · simp only [stepAt, hof]
    · intro hended finish behind
      simp only [stepAt, hfront hof hended]
  | declaration =>
    refine hsame (local_stepDeclaration hne) ?_ ?_
    · simp only [stepAt, hof]
    · intro hended finish behind
      simp only [stepAt, hfront hof hended]

/-- Each step of reading takes something, declares only what is consistent, and does not see what
stands behind an ended row unless it reports something. -/
theorem local_step (setting : Setting) {outline : Outline} (hne : outline.rest ≠ []) :
    Local Outline.step setting outline := by
  rcases outline with ⟨_ | ⟨lexeme, rest⟩, pending, linkage⟩
  · exact absurd rfl hne
  · have hlocal : Local (stepAt · · lexeme.position) setting
        ⟨lexeme :: rest, PendingNote.absorb setting.rules pending lexeme.trivia, linkage⟩ :=
      local_stepAt lexeme.position hne
    exact ⟨⟨hlocal.takes.suffix, hlocal.takes.shrinks, hlocal.takes.consistent⟩,
      hlocal.undisturbed⟩

end RemoteCalls.Outline
