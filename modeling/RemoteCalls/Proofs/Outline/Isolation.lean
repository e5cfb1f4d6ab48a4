import RemoteCalls.Proofs.Outline.Steps

/-!
# A failure stays with its declaration

The findings of a file are those of its steps in a row. In front of a declaration that cannot be
read they are what they are without it, and behind it they are those of a file that begins there.
-/

namespace RemoteCalls.Outline

open Reader (headToken)

variable {setting : Setting} {outline : Outline}

/-! ### All steps in a row -/

theorem walk_of_nil (h : outline.rest = []) (steps : Nat) :
    walk setting steps outline = ([], outline) := by
  cases steps with
  | zero => rfl
  | succ steps =>
    unfold walk
    simp [h]

theorem walk_succ (hne : outline.rest ≠ []) (steps : Nat) :
    walk setting (steps + 1) outline =
      ((step setting outline).1 ++ (walk setting steps (step setting outline).2).1,
        (walk setting steps (step setting outline).2).2) := by
  rw [walk]
  simp [hne]

/-- Each step takes a lexeme, so that more steps than lexemes make no difference. -/
theorem walk_eq_scan {steps : Nat} (h : outline.rest.length ≤ steps) :
    walk setting steps outline = scan setting outline := by
  have hwalk : ∀ {left steps : Nat} {outline : Outline}, outline.rest.length ≤ left →
      outline.rest.length ≤ steps → walk setting left outline = walk setting steps outline := by
    intro left
    induction left with
    | zero =>
      intro steps outline hleft _
      have hnil : outline.rest = [] := List.length_eq_zero_iff.mp (Nat.le_zero.mp hleft)
      rw [walk_of_nil hnil, walk_of_nil hnil]
    | succ left ih =>
      intro steps outline hleft hsteps
      by_cases hnil : outline.rest = []
      · rw [walk_of_nil hnil, walk_of_nil hnil]
      · have hpos := List.length_pos_iff.mpr hnil
        have hshrinks := (local_step setting hnil).takes.shrinks
        obtain ⟨more, rfl⟩ := Nat.exists_eq_add_of_le' (Nat.le_trans hpos hsteps)
        rw [walk_succ hnil, walk_succ hnil, ih (by omega) (by omega : _ ≤ more)]
  exact hwalk h (Nat.le_refl _)

theorem scan_of_nil (h : outline.rest = []) : scan setting outline = ([], outline) :=
  walk_of_nil h _

theorem scan_of_ne_nil (hne : outline.rest ≠ []) :
    scan setting outline =
      ((step setting outline).1 ++ (scan setting (step setting outline).2).1,
        (scan setting (step setting outline).2).2) := by
  have hshrinks := (local_step setting hne).takes.shrinks
  have hpos := List.length_pos_iff.mpr hne
  obtain ⟨more, hmore⟩ := Nat.exists_eq_add_of_le' hpos
  unfold scan
  rw [hmore, walk_succ hne, walk_eq_scan (by omega)]
  rfl

/-- What holds at the end of a row, and passes back over each step, holds from the beginning. -/
theorem scan_induction (setting : Setting) {P : Outline → Prop}
    (nil : ∀ outline, outline.rest = [] → P outline)
    (step : ∀ outline, outline.rest ≠ [] → P (step setting outline).2 → P outline)
    (outline : Outline) : P outline := by
  induction hn : outline.rest.length using Nat.strongRecOn generalizing outline with
  | ind n ih =>
    by_cases hnil : outline.rest = []
    · exact nil outline hnil
    · refine step outline hnil (ih _ ?_ _ rfl)
      rw [← hn]
      exact (local_step setting hnil).takes.shrinks

/-- Nothing is left at the end. -/
theorem rest_scan (setting : Setting) (outline : Outline) :
    (scan setting outline).2.rest = [] := by
  induction outline using scan_induction setting with
  | nil outline hnil => rw [scan_of_nil hnil, hnil]
  | step outline hne ih => rw [scan_of_ne_nil hne, ih]

/-- All declarations of a file are consistent. -/
theorem consistent_scan (setting : Setting) (outline : Outline) :
    Consistent (scan setting outline).1 := by
  induction outline using scan_induction setting with
  | nil outline hnil =>
    rw [scan_of_nil hnil]
    exact consistent_nil
  | step outline hne ih =>
    rw [scan_of_ne_nil hne]
    exact (local_step setting hne).takes.consistent.append ih

/-- Where nothing is reported up to the end of an ended row, the same is found in front of other
lexemes, and reading goes on with them from there. -/
theorem scan_extend {behind : List Lexeme} (finish : Position)
    (hbehind : headToken behind ≠ .semicolon) (hclean : Clean (scan setting outline).1)
    (hended : outline.rest = [] ∨ Ended outline.rest) :
    scan (setting.endingAt finish) (outline.extend behind) =
      ((scan setting outline).1 ++
          (scan (setting.endingAt finish) ((scan setting outline).2.extend behind)).1,
        (scan (setting.endingAt finish) ((scan setting outline).2.extend behind)).2) := by
  induction outline using scan_induction setting with
  | nil outline hnil =>
    rw [scan_of_nil hnil]
    rfl
  | step outline hne ih =>
    have hended' : Ended outline.rest := hended.resolve_left hne
    have hlocal : Local step setting outline := local_step setting hne
    rw [scan_of_ne_nil hne] at hclean ⊢
    obtain ⟨hfirst, hlater⟩ := clean_append.mp hclean
    have hstep := hlocal.undisturbed hfirst hended' finish behind hbehind
    have hnext : (step setting outline).2.rest = [] ∨ Ended (step setting outline).2.rest := by
      by_cases hnil : (step setting outline).2.rest = []
      · exact Or.inl hnil
      · exact Or.inr (hended'.suffix hlocal.takes.suffix hnil)
    have hne' : (outline.extend behind).rest ≠ [] := by
      intro hnil
      exact hne (List.append_eq_nil_iff.mp hnil).1
    rw [scan_of_ne_nil hne', hstep]
    simp only [ih hlater hnext, List.append_assoc]

/-! ### Isolation -/

theorem ofLexed_eq (rules : NoteRules) (file : Path) (origin : Origin) (lexed : Lexed) :
    ofLexed rules file origin lexed =
      (scan ⟨rules, file, origin, lexed.finish⟩ (start lexed.lexemes)).1 ++
        PendingNote.dangling ⟨rules, file, origin, lexed.finish⟩
          (PendingNote.absorb rules
            (scan ⟨rules, file, origin, lexed.finish⟩ (start lexed.lexemes)).2.pending
            lexed.closing) := rfl

/-- A declaration that cannot be read is skipped up to where it can have ended, with the notes that
wait for it. -/
theorem step_of_malformed {failed behind : List Lexeme} {pending : List PendingNote}
    {linkage : Nat} {diagnostic : Diagnostic}
    (hfront : Front.of setting.rules (failed ++ behind) = .declaration)
    (hfailed : Reader.readExternal setting (failed ++ behind) = .error (.malformed diagnostic))
    (hboundary : ShortestBoundary failed) :
    step setting ⟨failed ++ behind, pending, linkage⟩ =
      ([.diagnostic diagnostic], ⟨behind, [], linkage⟩) := by
  have hskip := behindFailure_of_shortest hboundary behind
    (Reader.headPosition setting.finish (failed ++ behind))
  rcases hrow : failed ++ behind with _ | ⟨lexeme, rest⟩
  · rw [(List.append_eq_nil_iff.mp hrow).1] at hboundary
    exact absurd hboundary.boundary not_boundary_nil
  · rw [hrow] at hfront hfailed hskip
    simp only [step, stepAt, hfront, stepDeclaration, hfailed, recover, hskip]

/-- A declaration that cannot be read leaves the rest of its file alone. Let a row end with a
semicolon or a brace, be read without errors, and leave no note waiting and no linkage block open;
behind it, let a declaration fail that is the shortest row at whose end it can have ended. Then what
is found in all of the file is what is found in the row in front, one report on the declaration,
and what is found in a file that begins behind the declaration. -/
theorem ofLexed_of_failed_declaration (rules : NoteRules) (file : Path) (origin : Origin)
    {before failed behind : List Lexeme} {finish' finish : Position}
    {closing' closing : List Trivia} {diagnostic : Diagnostic}
    (hclean : Clean (ofLexed rules file origin ⟨before, finish', closing'⟩))
    (hended : before = [] ∨ Ended before)
    (hpending : (scan ⟨rules, file, origin, finish'⟩ (start before)).2.pending = [])
    (hlinkage : (scan ⟨rules, file, origin, finish'⟩ (start before)).2.linkage = 0)
    (hfront : Front.of rules (failed ++ behind) = .declaration)
    (hfailed : Reader.readExternal ⟨rules, file, origin, finish⟩ (failed ++ behind) =
      .error (.malformed diagnostic))
    (hboundary : ShortestBoundary failed) :
    ofLexed rules file origin ⟨before ++ failed ++ behind, finish, closing⟩ =
        ofLexed rules file origin ⟨before, finish', closing'⟩ ++ [.diagnostic diagnostic] ++
          ofLexed rules file origin ⟨behind, finish, closing⟩ ∧
      diagnostic.subject.isSome = true := by
  have hhead : headToken (failed ++ behind) ≠ .semicolon := by
    intro hsemicolon
    unfold Front.of at hfront
    rw [hsemicolon] at hfront
    cases hfront
  have hsubject : diagnostic.subject.isSome = true := by
    have houtcome := Reader.readExternal_outcome ⟨rules, file, origin, finish⟩
      (failed ++ behind) []
    rw [hfailed] at houtcome
    exact houtcome
  refine ⟨?_, hsubject⟩
  have hrest := rest_scan ⟨rules, file, origin, finish'⟩ (start before)
  rw [ofLexed_eq] at hclean
  simp only [ofLexed_eq]
  have hextend := scan_extend finish hhead (clean_append.mp hclean).1 hended
  rcases hscan : scan ⟨rules, file, origin, finish'⟩ (start before) with
    ⟨found, rest, pending, linkage⟩
  simp only [hscan] at hclean hpending hlinkage hrest hextend ⊢
  subst hpending hlinkage hrest
  -- Nothing is said at the end of the row in front, and its steps pass on to the declaration.
  rw [dangling_eq_nil_of_clean (clean_append.mp hclean).2, List.append_nil]
  have hwhole : scan ⟨rules, file, origin, finish⟩ (start (before ++ failed ++ behind)) =
      (found ++ (scan ⟨rules, file, origin, finish⟩ (start (failed ++ behind))).1,
        (scan ⟨rules, file, origin, finish⟩ (start (failed ++ behind))).2) := by
    rw [List.append_assoc]
    exact hextend
  have hne : (start (failed ++ behind)).rest ≠ [] := by
    intro hnil
    rw [(List.append_eq_nil_iff.mp hnil).1] at hboundary
    exact not_boundary_nil hboundary.boundary
  have hstep : step ⟨rules, file, origin, finish⟩ (start (failed ++ behind)) =
      ([.diagnostic diagnostic], start behind) :=
    step_of_malformed hfront hfailed hboundary
  rw [hwhole, scan_of_ne_nil hne, hstep]
  simp only [List.append_assoc]

/-- The file `int a; int 5; int b;`, a declaration to a line. Only the number is reported. -/
theorem ofLexed_of_number :
    let line (number : Nat) (name : Token) : List Lexeme :=
      [⟨.builtin "int", ⟨number, 1⟩, []⟩, ⟨name, ⟨number, 5⟩, []⟩, ⟨.semicolon, ⟨number, 6⟩, []⟩]
    let first := line 1 (.identifier "a")
    let second := line 2 (.number "5")
    let third := line 3 (.identifier "b")
    let place : Place := ⟨⟨"api.c"⟩, ⟨2, 5⟩⟩
    let outline := ofLexed ⟨["RPC"], .refuse⟩ ⟨"api.c"⟩ .input
    outline ⟨first ++ second ++ third, ⟨4, 1⟩, []⟩ =
        outline ⟨first, ⟨2, 1⟩, []⟩ ++
          [.diagnostic ⟨place, some .variable, .expected .identifier (.number "5")⟩] ++
          outline ⟨third, ⟨4, 1⟩, []⟩ ∧
      (some DeclKind.variable).isSome = true := by
  intro line first second third place outline
  have hfirst : outline ⟨first, ⟨2, 1⟩, []⟩ =
      [.declaration (.variable ⟨"a", .base (.builtin "int") .plain, false, false, none, .input,
        ⟨⟨"api.c"⟩, ⟨1, 1⟩⟩, []⟩)] := rfl
  have hboundary : ShortestBoundary (second.dropLast ++ [⟨.semicolon, ⟨2, 6⟩, []⟩]) :=
    shortestBoundary_of_plain (by decide) rfl
  refine ofLexed_of_failed_declaration ⟨["RPC"], .refuse⟩ ⟨"api.c"⟩ .input ?_
    (Or.inr ⟨first.dropLast, _, rfl, Or.inl rfl⟩) rfl rfl rfl rfl hboundary
  change Clean (outline ⟨first, ⟨2, 1⟩, []⟩)
  rw [hfirst]
  simp [Clean]

end RemoteCalls.Outline
