import RemoteCalls.Proofs.Indexed
import RemoteCalls.Proofs.Token.Nesting

/-!
# Lexemes by index

The functions that cut a row of lexemes at the end of a group or of an expression are loops over the
indices of the row. All steps of these loops are allowed.
-/

namespace RemoteCalls.Indexed

/-! ## The end of a group -/

/-- A turn of the search for the delimiter that closes a group. The counter is one for the group
itself. -/
def closerTurn (i depth : Nat) : Option Lexeme → Option (Turn Nat (Option Nat))
  | none => some (.stop none)
  | some lexeme =>
    if lexeme.token.isOpener then some (.go (i + 1) (depth + 1))
    else if lexeme.token.isCloser then do
      let depth ← depth.ppred
      return if depth = 0 then .stop (some i) else .go (i + 1) depth
    else some (.go (i + 1) depth)

/-- The lexemes from an index up to the delimiter that closes the group around them, and the index
behind it. -/
def group? (row : List Lexeme) (i : Nat) : Option (Option (List Lexeme × Nat)) := do
  match ← loop closerTurn row i 1 with
  | none => return none
  | some stop => return some (← slice? row i stop, stop + 1)

/-- Only a delimiter that closes the group itself ends the search for it. -/
theorem closerTurn_of_inside {depth : Nat} {lexeme : Lexeme}
    (h : ¬ (depth = 0 ∧ lexeme.token.isCloser = true)) (i : Nat) :
    closerTurn i (depth + 1) (some lexeme) =
      some (.go (i + 1) (Lexeme.depthBehind depth lexeme.token + 1)) := by
  simp only [closerTurn, Lexeme.depthBehind]
  by_cases hopener : lexeme.token.isOpener = true
  · rw [if_pos hopener, if_pos hopener]
  · rw [if_neg hopener, if_neg hopener]
    by_cases hcloser : lexeme.token.isCloser = true
    · rw [if_pos hcloser, if_pos hcloser]
      cases depth with
      | zero => exact absurd ⟨rfl, hcloser⟩ h
      | succ depth => rfl
    · rw [if_neg hcloser, if_neg hcloser]

theorem loop_closerTurn (row : List Lexeme) {i : Nat} (hi : i ≤ row.length) (depth : Nat) :
    loop closerTurn row i (depth + 1) =
      some ((Lexeme.splitGroup depth (row.drop i)).map fun split => i + split.1.length) := by
  induction hrow : row.drop i generalizing i depth with
  | nil =>
    refine loop_of_stop hi ?_
    rw [hrow]
    rfl
  | cons lexeme rest ih =>
    rw [Lexeme.splitGroup]
    by_cases hends : depth = 0 ∧ lexeme.token.isCloser = true
    · rw [if_pos hends]
      refine loop_of_stop hi ?_
      obtain ⟨rfl, hcloser⟩ := hends
      rw [hrow, List.head?_cons, closerTurn, Token.isOpener_of_isCloser hcloser, hcloser]
      rfl
    · rw [if_neg hends, loop_of_go hrow (closerTurn_of_inside hends i) (Nat.lt_succ_self i),
        ih (length_lt_of_drop hrow) _ (drop_succ_of_drop hrow)]
      cases Lexeme.splitGroup (Lexeme.depthBehind depth lexeme.token) rest with
      | none => rfl
      | some split =>
        simp only [Option.map_some, List.length_cons]
        congr 2
        omega

/-- A group is found by index where it is found in the row. -/
theorem group?_eq {row : List Lexeme} {i : Nat} (hi : i ≤ row.length) :
    ∃ found, group? row i = some found ∧
      found.map (Prod.map id row.drop) = Lexeme.splitGroup 0 (row.drop i) ∧
      ∀ split ∈ found, i < split.2 ∧ split.2 ≤ row.length := by
  have hloop := loop_closerTurn row hi 0
  cases hsplit : Lexeme.splitGroup 0 (row.drop i) with
  | none =>
    rw [hsplit] at hloop
    refine ⟨none, ?_, rfl, nofun⟩
    simp only [group?, hloop]
    rfl
  | some split =>
    obtain ⟨inner, behind⟩ := split
    rw [hsplit] at hloop
    obtain ⟨closer, -, hrow⟩ := Lexeme.splitGroup_eq_some hsplit
    have hlength := congrArg List.length hrow
    rw [List.length_drop, List.length_append, List.length_cons] at hlength
    refine ⟨some (inner, i + inner.length + 1), ?_, ?_, ?_⟩
    · simp only [group?, hloop]
      change (slice? row i (i + inner.length)).bind _ = _
      rw [slice?_of_drop hi hrow]
      rfl
    · have hbehind : row.drop (i + inner.length + 1) = behind := by
        rw [Nat.add_assoc, ← List.drop_drop, hrow, ← List.drop_drop, List.drop_left]
        rfl
      simp only [Option.map_some, Prod.map, id, hbehind]
    · intro split hsplit'
      obtain rfl := Option.some.inj hsplit'
      exact ⟨by simp only; omega, by simp only; omega⟩

/-! ## The end of an expression -/

/-- A turn of the search for the end of an expression. The state is the counter of open groups and
the position of the outermost one. -/
def expressionTurn (i : Nat) (state : Nat × Position) :
    Option Lexeme → Option (Turn (Nat × Position) (Except Position Nat))
  | none => some (.stop (if 0 < state.1 then .error state.2 else .ok i))
  | some lexeme =>
    if lexeme.token.isOpener then
      some (.go (i + 1) (state.1 + 1, if state.1 = 0 then lexeme.position else state.2))
    else if lexeme.token.isCloser then
      if state.1 = 0 then some (.stop (.ok i))
      else do
        return .go (i + 1) (← state.1.ppred, state.2)
    else if (lexeme.token = .comma ∨ lexeme.token = .semicolon) ∧ state.1 = 0 then
      some (.stop (.ok i))
    else some (.go (i + 1) state)

/-- The lexemes from an index up to the end of an expression, and the index of its end. -/
def expression? (row : List Lexeme) (i : Nat) (opened : Position) :
    Option (Except Position (List Lexeme × Nat)) := do
  match ← loop expressionTurn row i (0, opened) with
  | .error position => return .error position
  | .ok stop => return .ok (← slice? row i stop, stop)

/-- Outside of groups, an expression ends at a closing delimiter, a comma or a semicolon. -/
theorem expressionTurn_of_end {token : Token}
    (h : (token.isCloser || token == .comma || token == .semicolon) = true) (i : Nat)
    (opened position : Position) (trivia : List Trivia) :
    expressionTurn i (0, opened) (some ⟨token, position, trivia⟩) = some (.stop (.ok i)) := by
  cases token <;> first | rfl | cases h

/-- Everything else belongs to the expression. -/
theorem expressionTurn_of_inside {depth : Nat} {lexeme : Lexeme}
    (h : ¬ (depth = 0 ∧ (lexeme.token.isCloser || lexeme.token == .comma ||
      lexeme.token == .semicolon) = true)) (i : Nat) (opened : Position) :
    expressionTurn i (depth, opened) (some lexeme) =
      some (.go (i + 1) (Lexeme.depthBehind depth lexeme.token,
        if depth = 0 ∧ lexeme.token.isOpener = true then lexeme.position else opened)) := by
  simp only [expressionTurn, Lexeme.depthBehind]
  by_cases hopener : lexeme.token.isOpener = true
  · simp only [hopener, if_true, and_true]
  · by_cases hcloser : lexeme.token.isCloser = true
    · cases depth with
      | zero => exact absurd ⟨rfl, by rw [hcloser]; rfl⟩ h
      | succ depth =>
        simp only [hopener, hcloser, if_true]
        rfl
    · rw [if_neg hopener, if_neg hcloser, if_neg, if_neg hopener, if_neg hcloser,
        if_neg fun hopen => hopener hopen.2]
      rintro ⟨hmark, hdepth⟩
      refine h ⟨hdepth, ?_⟩
      rcases hmark with hmark | hmark <;> rw [hmark] <;> rfl

theorem splitExpression_cons (depth : Nat) (opened : Position) (lexeme : Lexeme)
    (rest : List Lexeme) :
    Lexeme.splitExpression depth opened (lexeme :: rest) =
      if depth = 0 ∧ (lexeme.token.isCloser || lexeme.token == .comma ||
          lexeme.token == .semicolon) = true then .ok ([], lexeme :: rest)
      else
        (Lexeme.splitExpression (Lexeme.depthBehind depth lexeme.token)
          (if depth = 0 ∧ lexeme.token.isOpener = true then lexeme.position else opened) rest).map
            fun split => (lexeme :: split.1, split.2) := by
  rw [Lexeme.splitExpression]
  refine if_congr Iff.rfl rfl ?_
  dsimp only
  cases Lexeme.splitExpression (Lexeme.depthBehind depth lexeme.token) _ rest <;> rfl

theorem loop_expressionTurn (row : List Lexeme) {i : Nat} (hi : i ≤ row.length) (depth : Nat)
    (opened : Position) :
    loop expressionTurn row i (depth, opened) =
      some ((Lexeme.splitExpression depth opened (row.drop i)).map fun split =>
        i + split.1.length) := by
  induction hrow : row.drop i generalizing i depth opened with
  | nil =>
    refine loop_of_stop hi ?_
    rw [hrow]
    simp only [List.head?_nil, expressionTurn, Lexeme.splitExpression]
    cases depth <;> rfl
  | cons lexeme rest ih =>
    rw [splitExpression_cons]
    by_cases hends : depth = 0 ∧ (lexeme.token.isCloser || lexeme.token == .comma ||
        lexeme.token == .semicolon) = true
    · rw [if_pos hends]
      refine loop_of_stop hi ?_
      obtain ⟨rfl, hend⟩ := hends
      rw [hrow]
      exact expressionTurn_of_end hend i opened _ _
    · rw [if_neg hends, loop_of_go hrow (expressionTurn_of_inside hends i opened)
        (Nat.lt_succ_self i), ih (length_lt_of_drop hrow) _ _ (drop_succ_of_drop hrow)]
      cases Lexeme.splitExpression (Lexeme.depthBehind depth lexeme.token) _ rest with
      | error position => rfl
      | ok split =>
        simp only [Except.map, List.length_cons]
        congr 2
        omega

/-- An expression is found by index where it is found in the row. -/
theorem expression?_eq {row : List Lexeme} {i : Nat} (hi : i ≤ row.length) (opened : Position) :
    ∃ found, expression? row i opened = some found ∧
      found.map (Prod.map id row.drop) = Lexeme.splitExpression 0 opened (row.drop i) ∧
      ∀ split, found = .ok split → i ≤ split.2 ∧ split.2 ≤ row.length := by
  have hloop := loop_expressionTurn row hi 0 opened
  cases hsplit : Lexeme.splitExpression 0 opened (row.drop i) with
  | error position =>
    rw [hsplit] at hloop
    refine ⟨.error position, ?_, rfl, nofun⟩
    simp only [expression?, hloop]
    rfl
  | ok split =>
    obtain ⟨inner, behind⟩ := split
    rw [hsplit] at hloop
    have hrow := Lexeme.splitExpression_eq_ok hsplit
    have hlength := congrArg List.length hrow
    rw [List.length_drop, List.length_append] at hlength
    refine ⟨.ok (inner, i + inner.length), ?_, ?_, ?_⟩
    · simp only [expression?, hloop]
      change (slice? row i (i + inner.length)).bind _ = _
      rw [slice?_of_drop hi hrow]
      rfl
    · have hbehind : row.drop (i + inner.length) = behind := by
        rw [← List.drop_drop, hrow, List.drop_left]
      simp only [Except.map, Prod.map, id, hbehind]
    · intro split hsplit'
      obtain rfl := Except.ok.inj hsplit'
      exact ⟨Nat.le_add_right _ _, by simp only; omega⟩

end RemoteCalls.Indexed
