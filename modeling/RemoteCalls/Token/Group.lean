import RemoteCalls.Token.Lexeme

/-!
# Groups of lexemes

Parentheses, brackets and braces hold groups of lexemes together. The functions here cut a row of
lexemes at the end of a group, at the commas between arguments, and at the end of an expression. All
of them count the three kinds of delimiters together.
-/

namespace RemoteCalls.Lexeme

/-- The nesting depth behind a token; it does not fall below zero. -/
def depthBehind (depth : Nat) (token : Token) : Nat :=
  if token.isOpener then depth + 1
  else if token.isCloser then depth - 1
  else depth

/-- The lexemes up to the one that closes the group around them, and the lexemes behind that one.
There are none if the group stays open. `depth` groups are open inside of it. -/
def splitGroup : (depth : Nat) → List Lexeme → Option (List Lexeme × List Lexeme)
  | _, [] => none
  | depth, lexeme :: rest =>
    if depth = 0 ∧ lexeme.token.isCloser then some ([], rest)
    else
      match splitGroup (depthBehind depth lexeme.token) rest with
      | none => none
      | some (inner, behind) => some (lexeme :: inner, behind)

/-- The lexemes up to the comma, the semicolon or the closing delimiter that ends an expression, and
the rest from there on. If a group stays open, the position of the outermost one that does; it is
`opened` while `depth` groups are open. -/
def splitExpression : (depth : Nat) → (opened : Position) → List Lexeme →
    Except Position (List Lexeme × List Lexeme)
  | depth, opened, [] => if depth = 0 then .ok ([], []) else .error opened
  | depth, opened, lexeme :: rest =>
    let ends := lexeme.token.isCloser || lexeme.token == .comma || lexeme.token == .semicolon
    if depth = 0 ∧ ends then .ok ([], lexeme :: rest)
    else
      let opened := if depth = 0 ∧ lexeme.token.isOpener then lexeme.position else opened
      match splitExpression (depthBehind depth lexeme.token) opened rest with
      | .error position => .error position
      | .ok (inner, behind) => .ok (lexeme :: inner, behind)

/-- A row of lexemes cut at its commas outside of groups; `depth` groups are open. -/
def commaGroups : (depth : Nat) → List Lexeme → List (List Lexeme)
  | _, [] => [[]]
  | depth, lexeme :: rest =>
    if depth = 0 ∧ lexeme.token = .comma then [] :: commaGroups 0 rest
    else
      match commaGroups (depthBehind depth lexeme.token) rest with
      | [] => [[lexeme]]
      | group :: groups => (lexeme :: group) :: groups

/-- The source texts between the commas outside of groups, without the empty ones. -/
def arguments (lexemes : List Lexeme) : List String :=
  ((commaGroups 0 lexemes).map join).filter fun text => !text.isEmpty

/-- Whether the parentheses of a row of lexemes match; `depth` of them are open. -/
def parensMatch : (depth : Nat) → List Lexeme → Bool
  | depth, [] => depth == 0
  | depth, lexeme :: rest =>
    match lexeme.token, depth with
    | .openParen, _ => parensMatch (depth + 1) rest
    | .closeParen, 0 => false
    | .closeParen, depth + 1 => parensMatch depth rest
    | _, _ => parensMatch depth rest

/-- The lexemes up to the parenthesis that closes the one before them, and the lexemes behind it.
Only parentheses count; `depth` of them are open inside. -/
def splitParens : (depth : Nat) → List Lexeme → Option (List Lexeme × List Lexeme)
  | _, [] => none
  | depth, lexeme :: rest =>
    if depth = 0 ∧ lexeme.token = .closeParen then some ([], rest)
    else
      let inside :=
        if lexeme.token = .openParen then depth + 1
        else if lexeme.token = .closeParen then depth - 1
        else depth
      match splitParens inside rest with
      | none => none
      | some (inner, behind) => some (lexeme :: inner, behind)

/-- A split at the end of a group takes the row apart around one closing lexeme. -/
theorem splitGroup_eq_some {depth : Nat} {row inner behind : List Lexeme}
    (h : splitGroup depth row = some (inner, behind)) :
    ∃ closer, closer.token.isCloser = true ∧ row = inner ++ closer :: behind := by
  induction row generalizing depth inner with
  | nil => simp [splitGroup] at h
  | cons lexeme rest ih =>
    unfold splitGroup at h
    split at h
    · next hc =>
      simp only [Option.some.injEq, Prod.mk.injEq] at h
      obtain ⟨rfl, rfl⟩ := h
      exact ⟨lexeme, hc.2, rfl⟩
    · split at h
      · simp at h
      · next hs =>
        simp only [Option.some.injEq, Prod.mk.injEq] at h
        obtain ⟨rfl, rfl⟩ := h
        obtain ⟨closer, hc, rfl⟩ := ih hs
        exact ⟨closer, hc, rfl⟩

/-- A group ends where it does whatever stands behind it. -/
theorem splitGroup_append {depth : Nat} {row inner after : List Lexeme}
    (h : splitGroup depth row = some (inner, after)) (behind : List Lexeme) :
    splitGroup depth (row ++ behind) = some (inner, after ++ behind) := by
  induction row generalizing depth inner with
  | nil => simp [splitGroup] at h
  | cons lexeme rest ih =>
    rw [List.cons_append]
    unfold splitGroup at h ⊢
    split at h
    · next hc =>
      simp only [Option.some.injEq, Prod.mk.injEq] at h
      obtain ⟨rfl, rfl⟩ := h
      rw [if_pos hc]
    · next hc =>
      rw [if_neg hc]
      split at h
      · simp at h
      · next hs =>
        simp only [Option.some.injEq, Prod.mk.injEq] at h
        obtain ⟨rfl, rfl⟩ := h
        rw [ih hs]

/-- A split at the end of an expression loses nothing. -/
theorem splitExpression_eq_ok {depth : Nat} {opened : Position} {row inner behind : List Lexeme}
    (h : splitExpression depth opened row = .ok (inner, behind)) : row = inner ++ behind := by
  induction row generalizing depth opened inner with
  | nil =>
    unfold splitExpression at h
    split at h <;> simp_all
  | cons lexeme rest ih =>
    unfold splitExpression at h
    simp only at h
    split at h
    · simp only [Except.ok.injEq, Prod.mk.injEq] at h
      obtain ⟨rfl, rfl⟩ := h
      rfl
    · split at h
      · simp at h
      · next hs =>
        simp only [Except.ok.injEq, Prod.mk.injEq] at h
        obtain ⟨rfl, rfl⟩ := h
        rw [ih hs]
        rfl

/-- An expression that a lexeme ends is the same whatever stands behind that lexeme. -/
theorem splitExpression_append {depth : Nat} {opened : Position} {row inner after : List Lexeme}
    (h : splitExpression depth opened row = .ok (inner, after)) (hafter : after ≠ [])
    (behind : List Lexeme) :
    splitExpression depth opened (row ++ behind) = .ok (inner, after ++ behind) := by
  induction row generalizing depth opened inner with
  | nil =>
    unfold splitExpression at h
    split at h <;> simp_all
  | cons lexeme rest ih =>
    rw [List.cons_append]
    unfold splitExpression at h ⊢
    simp only at h ⊢
    split at h
    · next hends =>
      simp only [Except.ok.injEq, Prod.mk.injEq] at h
      obtain ⟨rfl, rfl⟩ := h
      rw [if_pos hends]
      rfl
    · next hends =>
      rw [if_neg hends]
      split at h
      · simp at h
      · next hs =>
        simp only [Except.ok.injEq, Prod.mk.injEq] at h
        obtain ⟨rfl, rfl⟩ := h
        rw [ih hs]

end RemoteCalls.Lexeme
