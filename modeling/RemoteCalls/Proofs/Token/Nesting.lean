import RemoteCalls.Token.Group

/-!
# Nested groups

A row of tokens opens and closes groups. A row that closes all groups it opens, and no other, can
stand inside of a group without changing where the group ends. Nor does it change where an
expression ends, if no comma and no semicolon stands outside of its groups.
-/

namespace RemoteCalls

namespace Token

/-- How many groups are open behind a row of tokens, unless one is closed that is not open. -/
def nest : (depth : Nat) → List Token → Option Nat
  | depth, [] => some depth
  | depth, t :: ts =>
    if t.isOpener then nest (depth + 1) ts
    else if t.isCloser then (if depth = 0 then none else nest (depth - 1) ts)
    else nest depth ts

/-- A row of tokens closes the groups it opens, and no other. -/
def Balanced (ts : List Token) : Prop := nest 0 ts = some 0

instance (ts : List Token) : Decidable (Balanced ts) :=
  inferInstanceAs (Decidable (nest 0 ts = some 0))

/-- Whether a token outside of groups ends an expression. -/
def endsExpression (t : Token) : Bool :=
  t.isCloser || t == .comma || t == .semicolon

/-- A row of tokens with `depth` groups open closes them all, and none of its tokens ends the
expression around them. -/
def IsExpression : (depth : Nat) → List Token → Prop
  | depth, [] => depth = 0
  | depth, t :: ts =>
    (depth = 0 → t.endsExpression = false) ∧ IsExpression (Lexeme.depthBehind depth t) ts

/-- No token opens a group and closes one. -/
theorem isCloser_of_isOpener {t : Token} (h : t.isOpener = true) : t.isCloser = false := by
  cases t <;> first | rfl | cases h

theorem isOpener_of_isCloser {t : Token} (h : t.isCloser = true) : t.isOpener = false := by
  cases t <;> first | rfl | cases h

/-- Behind a token that closes no group but an open one, the groups around stay open. -/
theorem depthBehind_add {depth : Nat} {t : Token} (h : depth = 0 → t.isCloser = false)
    (outer : Nat) : Lexeme.depthBehind (depth + outer) t = Lexeme.depthBehind depth t + outer := by
  unfold Lexeme.depthBehind
  split
  · exact Nat.add_right_comm depth outer 1
  split
  · next hcloser =>
    have hdepth : depth ≠ 0 := by
      intro hzero
      rw [h hzero] at hcloser
      cases hcloser
    omega
  · rfl

/-- A token in front opens a group, closes one that is open, or leaves the groups alone. -/
theorem nest_cons_eq_some {depth behind : Nat} {t : Token} {ts : List Token} :
    nest depth (t :: ts) = some behind ↔
      (depth = 0 → t.isCloser = false) ∧ nest (Lexeme.depthBehind depth t) ts = some behind := by
  unfold Lexeme.depthBehind
  rw [nest]
  by_cases hopener : t.isOpener = true
  · simp [hopener, isCloser_of_isOpener hopener]
  by_cases hcloser : t.isCloser = true
  · by_cases hdepth : depth = 0
    · simp [hopener, hcloser, hdepth]
    · simp [hopener, hcloser, hdepth]
  · simp [hopener, hcloser]

theorem nest_append (depth : Nat) (ts us : List Token) :
    nest depth (ts ++ us) = (nest depth ts).bind fun depth => nest depth us := by
  induction ts generalizing depth with
  | nil => rfl
  | cons t ts ih =>
    simp only [List.cons_append, nest]
    split
    · exact ih _
    split
    · split
      · rfl
      · exact ih _
    · exact ih _

/-- In a row of two pieces the groups that are open behind the first are open in front of the
second. -/
theorem nest_append_eq_some {depth behind : Nat} {ts us : List Token} :
    nest depth (ts ++ us) = some behind ↔
      ∃ inside, nest depth ts = some inside ∧ nest inside us = some behind := by
  rw [nest_append, Option.bind_eq_some_iff]

/-- Groups around a row stay open behind it. -/
theorem nest_add {depth behind : Nat} {ts : List Token} (h : nest depth ts = some behind)
    (outer : Nat) : nest (depth + outer) ts = some (behind + outer) := by
  induction ts generalizing depth with
  | nil =>
    obtain rfl : depth = behind := Option.some.inj h
    rfl
  | cons t ts ih =>
    obtain ⟨hclosed, hrest⟩ := nest_cons_eq_some.mp h
    refine nest_cons_eq_some.mpr ⟨fun hzero => hclosed (by omega), ?_⟩
    rw [depthBehind_add hclosed]
    exact ih hrest

/-- An expression closes the groups that are open, and no other. -/
theorem IsExpression.nest {depth : Nat} {ts : List Token} (h : IsExpression depth ts) :
    nest depth ts = some 0 := by
  induction ts generalizing depth with
  | nil => exact congrArg some h
  | cons t ts ih =>
    refine nest_cons_eq_some.mpr ⟨fun hdepth => ?_, ih h.2⟩
    have hends := h.1 hdepth
    rw [endsExpression, Bool.or_eq_false_iff, Bool.or_eq_false_iff] at hends
    exact hends.1.1

namespace Balanced

variable {ts us : List Token}

theorem nil : Balanced [] := rfl

theorem append (h : Balanced ts) (hmore : Balanced us) : Balanced (ts ++ us) := by
  unfold Balanced at *
  rw [nest_append, h]
  exact hmore

/-- What is behind a row that closes its groups closes its own. -/
theorem of_append (h : Balanced (ts ++ us)) (hfront : Balanced ts) : Balanced us := by
  unfold Balanced at *
  rwa [nest_append, hfront] at h

/-- A token that neither opens nor closes a group. -/
theorem cons {t : Token} (hopener : t.isOpener = false) (hcloser : t.isCloser = false)
    (h : Balanced ts) : Balanced (t :: ts) := by
  unfold Balanced at *
  simp only [nest, hopener, hcloser, Bool.false_eq_true, if_false]
  exact h

/-- A row inside of a group. -/
theorem group {opener closer : Token} (hopener : opener.isOpener = true)
    (hcloser : closer.isCloser = true) (h : Balanced ts) :
    Balanced (opener :: (ts ++ [closer])) := by
  have hno := isOpener_of_isCloser hcloser
  have hinner := nest_add h 1
  unfold Balanced
  simp only [nest, hopener, if_true, nest_append]
  rw [hinner]
  simp [hno, hcloser]

end Balanced

/-! ### Braces outside of brackets -/

/-- How many groups are open behind a row of tokens, from the outermost open bracket on. Nothing if
a brace is opened outside of brackets. -/
def bracketed : (depth : Nat) → List Token → Option Nat
  | depth, [] => some depth
  | 0, t :: ts =>
    if t = .openBrace then none else bracketed (if t = .openBracket then 1 else 0) ts
  | depth + 1, t :: ts => bracketed (Lexeme.depthBehind (depth + 1) t) ts

/-- No brace is opened outside of brackets in a row of tokens. -/
def Braceless (ts : List Token) : Prop := bracketed 0 ts = some 0

theorem bracketed_append (depth : Nat) (ts us : List Token) :
    bracketed depth (ts ++ us) = (bracketed depth ts).bind fun depth => bracketed depth us := by
  induction ts generalizing depth with
  | nil =>
    rw [List.nil_append, bracketed]
    rfl
  | cons t ts ih =>
    cases depth with
    | zero =>
      rw [List.cons_append, bracketed, bracketed]
      split
      · rfl
      · exact ih _
    | succ depth =>
      rw [List.cons_append, bracketed, bracketed]
      exact ih _

theorem depthBehind_mono {inner depth : Nat} (h : inner ≤ depth) (t : Token) :
    Lexeme.depthBehind inner t ≤ Lexeme.depthBehind depth t := by
  unfold Lexeme.depthBehind
  split
  · omega
  split <;> omega

/-- Not more groups are open from a bracket on than are open at all. -/
theorem bracketed_le {depth behind inner k : Nat} {ts : List Token}
    (h : nest depth ts = some behind) (hinner : inner ≤ depth)
    (hk : bracketed inner ts = some k) : k ≤ behind := by
  induction ts generalizing depth inner with
  | nil =>
    rw [nest, Option.some.injEq] at h
    rw [bracketed, Option.some.injEq] at hk
    omega
  | cons t ts ih =>
    obtain ⟨next, hnext, hle⟩ : ∃ next, bracketed next ts = some k ∧
        next ≤ Lexeme.depthBehind inner t := by
      cases inner with
      | zero =>
        rw [bracketed] at hk
        split at hk
        · cases hk
        · refine ⟨_, hk, ?_⟩
          split
          · next hbracket =>
            rw [hbracket]
            exact Nat.le_refl _
          · exact Nat.zero_le _
      | succ inner =>
        rw [bracketed] at hk
        exact ⟨_, hk, Nat.le_refl _⟩
    exact ih (nest_cons_eq_some.mp h).2 (Nat.le_trans hle (depthBehind_mono hinner t)) hnext

/-- Inside of a bracket all groups count. -/
theorem bracketed_of_nest {depth behind : Nat} {ts : List Token}
    (h : nest depth ts = some behind) : bracketed (depth + 1) ts = some (behind + 1) := by
  induction ts generalizing depth with
  | nil =>
    obtain rfl : depth = behind := Option.some.inj h
    rw [bracketed]
  | cons t ts ih =>
    obtain ⟨hclosed, hrest⟩ := nest_cons_eq_some.mp h
    rw [bracketed, depthBehind_add hclosed]
    exact ih hrest

/-- A row in two pieces, the first of which closes what it opens, has no brace outside of brackets
if neither piece has one. -/
theorem Balanced.braceless_append {ts us : List Token} (h : Balanced ts) :
    Braceless (ts ++ us) ↔ Braceless ts ∧ Braceless us := by
  unfold Braceless
  rw [bracketed_append]
  cases hts : bracketed 0 ts with
  | none => simp
  | some k =>
    have hk : k ≤ 0 := bracketed_le h (Nat.le_refl 0) hts
    obtain rfl : k = 0 := Nat.le_zero.mp hk
    simp

/-- A row inside of parentheses. -/
theorem Braceless.inside {opener closer : Token} {ts : List Token} (h : Balanced ts)
    (hopener : opener ≠ .openBracket) (hgroup : Braceless (opener :: (ts ++ [closer]))) :
    Braceless ts := by
  unfold Braceless at hgroup
  rw [bracketed] at hgroup
  split at hgroup
  · cases hgroup
  · exact (h.braceless_append.mp hgroup).1

end Token

namespace Lexeme

/-- A row of lexemes with balanced groups does not change where a group around it ends. -/
theorem splitGroup_append_of_nest {depth behind : Nat} {row : List Lexeme}
    (h : Token.nest depth (tokens row) = some behind) (rest : List Lexeme) :
    splitGroup depth (row ++ rest) =
      (splitGroup behind rest).map fun (inner, after) => (row ++ inner, after) := by
  induction row generalizing depth with
  | nil =>
    obtain rfl : depth = behind := Option.some.inj h
    simp
  | cons lexeme row ih =>
    obtain ⟨hclosed, hrest⟩ := Token.nest_cons_eq_some.mp h
    have hgoes : ¬ (depth = 0 ∧ lexeme.token.isCloser = true) := by
      rintro ⟨hdepth, hcloser⟩
      rw [hclosed hdepth] at hcloser
      cases hcloser
    rw [List.cons_append, splitGroup, if_neg hgoes, ih hrest]
    cases splitGroup behind rest <;> rfl

/-- A group around a balanced row ends where it is closed. -/
theorem splitGroup_of_balanced {row : List Lexeme} (h : Token.Balanced (tokens row))
    {closer : Lexeme} (hcloser : closer.token.isCloser = true) (rest : List Lexeme) :
    splitGroup 0 (row ++ closer :: rest) = some (row, rest) := by
  have hclosed : splitGroup 0 (closer :: rest) = some ([], rest) := by
    rw [splitGroup, if_pos ⟨rfl, hcloser⟩]
  rw [splitGroup_append_of_nest h, hclosed]
  simp

/-- What stands inside of a group closes the groups it opens. -/
theorem nest_of_splitGroup {depth : Nat} {row inner after : List Lexeme}
    (h : splitGroup depth row = some (inner, after)) :
    Token.nest depth (tokens inner) = some 0 := by
  induction row generalizing depth inner with
  | nil => cases h
  | cons lexeme row ih =>
    unfold splitGroup at h
    split at h
    · next hends =>
      cases h
      rw [hends.1]
      rfl
    next hends =>
    split at h
    · cases h
    · next hinner =>
      cases h
      refine Token.nest_cons_eq_some.mpr ⟨fun hdepth => ?_, ih hinner⟩
      rw [← Bool.not_eq_true]
      exact fun hcloser => hends ⟨hdepth, hcloser⟩

/-- What is taken as an expression is one. -/
theorem isExpression_of_splitExpression {depth : Nat} {opened : Position}
    {row inner behind : List Lexeme} (h : splitExpression depth opened row = .ok (inner, behind)) :
    Token.IsExpression depth (tokens inner) := by
  induction row generalizing depth opened inner with
  | nil =>
    unfold splitExpression at h
    split at h
    · next hdepth =>
      cases h
      exact hdepth
    · cases h
  | cons lexeme row ih =>
    unfold splitExpression at h
    dsimp only at h
    split at h
    · next hends =>
      cases h
      exact hends.1
    next hends =>
    split at h
    · cases h
    · next hinner =>
      cases h
      refine ⟨fun hdepth => ?_, ih hinner⟩
      rw [← Bool.not_eq_true]
      exact fun hender => hends ⟨hdepth, hender⟩

/-- An expression is taken up to the lexeme that ends it. -/
theorem splitExpression_of_isExpression {depth : Nat} {inner : List Lexeme}
    (h : Token.IsExpression depth (tokens inner)) {ender : Lexeme}
    (hends : ender.token.endsExpression = true) (opened : Position) (behind : List Lexeme) :
    splitExpression depth opened (inner ++ ender :: behind) = .ok (inner, ender :: behind) := by
  induction inner generalizing depth opened with
  | nil =>
    obtain rfl : depth = 0 := h
    rw [List.nil_append, splitExpression]
    exact if_pos ⟨rfl, hends⟩
  | cons lexeme inner ih =>
    have hgoes : ¬ (depth = 0 ∧ lexeme.token.endsExpression = true) := by
      rintro ⟨hdepth, hender⟩
      rw [h.1 hdepth] at hender
      cases hender
    have hrest := ih h.2 (if depth = 0 ∧ lexeme.token.isOpener then lexeme.position else opened)
    unfold Token.endsExpression at hgoes
    simp only [List.cons_append, splitExpression, if_neg hgoes, hrest]

end Lexeme

end RemoteCalls
