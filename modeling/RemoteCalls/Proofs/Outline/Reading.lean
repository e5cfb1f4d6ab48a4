import RemoteCalls.Outline.Notes
import RemoteCalls.Proofs.Declaration

/-!
# Readers and what stands behind them

A reader takes lexemes off the front of a row. It finds the same if more lexemes are put behind the
row, unless it has looked at the end of the row. This module says what that means for one reader,
gives the rules by which it passes from readers to their compositions, and proves it for the readers
from which all others are built.
-/

namespace RemoteCalls

/-- A row of lexemes that a semicolon or a closing brace ends. -/
def Ended (row : List Lexeme) : Prop :=
  ∃ front last, row = front ++ [last] ∧ (last.token = .semicolon ∨ last.token = .closeBrace)

namespace Ended

theorem ne_nil {row : List Lexeme} (h : Ended row) : row ≠ [] := by
  obtain ⟨front, last, rfl, -⟩ := h
  simp

/-- A row has the end of any row at its end. -/
theorem of_suffix {row tail : List Lexeme} (h : Ended tail) (hs : tail <:+ row) : Ended row := by
  obtain ⟨front, last, rfl, hlast⟩ := h
  obtain ⟨before, rfl⟩ := hs
  exact ⟨before ++ front, last, (List.append_assoc ..).symm, hlast⟩

/-- What is left of a row has the same end as the row, unless nothing is left. -/
theorem suffix {row tail : List Lexeme} (h : Ended row) (hs : tail <:+ row) (hne : tail ≠ []) :
    Ended tail := by
  obtain ⟨front, last, rfl, hlast⟩ := h
  rcases List.suffix_concat_iff.mp hs with hnil | ⟨before, htail, -⟩
  · exact absurd hnil hne
  · exact ⟨before, last, htail, hlast⟩

end Ended

/-- The same place with more lexemes behind those that are left. -/
def Cursor.extend (cursor : Cursor) (behind : List Lexeme) : Cursor :=
  { cursor with rest := cursor.rest ++ behind }

/-- The structures that were gathered are consistent. -/
def Cursor.Consistent (cursor : Cursor) : Prop := ∀ s ∈ cursor.tags, s.Consistent

/-- Where nothing is gathered, all that is gathered is consistent. -/
theorem Cursor.consistent_of_tags_nil {cursor : Cursor} (h : cursor.tags = []) :
    cursor.Consistent := by
  intro s hs
  rw [h] at hs
  cases hs

/-- The same file with another end. -/
def Setting.endingAt (setting : Setting) (finish : Position) : Setting :=
  { setting with finish := finish }

namespace Reader

variable {α β : Type} {closed : Bool} {n : Nat}

/-- What is put behind a row makes no difference to a reader that takes the row `before` and leaves
`after`. A `closed` reader has taken the last lexeme of what it looked at, so that it may leave
nothing; even then there must be no semicolon behind, since one may end a statement. -/
def Undisturbed (closed : Bool) (before after behind : List Lexeme) : Prop :=
  Ended (if closed then before else after) ∧
    (after = [] → headToken behind ≠ .semicolon)

/-- What a reader comes to, compared to a reader `wide` that may take more steps. -/
def Outcome (closed : Bool) (wide : Reader α) (Q : α → Nat → Prop) (setting : Setting)
    (cursor : Cursor) : Except Failure (α × Cursor) → Prop
  | .ok (a, next) =>
    next.Consistent ∧ Q a next.rest.length ∧ next.rest <:+ cursor.rest ∧
      (closed = true → next.rest.length < cursor.rest.length) ∧
      ∀ finish behind, Undisturbed closed cursor.rest next.rest behind →
        wide (setting.endingAt finish) (cursor.extend behind) = .ok (a, next.extend behind)
  | .error (.malformed diagnostic) => diagnostic.subject.isSome = true
  | .error (.fatal _) => True
  | .error .outOfSteps => False

/-- A reader `narrow` at `n` lexemes does not run out of steps, takes lexemes off the front, and
blames a declaration for a failure behind which the file can be read on. Its result satisfies `Q`
together with the number of lexemes left, and `wide` finds the same with more lexemes behind. -/
def Reads (closed : Bool) (n : Nat) (narrow wide : Reader α) (Q : α → Nat → Prop) : Prop :=
  ∀ setting cursor, cursor.Consistent → cursor.rest.length = n →
    Outcome closed wide Q setting cursor (narrow setting cursor)

/-- A row of two readers, run. -/
theorem bind_apply (m : Reader α) (f : α → Reader β) (setting : Setting) (cursor : Cursor) :
    (m >>= f) setting cursor =
      match m setting cursor with
      | .ok (a, next) => f a setting next
      | .error failure => .error failure := by
  change Except.bind (m setting cursor) (fun result => f result.1 setting result.2) = _
  cases m setting cursor <;> rfl

/-- Two readers in a row have a result if each of them has one. -/
theorem bind_eq_ok {m : Reader α} {f : α → Reader β} {cursor last : Cursor} {b : β}
    {setting : Setting} :
    (m >>= f) setting cursor = .ok (b, last) ↔
      ∃ a next, m setting cursor = .ok (a, next) ∧ f a setting next = .ok (b, last) := by
  rw [bind_apply]
  cases m setting cursor with
  | error failure => simp
  | ok result =>
    obtain ⟨a, next⟩ := result
    simp [and_assoc]

/-- A reader whose result is dropped. -/
theorem discard_eq (m : Reader α) : Functor.discard m = m >>= fun _ => pure () := by
  funext setting cursor
  rw [bind_apply]
  change Except.bind (m setting cursor) (fun result => Except.ok ((), result.2)) = _
  cases m setting cursor <;> rfl

/-- A failure is one of the whole row. -/
theorem Outcome.of_error {wide : Reader α} {Q : α → Nat → Prop} {setting : Setting}
    {cursor : Cursor} {failure : Failure}
    (h : Outcome closed wide Q setting cursor (.error failure))
    {closed' : Bool} {wide' : Reader β} {R : β → Nat → Prop} {cursor' : Cursor} :
    Outcome closed' wide' R setting cursor' (.error failure) := by
  cases failure with
  | malformed d => exact h
  | fatal d => exact h
  | outOfSteps => exact h

namespace Reads

variable {narrow wide : Reader α} {Q : α → Nat → Prop}

/-- Less may be said of the result. -/
theorem mono {R : α → Nat → Prop} (h : Reads closed n narrow wide Q)
    (hR : ∀ a k, k ≤ n → Q a k → R a k) : Reads closed n narrow wide R := by
  intro setting cursor hcursor hn
  have hfirst := h setting cursor hcursor hn
  cases hrun : narrow setting cursor with
  | error failure =>
    rw [hrun] at hfirst
    exact hfirst.of_error
  | ok result =>
    rw [hrun] at hfirst
    obtain ⟨hnext, hQ, hsuffix, hwide⟩ := hfirst
    exact ⟨hnext, hR _ _ (hn ▸ hsuffix.length_le) hQ, hsuffix, hwide⟩

/-- A closed reader that leaves something has taken something, and nothing else matters. -/
theorem opened (h : Reads closed n narrow wide Q) (hclosed : closed = true) :
    Reads false n narrow wide fun a k => k < n ∧ Q a k := by
  intro setting cursor hcursor hn
  have hfirst := h setting cursor hcursor hn
  cases hrun : narrow setting cursor with
  | error failure =>
    rw [hrun] at hfirst
    exact hfirst.of_error
  | ok result =>
    rw [hrun] at hfirst
    obtain ⟨hnext, hQ, hsuffix, hless, hwide⟩ := hfirst
    refine ⟨hnext, ⟨hn ▸ hless hclosed, hQ⟩, hsuffix, nofun, ?_⟩
    intro finish behind hbehind
    have hended : Ended result.2.rest := hbehind.1
    refine hwide finish behind ⟨?_, fun hnil => absurd hnil hended.ne_nil⟩
    rw [if_pos hclosed]
    exact hended.of_suffix hsuffix

/-- What is read behind a reader is told by the results of the reader, for its failures are those of
the whole. -/
theorem behind {f : α → Reader β} {closed' : Bool} {wide' : Reader β} {R : β → Nat → Prop}
    (h : Reads closed n narrow wide Q)
    (hnext : ∀ setting cursor a next, cursor.rest.length = n →
      Outcome closed wide Q setting cursor (.ok (a, next)) →
      Outcome closed' wide' R setting cursor (f a setting next)) :
    Reads closed' n (narrow >>= f) wide' R := by
  intro setting cursor hcursor hn
  have hfirst := h setting cursor hcursor hn
  rw [bind_apply]
  cases hrun : narrow setting cursor with
  | error failure =>
    rw [hrun] at hfirst
    exact hfirst.of_error
  | ok result =>
    rw [hrun] at hfirst
    exact hnext setting cursor result.1 result.2 hn hfirst

/-- Two readers in a row. The first need not be closed: it leaves something if the second is. -/
theorem bind {f g : α → Reader β} {R : β → Nat → Prop} (h : Reads false n narrow wide Q)
    (hnext : ∀ a k, k ≤ n → Q a k → Reads closed k (f a) (g a) R) :
    Reads closed n (narrow >>= f) (wide >>= g) R := by
  refine h.behind fun setting cursor a middle hn hfirst => ?_
  obtain ⟨hmiddle, hQ, hsuffix, -, hwide⟩ := hfirst
  have hk : middle.rest.length ≤ n := hn ▸ hsuffix.length_le
  have hsecond := hnext a _ hk hQ setting middle hmiddle rfl
  cases hrun : f a setting middle with
  | error failure =>
    rw [hrun] at hsecond
    exact hsecond.of_error
  | ok result =>
    obtain ⟨b, next⟩ := result
    rw [hrun] at hsecond
    obtain ⟨hnext', hR, hsuffix', hless, hwide'⟩ := hsecond
    refine ⟨hnext', hR, hsuffix'.trans hsuffix, ?_, ?_⟩
    · intro hclosed
      exact Nat.lt_of_lt_of_le (hless hclosed) hsuffix.length_le
    · intro finish behind hbehind
      have hended : Ended middle.rest := by
        cases closed with
        | false => exact hbehind.1.of_suffix hsuffix'
        | true =>
          refine hbehind.1.suffix hsuffix ?_
          intro hnil
          have := hless rfl
          rw [hnil] at this
          exact Nat.not_lt_zero _ this
      rw [bind_apply, hwide finish behind ⟨hended, fun hnil => absurd hnil hended.ne_nil⟩]
      refine hwide' finish behind ⟨?_, hbehind.2⟩
      cases closed with
      | false => exact hbehind.1
      | true => exact hended

/-- A reader that takes nothing, and what is read behind it. -/
theorem look {f g : α → Reader β} {R : β → Nat → Prop}
    (h : Reads false n narrow wide fun _ k => k = n)
    (hnext : ∀ a, Reads closed n (f a) (g a) R) :
    Reads closed n (narrow >>= f) (wide >>= g) R := by
  apply h.bind
  intro a k _ hk
  rw [hk]
  exact hnext a

/-- A result may be turned into another one, also behind a closed reader. -/
theorem map {f : α → β} {R : β → Nat → Prop} (h : Reads closed n narrow wide Q)
    (hR : ∀ a k, k ≤ n → Q a k → R (f a) k) :
    Reads closed n (narrow >>= fun a => pure (f a)) (wide >>= fun a => pure (f a)) R := by
  refine h.behind fun setting cursor a next hn hfirst => ?_
  obtain ⟨hnext, hQ, hsuffix, hless, hwide⟩ := hfirst
  refine ⟨hnext, hR a _ (hn ▸ hsuffix.length_le) hQ, hsuffix, hless, ?_⟩
  intro finish behind hbehind
  rw [bind_apply, hwide finish behind hbehind]
  rfl

theorem discard (h : Reads closed n narrow wide Q) :
    Reads closed n (Functor.discard narrow) (Functor.discard wide) fun _ k => ∃ a, Q a k := by
  rw [discard_eq, discard_eq]
  exact h.map fun a k _ hQ => ⟨a, hQ⟩

end Reads

end Reader

end RemoteCalls
