import RemoteCalls.Proofs.Token.Cut

/-!
# The order of lexemes

Positions are ordered by lines and then by columns, and each character leads on. No segment is
empty, so that each lexeme stands before the next one and no two of them share a position.
-/

namespace RemoteCalls

namespace Position

/-- A position on an earlier line, or farther to the left on the same line. -/
def Before (p q : Position) : Prop :=
  p.line < q.line ∨ p.line = q.line ∧ p.column < q.column

theorem Before.trans {p q r : Position} (h : p.Before q) (hnext : q.Before r) : p.Before r := by
  unfold Before at *
  omega

theorem Before.ne {p q : Position} (h : p.Before q) : p ≠ q := by
  rintro rfl
  unfold Before at h
  omega

theorem before_next (p : Position) (c : Char) : p.Before (p.next c) := by
  unfold next
  split
  · exact Or.inl (Nat.lt_succ_self _)
  · exact Or.inr ⟨rfl, Nat.lt_succ_self _⟩

theorem eq_or_before_after (p : Position) (cs : List Char) :
    p = p.after cs ∨ p.Before (p.after cs) := by
  induction cs generalizing p with
  | nil => exact Or.inl rfl
  | cons c cs ih =>
    rw [after_cons]
    have hnext := p.before_next c
    rcases ih (p.next c) with heq | hbefore
    · exact Or.inr (heq ▸ hnext)
    · exact Or.inr (hnext.trans hbefore)

/-- A run of characters leads on if there is a character in it. -/
theorem before_after (p : Position) {cs : List Char} (h : cs ≠ []) : p.Before (p.after cs) := by
  cases cs with
  | nil => exact absurd rfl h
  | cons c cs =>
    rw [after_cons]
    have hnext := p.before_next c
    rcases (p.next c).eq_or_before_after cs with heq | hbefore
    · exact heq ▸ hnext
    · exact hnext.trans hbefore

end Position

/-- No segment of a text is empty. -/
theorem Segment.source_ne_nil_of_mem_cut {cs : List Char} {segment : Segment}
    (h : segment ∈ (cut 0 cs).1) : segment.source ≠ [] := by
  induction cs using cut_induction with
  | nil => cases h
  | unclosed c cs unclosed hfirst =>
    rw [cut_of_error hfirst] at h
    cases h
  | segment c cs other behind hfirst htext ih =>
    rw [cut_of_ok hfirst htext] at h
    rcases List.mem_cons.mp h with rfl | hrest
    · exact (covers_first hfirst).nonempty
    · exact ih hrest

namespace Lexed

/-- Lexemes in the order of their positions, none of which is before the given one. -/
structure Ordered (position : Position) (lexemes : List Lexeme) : Prop where
  first : ∀ lexeme ∈ lexemes, position = lexeme.position ∨ position.Before lexeme.position
  rest : lexemes.Pairwise fun lexeme next => lexeme.position.Before next.position

/-- Lexemes that begin behind a position are ordered from that position on. -/
theorem Ordered.of_before {position behind : Position} {lexemes : List Lexeme}
    (h : Ordered behind lexemes) (hbefore : position.Before behind) : Ordered position lexemes := by
  refine ⟨?_, h.rest⟩
  intro lexeme hlexeme
  rcases h.first lexeme hlexeme with heq | hlater
  · exact Or.inr (heq ▸ hbefore)
  · exact Or.inr (hbefore.trans hlater)

/-- A lexeme may be put in front of lexemes that begin behind it. -/
theorem Ordered.cons {position behind : Position} {lexemes : List Lexeme}
    (h : Ordered behind lexemes) (hbefore : position.Before behind) (token : Token)
    (trivia : List Trivia) : Ordered position (⟨token, position, trivia⟩ :: lexemes) := by
  have hlater := (h.of_before hbefore).first
  refine ⟨?_, List.pairwise_cons.mpr ⟨?_, h.rest⟩⟩
  · intro next hnext
    rcases List.mem_cons.mp hnext with rfl | hnext
    · exact Or.inl rfl
    · exact hlater next hnext
  · intro next hnext
    rcases h.first next hnext with heq | hlater
    · exact heq ▸ hbefore
    · exact hbefore.trans hlater

/-- Segments that are not empty give lexemes in order. -/
theorem ordered_ofSegments (position : Position) (newlines : Nat) (pending : List Trivia)
    {segments : List Segment} (h : ∀ segment ∈ segments, segment.source ≠ []) :
    Ordered position (ofSegments position newlines pending segments).lexemes := by
  induction segments generalizing position newlines pending with
  | nil => exact ⟨nofun, List.Pairwise.nil⟩
  | cons segment rest ih =>
    have hbefore : position.Before (position.after segment.source) :=
      position.before_after (h segment List.mem_cons_self)
    have hrest : ∀ newlines pending, Ordered (position.after segment.source)
        (ofSegments (position.after segment.source) newlines pending rest).lexemes :=
      fun newlines pending => ih _ newlines pending fun other hother =>
        h other (List.mem_cons_of_mem _ hother)
    unfold ofSegments
    split
    · exact (hrest _ _).of_before hbefore
    · exact (hrest _ _).of_before hbefore
    · exact (hrest _ _).of_before hbefore
    · exact (hrest _ _).of_before hbefore
    · exact (hrest _ _).of_before hbefore
    · exact (hrest 0 []).cons hbefore _ _
    · exact (hrest 0 []).cons hbefore _ _

/-- The lexemes of a text stand in order. -/
theorem ordered_ofText {text : String} {lexed : Lexed} (h : ofText text = .ok lexed) :
    Ordered .start lexed.lexemes := by
  obtain ⟨-, rfl⟩ := ofText_eq_ok_iff.mp h
  exact ordered_ofSegments .start 0 [] fun _ hsegment =>
    Segment.source_ne_nil_of_mem_cut hsegment

/-- No two lexemes of a text have one position. -/
theorem eq_of_position_eq {text : String} {lexed : Lexed} (h : ofText text = .ok lexed)
    {lexeme other : Lexeme} (hlexeme : lexeme ∈ lexed.lexemes) (hother : other ∈ lexed.lexemes)
    (heq : lexeme.position = other.position) : lexeme = other := by
  have hordered := List.pairwise_iff_getElem.mp (ordered_ofText h).rest
  obtain ⟨i, hi, rfl⟩ := List.getElem_of_mem hlexeme
  obtain ⟨j, hj, rfl⟩ := List.getElem_of_mem hother
  rcases Nat.lt_trichotomy i j with hless | rfl | hless
  · exact absurd heq (hordered i j hi hj hless).ne
  · rfl
  · exact absurd heq.symm (hordered j i hj hi hless).ne

end Lexed

end RemoteCalls
