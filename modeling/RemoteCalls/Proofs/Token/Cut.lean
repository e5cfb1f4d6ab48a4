import RemoteCalls.Proofs.Token.Segment
import RemoteCalls.Token.Lexeme

/-!
# Cutting a text

A text is its segments one behind the other, up to where it leaves a construct open. What is put
behind a text that is cut to its end does not change how it is cut, so that a construct left open
behind it is found where the text ends.
-/

namespace RemoteCalls

namespace Segment

theorem cut_eq_cut_drop (skip : Nat) (cs : List Char) : cut skip cs = cut 0 (cs.drop skip) := by
  induction skip generalizing cs with
  | zero => rfl
  | succ skip ih =>
    cases cs with
    | nil => rfl
    | cons c cs => exact ih cs

theorem cut_of_error {c : Char} {cs : List Char} {unclosed : Unclosed}
    (h : first c cs = .error unclosed) : cut 0 (c :: cs) = ([], some unclosed) := by
  simp [cut, h]

/-- A text is cut behind its first segment. -/
theorem cut_of_ok {c : Char} {cs behind : List Char} {segment : Segment}
    (h : first c cs = .ok segment) (htext : c :: cs = segment.source ++ behind) :
    cut 0 (c :: cs) = (segment :: (cut 0 behind).1, (cut 0 behind).2) := by
  obtain ⟨d, source, hsource⟩ := List.exists_cons_of_ne_nil (covers_first h).nonempty
  have hbehind : cs.drop (segment.source.length - 1) = behind := by
    rw [hsource] at htext ⊢
    simp only [List.cons_append, List.cons.injEq] at htext
    simp [htext.2]
  simp only [cut, h, cut_eq_cut_drop (segment.source.length - 1) cs, hbehind]

/-- A text that has no segment and is not empty begins with what it leaves open. -/
theorem first_of_cut_eq_nil {cs : List Char} {unclosed : Unclosed}
    (h : cut 0 cs = ([], some unclosed)) :
    ∃ c rest, cs = c :: rest ∧ first c rest = .error unclosed := by
  cases cs with
  | nil => cases h
  | cons c rest =>
    refine ⟨c, rest, rfl, ?_⟩
    unfold cut at h
    cases hfirst : first c rest with
    | error other =>
      rw [hfirst] at h
      cases h
      rfl
    | ok segment =>
      rw [hfirst] at h
      cases h

/-- What holds of a text behind its first segment holds of the text: an induction along the cuts. -/
theorem cut_induction {motive : List Char → Prop} (nil : motive [])
    (unclosed : ∀ c cs unclosed, first c cs = .error unclosed → motive (c :: cs))
    (segment : ∀ c cs segment behind, first c cs = .ok segment →
      c :: cs = segment.source ++ behind → motive behind → motive (c :: cs))
    (cs : List Char) : motive cs := by
  generalize hlength : cs.length = length
  induction length using Nat.strongRecOn generalizing cs with
  | ind length ih =>
    cases cs with
    | nil => exact nil
    | cons c cs =>
      cases hfirst : first c cs with
      | error fault => exact unclosed c cs fault hfirst
      | ok found =>
        obtain ⟨⟨behind, htext⟩, hnonempty⟩ := covers_first hfirst
        have hless : behind.length < length := by
          have hpositive := List.length_pos_iff.mpr hnonempty
          rw [← hlength, ← htext, List.length_append]
          omega
        exact segment c cs found behind hfirst htext.symm (ih behind.length hless behind rfl)

/-- A text that is cut to its end is its segments one behind the other. -/
theorem flatMap_source_cut {cs : List Char} (h : (cut 0 cs).2 = none) :
    (cut 0 cs).1.flatMap source = cs := by
  induction cs using cut_induction with
  | nil => rfl
  | unclosed c cs unclosed hfirst =>
    rw [cut_of_error hfirst] at h
    cases h
  | segment c cs segment behind hfirst htext ih =>
    rw [cut_of_ok hfirst htext] at h ⊢
    rw [List.flatMap_cons, ih h, htext]

/-- A text that is cut to its end, which is the end of its last segment whatever comes behind. -/
structure Complete (cs : List Char) : Prop where
  closed : (cut 0 cs).2 = none
  last : (cut 0 cs).1.getLast?.all isClosed = true

/-- A complete text is cut as if there were nothing behind it. -/
theorem Complete.cut_append {cs : List Char} (h : Complete cs) {d : Char} (hd : breaks d = true)
    (more : List Char) :
    cut 0 (cs ++ d :: more) =
      ((cut 0 cs).1 ++ (cut 0 (d :: more)).1, (cut 0 (d :: more)).2) := by
  induction cs using cut_induction with
  | nil => rfl
  | unclosed c cs unclosed hfirst =>
    have hclosed := h.closed
    rw [cut_of_error hfirst] at hclosed
    cases hclosed
  | segment c cs segment behind hfirst htext ih =>
    obtain ⟨hnone, hlast⟩ := h
    rw [cut_of_ok hfirst htext] at hnone hlast ⊢
    -- The segment is the last one and closed, or the text goes on behind it.
    have hclosed : segment.isClosed = true ∨ segment.source.length < (c :: cs).length := by
      cases behind with
      | nil => exact Or.inl (by simpa [cut] using hlast)
      | cons e rest =>
        rw [htext]
        exact Or.inr (by simp)
    have hbehind : Complete behind := by
      refine ⟨hnone, ?_⟩
      cases hsegments : (cut 0 behind).1 with
      | nil => rfl
      | cons next rest =>
        rw [hsegments, List.getLast?_cons_cons] at hlast
        exact hlast
    have hnext : first c (cs ++ d :: more) = .ok segment := first_append more hd hfirst hclosed
    have hwhole : c :: (cs ++ d :: more) = segment.source ++ (behind ++ d :: more) := by
      rw [← List.cons_append, htext, List.append_assoc]
    rw [List.cons_append, cut_of_ok hnext hwhole, ih hbehind, List.cons_append]

end Segment

namespace Lexed

/-- Reading a row of segments ends behind their characters. -/
theorem finish_ofSegments (position : Position) (newlines : Nat) (pending : List Trivia)
    (segments : List Segment) :
    (ofSegments position newlines pending segments).finish =
      position.after (segments.flatMap Segment.source) := by
  induction segments generalizing position newlines pending with
  | nil => rfl
  | cons segment rest ih =>
    rw [List.flatMap_cons, Position.after_append]
    unfold ofSegments
    split
    · exact ih _ _ _
    · exact ih _ _ _
    · exact ih _ _ _
    · exact ih _ _ _
    · exact ih _ _ _
    · exact ih _ _ _
    · exact ih _ _ _

/-- A text is read if it is cut to its end, and its lexemes are those of its segments. -/
theorem ofText_eq_ok_iff {text : String} {lexed : Lexed} :
    ofText text = .ok lexed ↔ (Segment.cut 0 text.toList).2 = none ∧
      lexed = ofSegments .start 0 [] (Segment.cut 0 text.toList).1 := by
  unfold ofText ofChars
  dsimp only
  cases (Segment.cut 0 text.toList).2 with
  | none => simp [eq_comm]
  | some cause => simp

/-- A construct that is left open behind a complete text is found where the text ends, and nothing
comes of the text. -/
theorem ofText_of_unclosed {front behind : String} {cause : Unclosed}
    (hfront : Segment.Complete front.toList)
    (hbehind : Segment.cut 0 behind.toList = ([], some cause)) :
    ofText (front ++ behind) = .error ⟨cause, Position.start.after front.toList⟩ := by
  obtain ⟨d, more, hmore, hopen⟩ := Segment.first_of_cut_eq_nil hbehind
  have hbreaks : Segment.breaks d = true := Segment.breaks_of_first_eq_error hopen
  unfold ofText ofChars
  rw [String.toList_append, hmore, hfront.cut_append hbreaks more, Segment.cut_of_error hopen]
  simp only [List.append_nil, finish_ofSegments, Segment.flatMap_source_cut hfront.closed]

end Lexed

end RemoteCalls
