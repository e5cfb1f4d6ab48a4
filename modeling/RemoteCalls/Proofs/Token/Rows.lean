import RemoteCalls.Proofs.Token.Cut
import RemoteCalls.Proofs.Token.Order
import RemoteCalls.Proofs.Token.Stability

/-!
# Rows of lexemes and the texts they are read from

The lexemes of a text stand where their tokens are the first segments of what is left of it, and two
of them touch only if there is nothing between them. This remains true of every stretch of a row, so
that it can be said of the lexemes that a reader is at.
-/

namespace RemoteCalls

namespace Segment

theorem toList_text_of_ofMark? {c : Char} {mark : Token} (h : Token.ofMark? c = some mark) :
    mark.text.toList = [c] := by
  unfold Token.ofMark? at h
  split at h <;> cases h <;> rfl

/-- A token is spelled as its source. -/
theorem toList_text_of_first {c : Char} {cs source : List Char} {t : Token}
    (h : first c cs = .ok ⟨source, .token t⟩) : t.text.toList = source := by
  cases (beginsToken_of_first h).2 with
  | literal hquotes htail => cases hquotes <;> exact String.toList_ofList
  | number hstart => exact String.toList_ofList
  | word hstart => rw [Token.text_ofWord, String.toList_ofList]
  | mark hmark => exact toList_text_of_ofMark? hmark
  | operator => rw [Token.text_ofOperator, String.toList_ofList]

end Segment

namespace Position

/-- A run of characters stays on its line just if there is no line break in it. -/
theorem not_mem_of_line_after {p : Position} {cs : List Char} (h : (p.after cs).line = p.line) :
    '\n' ∉ cs := by
  have hle : ∀ (p : Position) (cs : List Char), p.line ≤ (p.after cs).line := by
    intro p cs
    rcases p.eq_or_before_after cs with heq | hbefore
    · exact Nat.le_of_eq (congrArg line heq)
    · unfold Before at hbefore
      omega
  intro hmem
  obtain ⟨front, behind, rfl⟩ := List.append_of_mem hmem
  rw [after_append, after_cons] at h
  have hfront := hle p front
  have hbehind := hle ((p.after front).next '\n') behind
  have hbreak : ((p.after front).next '\n').line = (p.after front).line + 1 := rfl
  omega

end Position

namespace Position

/-- A run of characters takes up as many columns as it is long just if it stays on its line. -/
theorem after_eq_iff {p : Position} {cs : List Char} {width : Nat} :
    (p.line = (p.after cs).line ∧ p.column + width = (p.after cs).column) ↔
      '\n' ∉ cs ∧ width = cs.length := by
  constructor
  · rintro ⟨hline, hcolumn⟩
    have hstays := not_mem_of_line_after hline.symm
    rw [after_of_no_newline _ _ hstays] at hcolumn
    exact ⟨hstays, Nat.add_left_cancel hcolumn⟩
  · rintro ⟨hstays, rfl⟩
    rw [after_of_no_newline _ _ hstays]
    exact ⟨rfl, rfl⟩

end Position

namespace Lexeme

/-- A row of lexemes is read from a text: each token is the first segment of what is left of the
text, and a lexeme that touches the next one has nothing behind it. Nothing is said of the text of
an include directive. -/
inductive Read : List Char → List Lexeme → Prop
  | nil (cs : List Char) : Read cs []
  | token {c : Char} {source gap behind : List Char} {lexeme : Lexeme} {rest : List Lexeme}
      (hfirst : Segment.first c (source ++ (gap ++ behind)) =
        .ok ⟨c :: source, .token lexeme.token⟩)
      (htouches : ∀ next ∈ rest.head?, lexeme.touches next = true →
        gap = [] ∧ '\n' ∉ c :: source)
      (hrest : Read behind rest) :
      Read (c :: source ++ (gap ++ behind)) (lexeme :: rest)
  | inclusion (cs : List Char) {behind : List Char} {header : Inclusion} {lexeme : Lexeme}
      {rest : List Lexeme} (htoken : lexeme.token = .inclusion header) (hrest : Read behind rest) :
      Read cs (lexeme :: rest)

/-- A row of lexemes that is read from some text. -/
def Legible (row : List Lexeme) : Prop := ∃ cs, Read cs row

namespace Read

variable {cs : List Char} {row more : List Lexeme}

/-- The front of a row is read from the same text. -/
theorem front (h : Read cs (row ++ more)) : Read cs row := by
  induction row generalizing cs with
  | nil => exact .nil cs
  | cons lexeme row ih =>
    cases h with
    | token hfirst htouches hrest =>
      refine .token hfirst ?_ (ih hrest)
      intro next hnext
      refine htouches next ?_
      cases row with
      | nil => cases hnext
      | cons other row => exact hnext
    | inclusion _ htoken hrest => exact .inclusion cs htoken (ih hrest)

/-- The back of a row is read from the back of the text. -/
theorem back (h : Read cs (row ++ more)) : Legible more := by
  induction row generalizing cs with
  | nil => exact ⟨cs, h⟩
  | cons lexeme row ih =>
    cases h with
    | token _ _ hrest => exact ih hrest
    | inclusion _ _ hrest => exact ih hrest

end Read

namespace Legible

theorem suffix {row rest : List Lexeme} (h : Legible row) (hsuffix : rest <:+ row) :
    Legible rest := by
  obtain ⟨front, rfl⟩ := hsuffix
  obtain ⟨cs, hread⟩ := h
  exact hread.back

theorem tail {row : List Lexeme} (h : Legible row) : Legible row.tail :=
  h.suffix (List.tail_suffix row)

theorem front {row more : List Lexeme} (h : Legible (row ++ more)) : Legible row := by
  obtain ⟨cs, hread⟩ := h
  exact ⟨cs, hread.front⟩

theorem part {row part : List Lexeme} (h : Legible row) (hpart : part <:+: row) :
    Legible part := by
  obtain ⟨before, behind, rfl⟩ := hpart
  rw [List.append_assoc] at h
  exact (h.suffix (List.suffix_append before _)).front

end Legible

/-- Whether a lexeme touches the next one is told by the characters from the one to the other. -/
theorem touches_iff {lexeme next : Lexeme} {between : List Char}
    (h : next.position = lexeme.position.after between) :
    lexeme.touches next = true ↔ '\n' ∉ between ∧ lexeme.token.text.length = between.length := by
  unfold touches
  rw [Bool.and_eq_true, beq_iff_eq, beq_iff_eq, h, Position.after_eq_iff]

/-- A lexeme touches the next one just if nothing stands between them and no line break is in it. -/
theorem touches_behind_iff {lexeme next : Lexeme} {gap : List Char}
    (h : next.position = (lexeme.position.after lexeme.token.text.toList).after gap) :
    lexeme.touches next = true ↔ gap = [] ∧ '\n' ∉ lexeme.token.text.toList := by
  rw [← Position.after_append] at h
  rw [touches_iff h, List.length_append, String.length_toList]
  constructor
  · rintro ⟨hline, hlength⟩
    have hgap : gap = [] := List.eq_nil_of_length_eq_zero (by omega)
    exact ⟨hgap, fun hmem => hline (List.mem_append_left _ hmem)⟩
  · rintro ⟨rfl, hline⟩
    rw [List.append_nil]
    exact ⟨hline, rfl⟩

end Lexeme

namespace Lexed

/-- The lexemes of a text are read from the text behind what stands in front of the first one. -/
theorem read_ofSegments (position : Position) (newlines : Nat) (pending : List Trivia)
    (cs : List Char) :
    let lexemes := (ofSegments position newlines pending (Segment.cut 0 cs).1).lexemes
    ∃ gap behind, cs = gap ++ behind ∧ Lexeme.Read behind lexemes ∧
      ∀ lexeme ∈ lexemes.head?, lexeme.position = position.after gap := by
  induction cs using Segment.cut_induction generalizing position newlines pending with
  | nil => exact ⟨[], [], rfl, .nil [], nofun⟩
  | unclosed c cs unclosed hfirst =>
    rw [Segment.cut_of_error hfirst]
    exact ⟨[], c :: cs, rfl, .nil _, nofun⟩
  | segment c cs segment behind hfirst htext ih =>
    rw [Segment.cut_of_ok hfirst htext]
    -- What is no token becomes part of the gap.
    have hskip : ∀ (newlines : Nat) (pending : List Trivia) (lexemes : List Lexeme),
        lexemes = (ofSegments (position.after segment.source) newlines pending
          (Segment.cut 0 behind).1).lexemes →
        ∃ gap behind, c :: cs = gap ++ behind ∧ Lexeme.Read behind lexemes ∧
          ∀ lexeme ∈ lexemes.head?, lexeme.position = position.after gap := by
      rintro newlines pending lexemes rfl
      obtain ⟨gap, rest, hrest, hread, hposition⟩ :=
        ih (position.after segment.source) newlines pending
      refine ⟨segment.source ++ gap, rest, ?_, hread, ?_⟩
      · rw [htext, hrest, List.append_assoc]
      · intro lexeme hlexeme
        rw [hposition lexeme hlexeme, Position.after_append]
    obtain ⟨source, content⟩ := segment
    cases content with
    | newline => exact hskip _ _ _ rfl
    | blank => exact hskip _ _ _ rfl
    | joinedLine => exact hskip _ _ _ rfl
    | comment body => exact hskip _ _ _ rfl
    | directive included =>
      cases included with
      | none => exact hskip _ _ _ rfl
      | some header =>
        obtain ⟨gap, rest, -, hread, -⟩ := ih (position.after source) 0 []
        refine ⟨[], c :: cs, rfl, .inclusion _ rfl hread, ?_⟩
        rintro lexeme hlexeme
        cases hlexeme
        rfl
    | token t =>
      obtain ⟨gap, rest, hrest, hread, hposition⟩ := ih (position.after source) 0 []
      obtain ⟨d, source, rfl⟩ := List.exists_cons_of_ne_nil (Segment.covers_first hfirst).nonempty
      have htoken := Segment.toList_text_of_first hfirst
      dsimp only at htext htoken
      rw [hrest, List.cons_append] at htext
      obtain ⟨rfl, rfl⟩ := List.cons.inj htext
      refine ⟨[], _, rfl, .token hfirst ?_ hread, ?_⟩
      · intro next hnext htouches
        have hbehind := hposition next hnext
        rw [← htoken] at hbehind ⊢
        exact (Lexeme.touches_behind_iff hbehind).mp htouches
      · rintro lexeme hlexeme
        cases hlexeme
        rfl

/-- The lexemes of a text are read from it. -/
theorem legible_of_ofText {text : String} {lexed : Lexed} (h : ofText text = .ok lexed) :
    Lexeme.Legible lexed.lexemes := by
  obtain ⟨-, rfl⟩ := ofText_eq_ok_iff.mp h
  obtain ⟨gap, behind, -, hread, -⟩ := read_ofSegments .start 0 [] text.toList
  exact ⟨behind, hread⟩

end Lexed

end RemoteCalls
