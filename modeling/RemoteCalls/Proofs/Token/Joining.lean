import RemoteCalls.Proofs.Token.Sizes

/-!
# Texts of stretches

The arguments of a note, the size of an array, the width of a bit-field and an initializer are the
texts of stretches of a row, and each of them is read again elsewhere. A stretch that has no include
directive in it comes back from its text token by token, and has the same text again.
-/

namespace RemoteCalls.Lexeme

/-- The text of a row is cut into its tokens. -/
theorem cut_toList_join {row : List Lexeme} (h : Legible row) (hplain : TokensOnly row) :
    Segment.cut 0 (join row).toList = (segments row, none) := by
  obtain ⟨cs, hread⟩ := h
  have hend : ∀ d ∈ ([] : List Char).head?, Segment.isStop d = true := by simp
  simpa [Segment.cut] using cut_join hread hplain hend

/-- What is read from the text of a row is the row again. -/
theorem ofText_join {row : List Lexeme} (h : Legible row) (hplain : TokensOnly row) :
    ∃ again, Lexed.ofText (join row) = .ok again ∧ tokens again.lexemes = tokens row ∧
      join again.lexemes = join row := by
  by_cases hrow : row = []
  · subst hrow
    exact ⟨⟨[], .start, []⟩, rfl, rfl, rfl⟩
  have hcut := cut_toList_join h hplain
  obtain ⟨cs, hread⟩ := h
  obtain ⟨again, finish, hagain, hsegments⟩ :=
    exists_again hread hplain hrow .start 0 [] []
  rw [List.append_nil] at hsegments
  refine ⟨Lexed.ofSegments .start 0 [] (segments row), ?_, ?_, ?_⟩
  · unfold Lexed.ofText Lexed.ofChars
    rw [hcut]
  · rw [hsegments]
    exact (congrArg tokens (List.append_nil again)).trans hagain.tokens
  · rw [hsegments]
    exact (congrArg join (List.append_nil again)).trans hagain.text

/-- The text of a stretch of what is read from a text is read as the stretch again, and has the same
text, unless an include directive stands in it. -/
theorem ofText_join_of_infix {text : String} {lexed : Lexed} {row : List Lexeme}
    (h : Lexed.ofText text = .ok lexed) (hrow : row <:+: lexed.lexemes)
    (hplain : TokensOnly row) :
    ∃ again, Lexed.ofText (join row) = .ok again ∧ tokens again.lexemes = tokens row ∧
      join again.lexemes = join row := by
  obtain ⟨front, behind, hlexemes⟩ := hrow
  have hlegible := Lexed.legible_of_ofText h
  rw [← hlexemes, List.append_assoc] at hlegible
  exact ofText_join (hlegible.suffix (List.suffix_append front _)).front hplain

/-- The initializer of `x`: a string that goes on in the next line, and signs with gaps between. -/
theorem ofText_join_of_broken_string :
    let row : List Lexeme := [⟨.string "\"a\\\nb\"", ⟨1, 5⟩, []⟩, ⟨.operator "+", ⟨2, 3⟩, []⟩,
      ⟨.operator "+", ⟨2, 5⟩, []⟩, ⟨.operator "++", ⟨2, 10⟩, [.comment "" ⟨2, 6⟩]⟩,
      ⟨.identifier "y", ⟨2, 12⟩, []⟩]
    let text := "x = \"a\\\nb\"+ +/**/++y;"
    (∃ lexed, Lexed.ofText text = .ok lexed ∧ row <:+: lexed.lexemes) ∧ TokensOnly row ∧
      join row = "\"a\\\nb\" + + ++y" ∧
      ∃ again, Lexed.ofText (join row) = .ok again ∧ tokens again.lexemes = tokens row ∧
        join again.lexemes = join row := by
  intro row text
  have hplain : TokensOnly row := by
    simp [TokensOnly, row]
  let more : List Lexeme := [⟨.identifier "x", ⟨1, 1⟩, []⟩, ⟨.equals, ⟨1, 3⟩, []⟩]
  let lexed : Lexed := ⟨more ++ row ++ [⟨.semicolon, ⟨2, 13⟩, []⟩], ⟨2, 14⟩, []⟩
  have hlexed : Lexed.ofText text = .ok lexed := by decide +kernel
  have hrow : row <:+: lexed.lexemes := ⟨more, _, rfl⟩
  exact ⟨⟨lexed, hlexed, hrow⟩, hplain, by decide +kernel,
    ofText_join_of_infix hlexed hrow hplain⟩

end RemoteCalls.Lexeme
