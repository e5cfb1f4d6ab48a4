import RemoteCalls.Proofs.Token.Sizes

/-!
# Rows that are alike

What is made of a row of lexemes, its text and its arguments, depends on the tokens and on where
they touch each other, and not on the place of the row. The lexemes that come of the same segments
at two places are alike in this sense.
-/

namespace RemoteCalls

namespace Lexeme

/-- Two rows with the same tokens, which touch each other at the same places. -/
inductive Alike : List Lexeme → List Lexeme → Prop
  | nil : Alike [] []
  | cons {lexeme other : Lexeme} {rest rest' : List Lexeme} (htoken : lexeme.token = other.token)
      (htouches : ∀ next ∈ rest.head?, ∀ next' ∈ rest'.head?,
        lexeme.touches next = other.touches next')
      (hrest : Alike rest rest') : Alike (lexeme :: rest) (other :: rest')

namespace Alike

variable {row other : List Lexeme}

theorem tokens_eq (h : Alike row other) : tokens row = tokens other := by
  induction h with
  | nil => rfl
  | cons htoken _ _ ih => exact congrArg₂ List.cons htoken ih

theorem length_eq (h : Alike row other) : row.length = other.length := by
  simpa [tokens] using congrArg List.length h.tokens_eq

theorem getLast?_token_eq (h : Alike row other) :
    row.getLast?.map (·.token) = other.getLast?.map (·.token) := by
  rw [← List.getLast?_map, ← List.getLast?_map]
  exact congrArg List.getLast? h.tokens_eq

/-- Rows that are alike have the same text. -/
theorem join_eq (h : Alike row other) : join row = join other := by
  induction h with
  | nil => rfl
  | @cons lexeme other rest rest' htoken htouches hrest ih =>
    cases hrest with
    | nil => simp [join, htoken]
    | cons _ _ _ => simp only [join, htoken, htouches _ rfl _ rfl, ih]

theorem refl (row : List Lexeme) : Alike row row := by
  induction row with
  | nil => exact .nil
  | cons lexeme rest ih =>
    refine .cons rfl ?_ ih
    intro next hnext next' hnext'
    rw [Option.mem_unique hnext hnext']

theorem symm (h : Alike row other) : Alike other row := by
  induction h with
  | nil => exact .nil
  | cons htoken htouches _ ih =>
    exact .cons htoken.symm (fun next hnext next' hnext' => (htouches next' hnext' next hnext).symm) ih

theorem mem_head?_of_front {front : List Lexeme} (h : front <+: row) {lexeme : Lexeme}
    (hlexeme : lexeme ∈ front.head?) : lexeme ∈ row.head? := by
  obtain ⟨behind, rfl⟩ := h
  obtain ⟨rest, rfl⟩ := List.head?_eq_some_iff.mp hlexeme
  rfl

/-- What is alike to two rows, one behind the other, is made of two rows. -/
theorem exists_of_append {front behind : List Lexeme} (h : Alike (front ++ behind) other) :
    ∃ front' behind', other = front' ++ behind' ∧ Alike front front' ∧ Alike behind behind' := by
  induction front generalizing other with
  | nil => exact ⟨[], other, rfl, .nil, h⟩
  | cons lexeme front ih =>
    obtain _ | ⟨htoken, htouches, hrest⟩ := h
    obtain ⟨front', behind', rfl, hfront, hbehind⟩ := ih hrest
    refine ⟨_ :: front', behind', rfl, .cons htoken ?_ hfront, hbehind⟩
    intro next hnext next' hnext'
    exact htouches next (mem_head?_of_front (List.prefix_append _ _) hnext) next'
      (mem_head?_of_front (List.prefix_append _ _) hnext')

theorem exists_of_cons {lexeme : Lexeme} {rest : List Lexeme} (h : Alike (lexeme :: rest) other) :
    ∃ position trivia rest', other = ⟨lexeme.token, position, trivia⟩ :: rest' ∧
      Alike rest rest' := by
  obtain _ | ⟨htoken, -, hrest⟩ := h
  exact ⟨_, _, _, by rw [htoken], hrest⟩

theorem dropLast (h : Alike row other) : Alike row.dropLast other.dropLast := by
  rcases List.eq_nil_or_concat row with rfl | ⟨front, last, rfl⟩
  · cases h
    exact .nil
  · rw [List.concat_eq_append] at h ⊢
    obtain ⟨front', _, rfl, hfront, hlast⟩ := h.exists_of_append
    obtain ⟨position, trivia, _, rfl, hnone⟩ := hlast.exists_of_cons
    cases hnone
    rwa [List.dropLast_concat, List.dropLast_concat]

theorem parensMatch_eq (h : Alike row other) (depth : Nat) :
    parensMatch depth row = parensMatch depth other := by
  induction h generalizing depth with
  | nil => rfl
  | cons htoken _ _ ih =>
    unfold parensMatch
    rw [htoken]
    split <;> first | rfl | exact ih _

/-- The groups between the commas of rows that are alike have the same texts, and the first of them
are alike. -/
theorem commaGroups_eq (h : Alike row other) (depth : Nat) :
    ∃ group groups group' groups', commaGroups depth row = group :: groups ∧
      commaGroups depth other = group' :: groups' ∧ group <+: row ∧ group' <+: other ∧
      Alike group group' ∧ groups.map join = groups'.map join := by
  induction h generalizing depth with
  | nil => exact ⟨[], [], [], [], rfl, rfl, List.nil_prefix, List.nil_prefix, .nil, rfl⟩
  | @cons lexeme other rest rest' htoken htouches hrest ih =>
    rw [commaGroups, commaGroups, ← htoken]
    split
    · obtain ⟨group, groups, group', groups', hrow, hother, -, -, halike, hmap⟩ := ih 0
      refine ⟨[], _, [], _, rfl, rfl, List.nil_prefix, List.nil_prefix, .nil, ?_⟩
      rw [hrow, hother, List.map_cons, List.map_cons, halike.join_eq, hmap]
    · obtain ⟨group, groups, group', groups', hrow, hother, hfront, hfront', halike, hmap⟩ :=
        ih (depthBehind depth lexeme.token)
      rw [hrow, hother]
      refine ⟨_, _, _, _, rfl, rfl, List.cons_prefix_cons.mpr ⟨rfl, hfront⟩,
        List.cons_prefix_cons.mpr ⟨rfl, hfront'⟩, .cons htoken ?_ halike, hmap⟩
      intro next hnext next' hnext'
      exact htouches next (mem_head?_of_front hfront hnext) next' (mem_head?_of_front hfront' hnext')

/-- Rows that are alike have the same arguments. -/
theorem arguments_eq (h : Alike row other) : arguments row = arguments other := by
  obtain ⟨group, groups, group', groups', hrow, hother, -, -, halike, hmap⟩ := h.commaGroups_eq 0
  unfold arguments
  rw [hrow, hother, List.map_cons, List.map_cons, halike.join_eq, hmap]

end Alike
end Lexeme

namespace Lexed

/-- The lexemes of the same segments are alike, wherever the segments stand. -/
theorem alike_ofSegments (segments : List Segment) :
    (∀ position position' newlines newlines' pending pending',
      Lexeme.Alike (ofSegments position newlines pending segments).lexemes
        (ofSegments position' newlines' pending' segments).lexemes) ∧
    ∃ gap, ∀ position newlines pending,
      ∀ lexeme ∈ (ofSegments position newlines pending segments).lexemes.head?,
        lexeme.position = position.after gap := by
  induction segments with
  | nil => exact ⟨fun _ _ _ _ _ _ => .nil, [], fun _ _ _ lexeme hlexeme => by cases hlexeme⟩
  | cons segment rest ih =>
    obtain ⟨halike, gap, hgap⟩ := ih
    obtain ⟨source, content⟩ := segment
    -- A segment without a lexeme becomes part of the gap.
    have hskip := fun (position position' : Position) =>
      halike (position.after source) (position'.after source)
    have hbehind : ∀ (position : Position) newlines pending,
        ∀ lexeme ∈ (ofSegments (position.after source) newlines pending rest).lexemes.head?,
          lexeme.position = position.after (source ++ gap) := by
      intro position newlines pending lexeme hlexeme
      rw [Position.after_append]
      exact hgap (position.after source) newlines pending lexeme hlexeme
    have hcons : ∀ (token : Token) (trivia trivia' : List Trivia) (position position' : Position),
        Lexeme.Alike
          (⟨token, position, trivia⟩ :: (ofSegments (position.after source) 0 [] rest).lexemes)
          (⟨token, position', trivia'⟩ ::
            (ofSegments (position'.after source) 0 [] rest).lexemes) := by
      intro token trivia trivia' position position'
      refine .cons rfl ?_ (hskip position position' 0 0 [] [])
      intro next hnext next' hnext'
      rw [Bool.eq_iff_iff, Lexeme.touches_iff (hbehind position 0 [] next hnext),
        Lexeme.touches_iff (hbehind position' 0 [] next' hnext')]
    cases content with
    | token token =>
      refine ⟨fun _ _ _ _ _ _ => hcons _ _ _ _ _, [], ?_⟩
      rintro position newlines pending lexeme hlexeme
      cases hlexeme
      rfl
    | directive included =>
      cases included with
      | none =>
        exact ⟨fun _ _ _ _ _ _ => hskip _ _ _ _ _ _, source ++ gap, fun _ _ _ => hbehind _ _ _⟩
      | some header =>
        refine ⟨fun _ _ _ _ _ _ => hcons _ _ _ _ _, [], ?_⟩
        rintro position newlines pending lexeme hlexeme
        cases hlexeme
        rfl
    | _ =>
      exact ⟨fun _ _ _ _ _ _ => hskip _ _ _ _ _ _, source ++ gap, fun _ _ _ => hbehind _ _ _⟩

/-- The lexemes of a row of segments are those of its front and those of its back. -/
theorem exists_ofSegments_append (position : Position) (newlines : Nat) (pending : List Trivia)
    (segments more : List Segment) :
    ∃ newlines' pending',
      ofSegments position newlines pending (segments ++ more) =
        { ofSegments (position.after (segments.flatMap Segment.source)) newlines' pending' more with
          lexemes := (ofSegments position newlines pending segments).lexemes ++
            (ofSegments (position.after (segments.flatMap Segment.source)) newlines' pending'
              more).lexemes } := by
  induction segments generalizing position newlines pending with
  | nil => exact ⟨newlines, pending, rfl⟩
  | cons segment rest ih =>
    obtain ⟨source, content⟩ := segment
    rw [List.flatMap_cons, Position.after_append]
    cases content with
    | newline => exact ih _ _ _
    | blank => exact ih _ _ _
    | joinedLine => exact ih _ _ _
    | comment body => exact ih _ _ _
    | directive included =>
      cases included with
      | none => exact ih _ _ _
      | some header =>
        obtain ⟨newlines', pending', hrest⟩ := ih (position.after source) 0 []
        refine ⟨newlines', pending', ?_⟩
        rw [List.cons_append]
        simp only [ofSegments, hrest, cons, List.cons_append]
    | token token =>
      obtain ⟨newlines', pending', hrest⟩ := ih (position.after source) 0 []
      refine ⟨newlines', pending', ?_⟩
      rw [List.cons_append]
      simp only [ofSegments, hrest, cons, List.cons_append]

end Lexed
end RemoteCalls
