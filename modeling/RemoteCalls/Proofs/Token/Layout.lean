import RemoteCalls.Proofs.Token.Stretches

/-!
# How lexemes lie in a text

The segments of a text are all of it. Each lexeme lies where one of them begins and is spelled as
it, and between two lexemes stand the comments that are in front of the second one, and no others.
-/

namespace RemoteCalls

/-- The token that a stretch of text stands for: itself, or an include directive. -/
def Content.token? : Content → Option Token
  | .token t => some t
  | .directive (some header) => some (.inclusion header)
  | _ => none

/-- A comment and where it begins. -/
def Trivia.comment? : Trivia → Option (String × Position)
  | .comment body position => some (body, position)
  | .blankLine _ => none

namespace Segment

/-- Some segments cover a text, one behind the other. -/
inductive Tiles : List Segment → List Char → Prop
  | nil : Tiles [] []
  | cons {segment : Segment} {segments : List Segment} {behind : List Char}
      (hsegment : Stretch segment behind) (hrest : Tiles segments behind) :
      Tiles (segment :: segments) (segment.source ++ behind)

/-- The comments among some segments from a position on, and where each begins. -/
def commentsAt : Position → List Segment → List (String × Position)
  | _, [] => []
  | position, segment :: rest =>
    (match segment.content with
      | .comment body => [(body, position)]
      | _ => []) ++ commentsAt (position.after segment.source) rest

theorem commentsAt_append (position : Position) (front back : List Segment) :
    commentsAt position (front ++ back) =
      commentsAt position front ++ commentsAt (position.after (front.flatMap source)) back := by
  induction front generalizing position with
  | nil => rfl
  | cons segment front ih =>
    rw [List.cons_append, commentsAt, commentsAt, ih, List.flatMap_cons, Position.after_append,
      List.append_assoc]

namespace Tiles

variable {segments : List Segment} {cs : List Char}

/-- What covers a text is all of it. -/
theorem flatMap_source (h : Tiles segments cs) : segments.flatMap source = cs := by
  induction h with
  | nil => rfl
  | cons _ _ ih => rw [List.flatMap_cons, ih]

theorem exists_stretch (h : Tiles segments cs) {segment : Segment} (hmem : segment ∈ segments) :
    ∃ behind, Stretch segment behind := by
  induction h with
  | nil => cases hmem
  | @cons _ _ behind hsegment _ ih =>
    rcases List.mem_cons.mp hmem with rfl | hmem
    · exact ⟨behind, hsegment⟩
    · exact ih hmem

end Tiles

/-- A segment is not empty. -/
theorem Stretch.source_ne_nil {segment : Segment} {behind : List Char}
    (h : Stretch segment behind) : segment.source ≠ [] := by
  cases h with
  | token hsource _ => simpa using hsource
  | @directive line _ _ hline _ _ =>
    rintro (rfl : line = [])
    cases hline.begins
  | disabling hline _ _ =>
    intro hempty
    obtain ⟨rfl, -⟩ := List.append_eq_nil_iff.mp hempty
    cases hline.begins
  | _ => simp

/-- A text that is cut to its end is covered by its segments. -/
theorem tiles_cut {cs : List Char} (h : (cut 0 cs).2 = none) : Tiles (cut 0 cs).1 cs := by
  induction cs using cut_induction with
  | nil => exact .nil
  | unclosed c cs unclosed hfirst =>
    rw [cut_of_error hfirst] at h
    cases h
  | segment c cs segment behind hfirst htext ih =>
    rw [cut_of_ok hfirst htext] at h ⊢
    rw [htext]
    exact .cons (stretch_first hfirst htext) (ih h)

end Segment

open Segment (source commentsAt)

/-- `Layout position segments lexed`: the lexemes lie among the segments, the first of which begins
at the position. In front of each lexeme is a gap without tokens, and the trivia of the lexeme have
the comments of that gap; so it is at the end. -/
inductive Layout : Position → List Segment → Lexed → Prop
  | finish {position : Position} {gap : List Segment} {closing : List Trivia}
      (hgap : ∀ segment ∈ gap, segment.content.token? = none)
      (hclosing : closing.filterMap Trivia.comment? = commentsAt position gap) :
      Layout position gap ⟨[], position.after (gap.flatMap source), closing⟩
  | lexeme {position : Position} {gap more : List Segment} {segment : Segment} {t : Token}
      {trivia : List Trivia} {rest : Lexed}
      (hgap : ∀ segment ∈ gap, segment.content.token? = none)
      (htoken : segment.content.token? = some t)
      (htrivia : trivia.filterMap Trivia.comment? = commentsAt position gap)
      (hrest : Layout ((position.after (gap.flatMap source)).after segment.source) more rest) :
      Layout position (gap ++ segment :: more)
        (rest.cons ⟨t, position.after (gap.flatMap source), trivia⟩)

namespace Lexed

/-- The tokens of a text, with the end behind them. -/
def tokens (lexed : Lexed) : List Token := Lexeme.tokens lexed.lexemes ++ [.endOfFile]

/-- What stands in front of each token and of the end. -/
def trivia (lexed : Lexed) : List (List Trivia) := lexed.lexemes.map (·.trivia) ++ [lexed.closing]

/-- Where each token and the end stand. -/
def positions (lexed : Lexed) : List Position := lexed.lexemes.map (·.position) ++ [lexed.finish]

/-- The lexemes of a row of segments lie among them, also behind a gap that is read already. -/
theorem layout_ofSegments (start : Position) (gap segments : List Segment) (newlines : Nat)
    (pending : List Trivia) (hgap : ∀ segment ∈ gap, segment.content.token? = none)
    (hpending : pending.filterMap Trivia.comment? = commentsAt start gap) :
    Layout start (gap ++ segments)
      (ofSegments (start.after (gap.flatMap source)) newlines pending segments) := by
  induction segments generalizing start gap newlines pending with
  | nil =>
    rw [List.append_nil]
    exact .finish hgap hpending
  | cons segment rest ih =>
    -- A segment without a token makes the gap longer.
    have hlonger : ∀ (newlines : Nat) (pending : List Trivia), segment.content.token? = none →
        pending.filterMap Trivia.comment? = commentsAt start (gap ++ [segment]) →
        Layout start (gap ++ segment :: rest)
          (ofSegments ((start.after (gap.flatMap source)).after segment.source) newlines pending
            rest) := by
      intro newlines pending htoken hpending
      have hgap : ∀ other ∈ gap ++ [segment], other.content.token? = none := by
        intro other hother
        rcases List.mem_append.mp hother with hother | hother
        · exact hgap other hother
        · rw [List.mem_singleton.mp hother]
          exact htoken
      have hlayout := ih start (gap ++ [segment]) newlines pending hgap hpending
      rw [List.append_assoc, List.flatMap_append, List.flatMap_singleton,
        Position.after_append] at hlayout
      exact hlayout
    have hnext : Layout ((start.after (gap.flatMap source)).after segment.source) rest
        (ofSegments ((start.after (gap.flatMap source)).after segment.source) 0 [] rest) :=
      ih _ [] 0 [] nofun rfl
    obtain ⟨chars, content⟩ := segment
    cases content with
    | newline =>
      refine hlonger _ _ rfl ?_
      rw [Segment.commentsAt_append]
      split
      · simp [hpending, Trivia.comment?, commentsAt]
      · simp [hpending, commentsAt]
    | blank => exact hlonger _ _ rfl (by simp [Segment.commentsAt_append, hpending, commentsAt])
    | joinedLine =>
      exact hlonger _ _ rfl (by simp [Segment.commentsAt_append, hpending, commentsAt])
    | comment body =>
      refine hlonger _ _ rfl ?_
      simp [Segment.commentsAt_append, hpending, commentsAt, Trivia.comment?]
    | directive included =>
      cases included with
      | none => exact hlonger _ _ rfl (by simp [Segment.commentsAt_append, hpending, commentsAt])
      | some header => exact .lexeme hgap rfl hpending hnext
    | token t => exact .lexeme hgap rfl hpending hnext

end Lexed

namespace Layout

variable {position : Position} {segments : List Segment} {lexed : Lexed}

/-- The end of a text is behind all of its segments. -/
theorem finish_eq (h : Layout position segments lexed) :
    lexed.finish = position.after (segments.flatMap source) := by
  induction h with
  | finish _ _ => rfl
  | lexeme _ _ _ _ ih =>
    rw [List.flatMap_append, List.flatMap_cons, Position.after_append, Position.after_append]
    exact ih

/-- Each lexeme lies where a segment with its token begins. -/
theorem exists_segment (h : Layout position segments lexed) {lexeme : Lexeme}
    (hlexeme : lexeme ∈ lexed.lexemes) : ∃ before segment after,
      segments = before ++ segment :: after ∧ segment.content.token? = some lexeme.token ∧
        lexeme.position = position.after (before.flatMap source) := by
  induction h with
  | finish _ _ => cases hlexeme
  | @lexeme position gap more segment t trivia rest _ htoken _ _ ih =>
    rcases List.mem_cons.mp hlexeme with rfl | hlexeme
    · exact ⟨gap, segment, more, rfl, htoken, rfl⟩
    · obtain ⟨before, other, after, rfl, hother, hposition⟩ := ih hlexeme
      refine ⟨gap ++ segment :: before, other, after, by simp, hother, ?_⟩
      rw [hposition, List.flatMap_append, List.flatMap_cons, Position.after_append,
        Position.after_append]

end Layout

namespace Lexed

/-- A lexed text has lost nothing of the source and has added nothing. -/
structure Faithful (segments : List Segment) (cs : List Char) (lexed : Lexed) : Prop where
  /-- Each segment is a token, a comment, a blank, a joined line or a directive. -/
  tiles : Segment.Tiles segments cs
  /-- The segments one behind the other are the source. -/
  whole : segments.flatMap source = cs
  /-- There is an entry of trivia for each token. -/
  length : lexed.tokens.length = lexed.trivia.length
  /-- The end is the last token and the only one of its kind. -/
  ends : ∃ front, lexed.tokens = front ++ [.endOfFile] ∧ .endOfFile ∉ front
  /-- Where a token other than an include directive stands, a segment with its text begins. -/
  spelled : ∀ lexeme ∈ lexed.lexemes, (∀ header, lexeme.token ≠ .inclusion header) →
    ∃ before after, segments =
        before ++ ⟨lexeme.token.text.toList, .token lexeme.token⟩ :: after ∧
      lexeme.position = Position.start.after (before.flatMap source)
  /-- Each token stands before those behind it. -/
  ordered : lexed.positions.Pairwise Position.Before
  /-- The trivia in front of a token have the comments between it and the token before. -/
  layout : Layout .start segments lexed

/-- Every text that can be read into lexemes is covered by segments among which the lexemes lie. -/
theorem exists_faithful {text : String} {lexed : Lexed} (h : ofText text = .ok lexed) :
    ∃ segments, Faithful segments text.toList lexed := by
  have hordered := (ordered_ofText h).rest
  have hcut : (Segment.cut 0 text.toList).2 = none ∧
      lexed = ofSegments .start 0 [] (Segment.cut 0 text.toList).1 := by
    unfold ofText ofChars at h
    dsimp only at h
    split at h
    · next hnone => exact ⟨hnone, (Except.ok.inj h).symm⟩
    · cases h
  obtain ⟨hnone, hlexed⟩ := hcut
  have htiles := Segment.tiles_cut hnone
  have hlayout : Layout .start (Segment.cut 0 text.toList).1 lexed := by
    rw [hlexed]
    exact layout_ofSegments .start [] _ 0 [] nofun rfl
  generalize (Segment.cut 0 text.toList).1 = segments at htiles hlayout
  refine ⟨segments, htiles, htiles.flatMap_source, ?_, ⟨_, rfl, ?_⟩, ?_, ?_, hlayout⟩
  · simp [tokens, Lexed.trivia, Lexeme.tokens]
  · intro hend
    obtain ⟨lexeme, hlexeme, htoken⟩ := List.mem_map.mp hend
    obtain ⟨before, segment, after, rfl, hcontent, -⟩ := hlayout.exists_segment hlexeme
    obtain ⟨behind, hstretch⟩ :=
      htiles.exists_stretch (List.mem_append_right before List.mem_cons_self)
    rw [htoken] at hcontent
    cases hstretch with
    | token hsource _ =>
      obtain rfl := Option.some.inj hcontent
      exact hsource rfl
    | @directive line behind included _ _ _ =>
      cases included <;> cases hcontent
    | _ => cases hcontent
  · intro lexeme hlexeme hheader
    obtain ⟨before, segment, after, rfl, hcontent, hposition⟩ := hlayout.exists_segment hlexeme
    obtain ⟨behind, hstretch⟩ :=
      htiles.exists_stretch (List.mem_append_right before List.mem_cons_self)
    cases hstretch with
    | token hsource _ =>
      obtain rfl := Option.some.inj hcontent
      exact ⟨before, after, rfl, hposition⟩
    | @directive line behind included _ _ _ =>
      cases included with
      | none => cases hcontent
      | some header => exact absurd (Option.some.inj hcontent).symm (hheader header)
    | _ => cases hcontent
  · unfold positions
    rw [List.pairwise_append]
    refine ⟨List.pairwise_map.mpr hordered, List.pairwise_singleton _ _, ?_⟩
    intro p hp q hq
    obtain ⟨lexeme, hlexeme, rfl⟩ := List.mem_map.mp hp
    obtain rfl := List.mem_singleton.mp hq
    obtain ⟨before, segment, after, rfl, -, hposition⟩ := hlayout.exists_segment hlexeme
    obtain ⟨behind, hstretch⟩ :=
      htiles.exists_stretch (List.mem_append_right before List.mem_cons_self)
    rw [hlayout.finish_eq, hposition, List.flatMap_append, Position.after_append]
    refine Position.before_after _ ?_
    rw [List.flatMap_cons]
    exact List.append_ne_nil_of_left_ne_nil hstretch.source_ne_nil _

/-- A text with comments of both forms, a disabled region, an include directive, an escaped line
break in a literal and a joined line. -/
theorem exists_faithful_of_region : ∃ text lexed,
    text = "/*m*/a \"x\\\n\"//e\n#if 0\nb\n#endif\n #include <h>\n\\\n>>=;" ∧
    ofText text = .ok lexed ∧
    lexed.tokens = [.identifier "a", .string "\"x\\\n\"", .inclusion ⟨"h", true⟩, .operator ">>=",
      .semicolon, .endOfFile] ∧
    lexed.trivia.map (·.filterMap Trivia.comment?) =
      [[("m", ⟨1, 1⟩)], [], [("e", ⟨2, 2⟩)], [], [], []] ∧
    ∃ segments, Faithful segments text.toList lexed := by
  refine ⟨_, ⟨[⟨.identifier "a", ⟨1, 6⟩, [.comment "m" ⟨1, 1⟩]⟩, ⟨.string "\"x\\\n\"", ⟨1, 8⟩, []⟩,
      ⟨.inclusion ⟨"h", true⟩, ⟨6, 2⟩, [.comment "e" ⟨2, 2⟩]⟩, ⟨.operator ">>=", ⟨8, 1⟩, []⟩,
      ⟨.semicolon, ⟨8, 4⟩, []⟩], ⟨8, 5⟩, []⟩, rfl, ?_, by decide, by decide, ?_⟩
  · decide +kernel
  · exact exists_faithful (by decide +kernel)

end Lexed

end RemoteCalls
