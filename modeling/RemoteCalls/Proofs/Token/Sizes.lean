import RemoteCalls.Proofs.Token.Nesting
import RemoteCalls.Proofs.Token.Rows

/-!
# Rows of lexemes that are written again

The text of a row keeps the tokens apart that stand apart in the source, so that it is cut at the
same places if it is read again, and the lexemes that are read from it have the same text. The size
of an array is such a text: it is what stands between two brackets, and can be written between
brackets again. The width of a bit-field is another: it is an expression, and can be written in
front of a semicolon again.
-/

namespace RemoteCalls

namespace Lexeme

/-- A row without include directives, each of whose lexemes is spelled as its source. -/
def TokensOnly (row : List Lexeme) : Prop :=
  ∀ lexeme ∈ row, ∀ header, lexeme.token ≠ .inclusion header

/-- What stands behind the first lexeme in the text of a row. -/
def joinBehind (lexeme : Lexeme) : List Lexeme → String
  | [] => ""
  | next :: rest => (if lexeme.touches next then "" else " ") ++ join (next :: rest)

theorem join_cons (lexeme : Lexeme) (rest : List Lexeme) :
    join (lexeme :: rest) = lexeme.token.text ++ joinBehind lexeme rest := by
  cases rest with
  | nil => simp [join, joinBehind]
  | cons next rest => simp [join, joinBehind, String.append_assoc]

/-- The segment of a token. -/
def segment (lexeme : Lexeme) : Segment :=
  ⟨lexeme.token.text.toList, .token lexeme.token⟩

/-- The segments of the text of a row. -/
def segments : List Lexeme → List Segment
  | [] => []
  | [lexeme] => [lexeme.segment]
  | lexeme :: next :: rest =>
    lexeme.segment :: (if lexeme.touches next then [] else [⟨[' '], .blank⟩]) ++
      segments (next :: rest)

variable {cs ending : List Char} {row : List Lexeme}

theorem TokensOnly.tail {lexeme : Lexeme} (h : TokensOnly (lexeme :: row)) : TokensOnly row :=
  fun other hother => h other (List.mem_cons_of_mem _ hother)

/-- The text of an include directive begins as a directive does. -/
theorem exists_toList_inclusion (header : Inclusion) :
    ∃ cs, (Token.inclusion header).text.toList = '#' :: cs := by
  obtain ⟨path, system⟩ := header
  cases system <;> simp [Token.text]

/-- What stands behind the first lexeme agrees with what stands behind it in the source, if the row
behind it does. -/
theorem agree_joinBehind {gap behind source : List Char} {lexeme : Lexeme}
    (htouches : ∀ next ∈ row.head?, lexeme.touches next = true → gap = [] ∧ '\n' ∉ source)
    (hrest : row ≠ [] → Segment.Agree behind ((join row).toList ++ ending))
    (hending : ∀ d ∈ ending.head?, Segment.isStop d = true) :
    Segment.Agree (gap ++ behind) ((joinBehind lexeme row).toList ++ ending) := by
  cases row with
  | nil => exact .of_stop _ hending
  | cons next rest =>
    cases htouch : lexeme.touches next with
    | false =>
      simp only [joinBehind, htouch, String.toList_append]
      exact .of_stop _ (by rintro d hd; cases hd; rfl)
    | true =>
      obtain ⟨rfl, -⟩ := htouches next rfl htouch
      simp only [joinBehind, htouch, if_true, String.empty_append, List.nil_append]
      exact hrest (List.cons_ne_nil _ _)

/-- The text of a row agrees with the text it is read from, up to the first gap. -/
theorem agree_join (h : Read cs row) (hrow : row ≠ [])
    (hending : ∀ d ∈ ending.head?, Segment.isStop d = true) :
    Segment.Agree cs ((join row).toList ++ ending) := by
  induction h with
  | nil cs => exact absurd rfl hrow
  | @inclusion behind lexeme header rest cs htoken hrest =>
    obtain ⟨spelled, hspelled⟩ := exists_toList_inclusion header
    rw [join_cons, htoken, String.toList_append, hspelled]
    exact .of_stop _ (by rintro d hd; cases hd; rfl)
  | @token c source gap behind lexeme rest hfirst htouches hrest ih =>
    have htext := Segment.toList_text_of_first hfirst
    rw [join_cons, String.toList_append, htext, List.append_assoc]
    exact (agree_joinBehind htouches ih hending).append (c :: source)

theorem cut_blank (cs : List Char) :
    Segment.cut 0 (' ' :: cs) = (⟨[' '], .blank⟩ :: (Segment.cut 0 cs).1, (Segment.cut 0 cs).2) :=
  Segment.cut_of_ok rfl rfl

/-- The text of a row is cut into its tokens, whatever stop stands behind it. -/
theorem cut_join (h : Read cs row) (hplain : TokensOnly row)
    (hending : ∀ d ∈ ending.head?, Segment.isStop d = true) :
    Segment.cut 0 ((join row).toList ++ ending) =
      (segments row ++ (Segment.cut 0 ending).1, (Segment.cut 0 ending).2) := by
  induction h with
  | nil cs => rfl
  | inclusion cs htoken hrest =>
    exact absurd htoken (hplain _ (List.mem_cons_self ..) _)
  | @token c source gap behind lexeme rest hfirst htouches hrest ih =>
    have htext := Segment.toList_text_of_first hfirst
    have hagree := agree_joinBehind htouches (fun hne => agree_join hrest hne hending) hending
    have hfirst' := Segment.first_of_agree hagree hfirst
    rw [join_cons, String.toList_append, htext, List.append_assoc, List.cons_append,
      Segment.cut_of_ok hfirst' rfl]
    have hsegment : lexeme.segment = ⟨c :: source, .token lexeme.token⟩ := by
      rw [segment, htext]
    cases rest with
    | nil => simp [joinBehind, segments, hsegment]
    | cons next rest =>
      have hnext := ih hplain.tail
      cases htouch : lexeme.touches next with
      | false =>
        have hblank : (joinBehind lexeme (next :: rest)).toList ++ ending =
            ' ' :: ((join (next :: rest)).toList ++ ending) := by
          simp [joinBehind, htouch]
        rw [hblank, cut_blank, hnext]
        simp [segments, htouch, hsegment]
      | true =>
        have hsame : (joinBehind lexeme (next :: rest)).toList = (join (next :: rest)).toList := by
          simp [joinBehind, htouch]
        rw [hsame, hnext]
        simp [segments, htouch, hsegment]

/-- Lexemes that are read again from the text of a row: they have the same tokens and the same text,
and only the first has trivia. -/
structure Again (position : Position) (pending : List Trivia) (row again : List Lexeme) : Prop where
  tokens : tokens again = tokens row
  text : join again = join row
  first : ∀ lexeme ∈ again.head?, lexeme.position = position
  trivia : ∀ lexeme ∈ again, lexeme.trivia = pending ∨ lexeme.trivia = []

theorem Again.singleton (lexeme : Lexeme) (position : Position) (pending : List Trivia) :
    Again position pending [lexeme] [⟨lexeme.token, position, pending⟩] := by
  refine ⟨rfl, rfl, ?_, ?_⟩
  · rintro other hother
    cases hother
    rfl
  · intro other hother
    rw [List.mem_singleton.mp hother]
    exact .inl rfl

/-- A lexeme in front of a row that is read again, with a gap behind it unless it touches the row. -/
theorem Again.cons {lexeme next : Lexeme} {rest again : List Lexeme} {position : Position}
    {gap : List Char} (pending : List Trivia)
    (h : Again ((position.after lexeme.token.text.toList).after gap) [] (next :: rest) again)
    (hgap : lexeme.touches next = true ↔ gap = [] ∧ '\n' ∉ lexeme.token.text.toList) :
    Again position pending (lexeme :: next :: rest)
      (⟨lexeme.token, position, pending⟩ :: again) := by
  have hne : again ≠ [] := by
    rintro rfl
    cases h.tokens
  obtain ⟨other, others, rfl⟩ := List.exists_cons_of_ne_nil hne
  have hsame : touches ⟨lexeme.token, position, pending⟩ other = lexeme.touches next :=
    Bool.eq_iff_iff.mpr ((touches_behind_iff (h.first other rfl)).trans hgap.symm)
  refine ⟨?_, ?_, ?_, ?_⟩
  · simpa [Lexeme.tokens] using h.tokens
  · have htext := h.text
    simp only [join, hsame]
    rw [htext]
  · rintro lexeme hlexeme
    cases hlexeme
    rfl
  · intro lexeme hlexeme
    rcases List.mem_cons.mp hlexeme with rfl | hlexeme
    · exact .inl rfl
    · exact .inr ((h.trivia lexeme hlexeme).elim id id)

/-- A row that is not empty is read again from its segments. -/
theorem exists_again (h : Read cs row) (hplain : TokensOnly row) (hrow : row ≠ [])
    (position : Position) (newlines : Nat) (pending : List Trivia) (more : List Segment) :
    ∃ again finish, Again position pending row again ∧
      Lexed.ofSegments position newlines pending (segments row ++ more) =
        { Lexed.ofSegments finish 0 [] more with
          lexemes := again ++ (Lexed.ofSegments finish 0 [] more).lexemes } := by
  induction h generalizing position newlines pending with
  | nil cs => exact absurd rfl hrow
  | inclusion cs htoken hrest =>
    exact absurd htoken (hplain _ (List.mem_cons_self ..) _)
  | @token c source gap behind lexeme rest hfirst htouches hrest ih =>
    let behind := position.after lexeme.token.text.toList
    have hread : ∀ more, Lexed.ofSegments position newlines pending (lexeme.segment :: more) =
        Lexed.cons ⟨lexeme.token, position, pending⟩ (Lexed.ofSegments behind 0 [] more) :=
      fun _ => rfl
    cases rest with
    | nil => exact ⟨_, behind, .singleton lexeme position pending, hread more⟩
    | cons next rest =>
      -- The next lexeme begins behind the token, with or without a space between them.
      cases htouch : lexeme.touches next with
      | true =>
        obtain ⟨again, finish, hagain, heq⟩ :=
          ih hplain.tail (List.cons_ne_nil _ _) (behind.after []) 0 []
        have hline : '\n' ∉ lexeme.token.text.toList := by
          rw [Segment.toList_text_of_first hfirst]
          exact (htouches next rfl htouch).2
        refine ⟨_, finish, hagain.cons pending (iff_of_true htouch ⟨rfl, hline⟩), ?_⟩
        have hsegments : segments (lexeme :: next :: rest) =
            lexeme.segment :: segments (next :: rest) := by
          simp [segments, htouch]
        rw [Position.after_nil] at heq
        rw [hsegments, List.cons_append, hread, heq]
        rfl
      | false =>
        obtain ⟨again, finish, hagain, heq⟩ :=
          ih hplain.tail (List.cons_ne_nil _ _) (behind.after [' ']) 0 []
        have hgap : lexeme.touches next = true ↔
            [' '] = [] ∧ '\n' ∉ lexeme.token.text.toList := by
          simp [htouch]
        refine ⟨_, finish, hagain.cons pending hgap, ?_⟩
        have hsegments : segments (lexeme :: next :: rest) =
            lexeme.segment :: ⟨[' '], .blank⟩ :: segments (next :: rest) := by
          simp [segments, htouch]
        have hblank : ∀ more, Lexed.ofSegments behind 0 [] (⟨[' '], .blank⟩ :: more) =
            Lexed.ofSegments (behind.after [' ']) 0 [] more := fun _ => rfl
        rw [hsegments, List.cons_append, hread, List.cons_append, hblank, heq]
        rfl

end Lexeme

/-! ## Sizes of arrays and widths of bit-fields -/

/-- A text between two brackets: the text of a row that is not empty and closes its groups. -/
def ScannedSize (size : String) : Prop :=
  ∃ row : List Lexeme, Lexeme.Legible row ∧ Token.Balanced (Lexeme.tokens row) ∧ row ≠ [] ∧
    Lexeme.join row = size

/-- The text of a row between two brackets that has no include directive in it. -/
def PlainSize (size : String) : Prop :=
  ∃ row : List Lexeme, Lexeme.Legible row ∧ Lexeme.TokensOnly row ∧
    Token.Balanced (Lexeme.tokens row) ∧ row ≠ [] ∧ Lexeme.join row = size

/-- The text of an expression that is not empty. -/
def ScannedWidth (width : String) : Prop :=
  ∃ row : List Lexeme, Lexeme.Legible row ∧ Token.IsExpression 0 (Lexeme.tokens row) ∧ row ≠ [] ∧
    Lexeme.join row = width

/-- The text of an expression that is not empty and has no include directive in it. -/
def PlainWidth (width : String) : Prop :=
  ∃ row : List Lexeme, Lexeme.Legible row ∧ Lexeme.TokensOnly row ∧
    Token.IsExpression 0 (Lexeme.tokens row) ∧ row ≠ [] ∧ Lexeme.join row = width

/-- A text has no directive in it. -/
def WithoutDirective (text : String) : Prop :=
  ∀ segment ∈ (Segment.cut 0 text.toList).1, ∀ included, segment.content ≠ .directive included

instance (text : String) : Decidable (WithoutDirective text) :=
  decidable_of_iff ((Segment.cut 0 text.toList).1.all fun segment =>
      match segment.content with
      | .directive _ => false
      | _ => true) (by
    rw [List.all_eq_true]
    refine forall₂_congr fun segment _ => ?_
    cases segment.content <;> simp)

/-- The mark of a directive begins one. -/
theorem exists_directive (cs : List Char) :
    ∃ segment ∈ (Segment.cut 0 ('#' :: cs)).1, ∃ included,
      segment.content = .directive included := by
  have hfirst : Segment.first '#' cs = .ok (Segment.directive ('#' :: cs)) := rfl
  obtain ⟨⟨behind, hbehind⟩, -⟩ := Segment.covers_first hfirst
  rw [Segment.cut_of_ok hfirst hbehind.symm]
  exact ⟨_, List.mem_cons_self .., Segment.content_directive _⟩

/-- In the text of a row with an include directive there is a directive. -/
theorem Lexeme.exists_directive_of_read {cs : List Char} {row : List Lexeme} (h : Read cs row)
    (hplain : ¬ TokensOnly row) :
    ∃ segment ∈ (Segment.cut 0 (join row).toList).1, ∃ included,
      segment.content = .directive included := by
  induction h with
  | nil cs => exact absurd nofun hplain
  | @inclusion behind lexeme header rest cs htoken hrest =>
    obtain ⟨spelled, hspelled⟩ := exists_toList_inclusion header
    rw [join_cons, htoken, String.toList_append, hspelled]
    exact exists_directive _
  | @token c source gap behind lexeme rest hfirst htouches hrest ih =>
    have htext := Segment.toList_text_of_first hfirst
    have hrest_plain : ¬ TokensOnly rest := by
      refine fun htokens => hplain fun other hother header hheader => ?_
      rcases List.mem_cons.mp hother with rfl | hother
      · obtain ⟨spelled, hspelled⟩ := exists_toList_inclusion header
        rw [hheader, hspelled] at htext
        obtain ⟨rfl, rfl⟩ := List.cons.inj htext
        obtain ⟨included, hincluded⟩ := Segment.content_directive ('#' :: (spelled ++ (gap ++ behind)))
        have hsame : (Segment.directive ('#' :: (spelled ++ (gap ++ behind)))).content =
            .token other.token := congrArg Segment.content (Except.ok.inj hfirst)
        rw [hincluded] at hsame
        cases hsame
      · exact htokens other hother header hheader
    have hend : ∀ d ∈ ([] : List Char).head?, Segment.isStop d = true := nofun
    have hagree := agree_joinBehind htouches (fun hne => agree_join hrest hne hend) hend
    rw [List.append_nil] at hagree
    have hfirst' := Segment.first_of_agree hagree hfirst
    rw [join_cons, String.toList_append, htext, List.cons_append, Segment.cut_of_ok hfirst' rfl]
    obtain ⟨segment, hsegment, included, hcontent⟩ := ih hrest_plain
    refine ⟨segment, List.mem_cons_of_mem _ ?_, included, hcontent⟩
    cases rest with
    | nil => exact absurd nofun hrest_plain
    | cons next rest =>
      cases htouch : lexeme.touches next with
      | false =>
        have hblank : (joinBehind lexeme (next :: rest)).toList =
            ' ' :: (join (next :: rest)).toList := by
          simp [joinBehind, htouch]
        rw [hblank, cut_blank]
        exact List.mem_cons_of_mem _ hsegment
      | true =>
        simpa [joinBehind, htouch] using hsegment

/-- A row has no include directive in it if there is no directive in its text. -/
theorem Lexeme.tokensOnly_of_withoutDirective {row : List Lexeme} (h : Legible row)
    (hdirective : WithoutDirective (join row)) : TokensOnly row := by
  by_contra hplain
  obtain ⟨cs, hread⟩ := h
  obtain ⟨segment, hsegment, included, hcontent⟩ := exists_directive_of_read hread hplain
  exact hdirective segment hsegment included hcontent

/-- The size of an array is plain if there is no directive in its text. -/
theorem plainSize_of_scanned {size : String} (h : ScannedSize size)
    (hdirective : WithoutDirective size) : PlainSize size := by
  obtain ⟨row, hlegible, hbalanced, hrow, rfl⟩ := h
  exact ⟨row, hlegible, Lexeme.tokensOnly_of_withoutDirective hlegible hdirective, hbalanced, hrow,
    rfl⟩

/-- The width of a bit-field is plain if there is no directive in its text. -/
theorem plainWidth_of_scanned {width : String} (h : ScannedWidth width)
    (hdirective : WithoutDirective width) : PlainWidth width := by
  obtain ⟨row, hlegible, hexpression, hrow, rfl⟩ := h
  exact ⟨row, hlegible, Lexeme.tokensOnly_of_withoutDirective hlegible hdirective, hexpression,
    hrow, rfl⟩

end RemoteCalls
