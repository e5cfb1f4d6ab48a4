import RemoteCalls.Proofs.Token.Layout

/-!
# Comments as blanks

A block comment among the segments of a text is as good as a space: with a space in its place the
text has the same tokens. A directive reads its own line and knows no block comments, so that a
comment in it counts as a part of what the directive says.
-/

namespace RemoteCalls

namespace Segment

/-! ## Segments in front of another text -/

/-- A directive with what it disables goes on to the end of a line. -/
theorem Stretch.endsLine {source behind : List Char} {included : Option Inclusion}
    (h : Stretch ⟨source, .directive included⟩ behind) : EndsLine behind := by
  cases h with
  | directive hline _ _ => exact hline.ends
  | disabling _ _ hregion =>
    rcases hregion with rfl | ⟨_, _, -, hrow, -⟩
    · simp [EndsLine]
    · exact hrow.ends

/-- A directive begins with its mark. -/
theorem Stretch.begins {source behind : List Char} {included : Option Inclusion}
    (h : Stretch ⟨source, .directive included⟩ behind) : source.head? = some '#' := by
  cases h with
  | directive hline _ _ => exact hline.begins
  | disabling hline _ _ =>
    rw [List.head?_append, hline.begins]
    rfl

/-- A line ends at its line break, whatever stands in the next one. -/
theorem takeWhile_of_front {source rest : List Char}
    (h : (source ++ '\n' :: rest).takeWhile (· ≠ '\n') = source) (other : List Char) :
    (source ++ '\n' :: other).takeWhile (· ≠ '\n') = source := by
  have hall : ∀ d ∈ source, decide (d ≠ '\n') = true := by
    intro d hd
    rw [← h] at hd
    exact decide_eq_true (ne_newline_of_mem_line hd)
  rw [List.takeWhile_append_of_pos hall]
  simp

/-- A directive that ends at a line break ends there whatever stands in the next line. -/
theorem directive_of_front {c : Char} {source rest : List Char} {content : Content}
    (h : directive (c :: (source ++ '\n' :: rest)) = ⟨c :: source, content⟩) (other : List Char) :
    directive (c :: (source ++ '\n' :: other)) = ⟨c :: source, content⟩ := by
  have hsplit : ∀ more : List Char,
      c :: (source ++ '\n' :: more) = (c :: source ++ ['\n']) ++ more := by simp
  rw [hsplit] at h ⊢
  have hlength : (directive (c :: source ++ ['\n'] ++ rest)).source.length <
      (c :: source ++ ['\n']).length := by
    rw [h]
    simp
  rw [directive_congr hlength other, h]

/-- The first segment of a text is that of every text that agrees behind it, provided that both go
on with a line break if one of them does. -/
theorem first_of_front {c : Char} {source behind other : List Char} {content : Content}
    (hagree : Agree behind other) (hbehind : behind ≠ [])
    (hnewline : behind.head? = some '\n' → other.head? = some '\n')
    (h : first c (source ++ behind) = .ok ⟨c :: source, content⟩) :
    first c (source ++ other) = .ok ⟨c :: source, content⟩ := by
  have hends : EndsLine behind → ∃ rest rest', behind = '\n' :: rest ∧ other = '\n' :: rest' := by
    intro hends
    obtain ⟨d, rest, rfl⟩ := List.exists_cons_of_ne_nil hbehind
    obtain rfl := hends d rfl
    obtain ⟨rest', rfl⟩ := List.head?_eq_some_iff.mp (hnewline rfl)
    exact ⟨rest, rest', rfl, rfl⟩
  have hfirst := h
  generalize hsegment : (⟨c :: source, content⟩ : Segment) = segment at h ⊢
  refine FrontSegment.first_eq ?_
  cases frontSegment_of_first h with
  | newline hc => exact .newline hc
  | blank hspace => exact .blank hspace
  | joinedLine hc hhead =>
    cases hsegment
    exact .joinedLine hc rfl
  | lineComment hc hslash =>
    -- A line comment ends where the line does.
    have hsource : (source ++ behind).takeWhile (· ≠ '\n') = source :=
      (List.cons.inj (Segment.mk.inj hsegment).1).2.symm
    obtain ⟨rest, rest', rfl, rfl⟩ := hends (endsLine_of_eq (by rw [hsource]))
    have hslash' : (source ++ '\n' :: rest').head? = some '/' := by
      cases source with
      | nil => cases hslash
      | cons d source => exact hslash
    have hcomment := FrontSegment.lineComment hc hslash'
    rw [takeWhile_of_front hsource rest'] at hcomment
    rwa [hsource]
  | @blockComment body hc hstar hbody =>
    obtain rfl : source = '*' :: (body ++ ['*', '/']) :=
      (List.cons.inj (Segment.mk.inj hsegment).1).2
    obtain ⟨-, -, hclosed⟩ := exists_of_commentBody hbody
    refine .blockComment hc rfl ?_
    simpa using hclosed other
  | directive hc hdirective =>
    cases hsegment
    obtain ⟨rest, rest', rfl, rfl⟩ := hends (stretch_first hfirst rfl).endsLine
    exact .directive hc (directive_of_front hdirective rest')
  | token hbegins hfront =>
    cases hsegment
    exact .token (hbegins.of_agree (hagree.append source)) (hfront.of_agree hagree)

/-- The first segment among those of a text is the first one of the text. -/
theorem exists_first_of_cut {cs : List Char} {segment : Segment} {rest : List Segment}
    {unclosed : Option Unclosed} (h : cut 0 cs = (segment :: rest, unclosed)) :
    ∃ c source behind, segment.source = c :: source ∧ cs = c :: (source ++ behind) ∧
      first c (source ++ behind) = .ok segment ∧ cut 0 behind = (rest, unclosed) := by
  cases cs with
  | nil => cases h
  | cons c cs =>
    cases hfirst : first c cs with
    | error fault =>
      rw [cut_of_error hfirst] at h
      cases h
    | ok found =>
      obtain ⟨⟨behind, htext⟩, hnonempty⟩ := covers_first hfirst
      rw [cut_of_ok hfirst htext.symm] at h
      obtain ⟨hsegments, hunclosed⟩ := Prod.mk.inj h
      obtain ⟨rfl, hrest⟩ := List.cons.inj hsegments
      obtain ⟨d, source, hsource⟩ := List.exists_cons_of_ne_nil hnonempty
      rw [hsource, List.cons_append] at htext
      obtain ⟨rfl, rfl⟩ := List.cons.inj htext
      exact ⟨d, source, behind, hsource, rfl, hfirst, Prod.ext hrest hunclosed⟩

/-- Segments at the front of a text are those of every text that agrees behind them. -/
theorem cut_of_front {before rest : List Segment} {behind other : List Char}
    {unclosed : Option Unclosed} (hagree : Agree behind other) (hbehind : behind ≠ [])
    (hnewline : behind.head? = some '\n' → other.head? = some '\n')
    (h : cut 0 (before.flatMap source ++ behind) = (before ++ rest, unclosed)) :
    cut 0 behind = (rest, unclosed) ∧
      cut 0 (before.flatMap source ++ other) =
        (before ++ (cut 0 other).1, (cut 0 other).2) := by
  induction before with
  | nil => exact ⟨h, rfl⟩
  | cons segment before ih =>
    obtain ⟨c, chars, behind', hsource, htext, hfirst, hrest⟩ := exists_first_of_cut h
    have hbehind' : behind' = before.flatMap source ++ behind := by
      rw [List.flatMap_cons, hsource] at htext
      simpa using htext.symm
    subst hbehind'
    obtain ⟨hcut, hsame⟩ := ih hrest
    have hsegment : segment = ⟨c :: chars, segment.content⟩ := by rw [← hsource]
    have hnext : first c (chars ++ (before.flatMap source ++ other)) = .ok segment := by
      rw [hsegment] at hfirst ⊢
      refine first_of_front (hagree.append _) (by simp [hbehind]) ?_ hfirst
      cases before.flatMap source with
      | nil => exact hnewline
      | cons d front => exact id
    refine ⟨hcut, ?_⟩
    have htext' : c :: (chars ++ (before.flatMap source ++ other)) =
        segment.source ++ (before.flatMap source ++ other) := by rw [hsource]; rfl
    rw [List.flatMap_cons, List.append_assoc, ← htext', cut_of_ok hnext htext', hsame]
    rfl

/-- One segment in the place of another one, between the same others. -/
theorem cut_replace {before after : List Segment} (segment other : Segment) {behind : List Char}
    (h : cut 0 (before.flatMap source ++ (segment.source ++ behind)) =
      (before ++ segment :: after, none))
    (hsegment : ∃ d rest, segment.source = d :: rest ∧ d ≠ '\n')
    (hother : ∃ d rest, other.source = d :: rest ∧ isStop d = true ∧
      first d (rest ++ behind) = .ok other) :
    cut 0 (before.flatMap source ++ (other.source ++ behind)) =
      (before ++ other :: after, none) := by
  obtain ⟨d, rest, hsource, hd, hfirst⟩ := hother
  obtain ⟨e, rest', hsource', he⟩ := hsegment
  have hagree : Agree (segment.source ++ behind) (other.source ++ behind) := by
    refine Agree.of_stop _ fun stop hstop => ?_
    rw [hsource] at hstop
    obtain rfl : d = stop := Option.some.inj hstop
    exact hd
  have hhead : (segment.source ++ behind).head? = some '\n' →
      (other.source ++ behind).head? = some '\n' := by
    intro hnewline
    rw [hsource'] at hnewline
    exact absurd (Option.some.inj hnewline) he
  obtain ⟨hcut, hfront⟩ := cut_of_front hagree (by simp [hsource']) hhead h
  obtain ⟨c, chars, behind', hchars, htext, -, hbehind⟩ := exists_first_of_cut hcut
  have hrest : behind' = behind := by
    rw [hchars] at htext
    simpa using htext.symm
  have hnext : cut 0 (other.source ++ behind) = (other :: after, none) := by
    have htext' : d :: (rest ++ behind) = other.source ++ behind := by rw [hsource]; rfl
    rw [← htext', cut_of_ok hfirst htext', ← hrest, hbehind]
  rw [hfront, hnext]

end Segment

namespace Lexed

/-- The tokens of a row of segments are those of its segments, one behind the other. -/
theorem tokens_ofSegments (position : Position) (newlines : Nat) (pending : List Trivia)
    (segments : List Segment) :
    Lexeme.tokens (ofSegments position newlines pending segments).lexemes =
      segments.filterMap (·.content.token?) := by
  induction segments generalizing position newlines pending with
  | nil => rfl
  | cons segment rest ih =>
    obtain ⟨chars, content⟩ := segment
    cases content with
    | token t => exact congrArg (t :: ·) (ih _ _ _)
    | directive included =>
      cases included with
      | none => exact ih _ _ _
      | some header => exact congrArg (.inclusion header :: ·) (ih _ _ _)
    | _ => exact ih _ _ _

end Lexed

/-- A text with a block comment in it: what stands in front of the comment, the body of the comment,
and what stands behind it. -/
structure Commented where
  front : String
  body : String
  behind : String

namespace Commented

open Segment (source cut)

/-- The comment between its marks. -/
def comment (c : Commented) : String := "/*" ++ c.body ++ "*/"

/-- The text as it is. -/
def text (c : Commented) : String := c.front ++ c.comment ++ c.behind

/-- The text with a space in place of the comment. -/
def blanked (c : Commented) : String := c.front ++ " " ++ c.behind

/-- The comment is a segment of the text: it begins outside of literals and comments, outside of the
lines of directives, and outside of what they disable. -/
def Stands (c : Commented) : Prop :=
  ∃ before after,
    cut 0 c.text.toList = (before ++ ⟨c.comment.toList, .comment c.body⟩ :: after, none) ∧
      before.flatMap source = c.front.toList

/-- The comment is in a directive, which with a space in place of the comment ends where it does
with the comment, together with what it disables. `included` is the header that the directive names,
and `named` the one that it names without the comment. -/
def InDirective (c : Commented) (included named : Option Inclusion) : Prop :=
  ∃ before head tail behind after,
    cut 0 c.text.toList =
        (before ++ ⟨head ++ c.comment.toList ++ tail, .directive included⟩ :: after, none) ∧
      before.flatMap source ++ head = c.front.toList ∧ tail ++ behind = c.behind.toList ∧
      Segment.directive (head ++ ' ' :: (tail ++ behind)) =
        ⟨head ++ ' ' :: tail, .directive named⟩

variable {c : Commented}

theorem toList_comment (c : Commented) :
    c.comment.toList = '/' :: '*' :: (c.body.toList ++ ['*', '/']) := by
  simp [comment]

/-- The tokens of a text that is cut to its end. -/
theorem ofText_of_cut {text : String} {segments : List Segment}
    (h : cut 0 text.toList = (segments, none)) :
    ∃ lexed, Lexed.ofText text = .ok lexed ∧
      lexed.tokens = segments.filterMap (·.content.token?) ++ [.endOfFile] := by
  refine ⟨Lexed.ofSegments .start 0 [] segments, ?_, ?_⟩
  · simp [Lexed.ofText, Lexed.ofChars, h]
  · rw [Lexed.tokens, Lexed.tokens_ofSegments]

/-- Two texts that differ in one segment have the same tokens just if it has the same token. -/
theorem ofText_of_replaced {text other : String} {before after : List Segment}
    {segment replaced : Segment} (htext : cut 0 text.toList = (before ++ segment :: after, none))
    (hother : cut 0 other.toList = (before ++ replaced :: after, none)) :
    ∃ lexed lexed', Lexed.ofText text = .ok lexed ∧ Lexed.ofText other = .ok lexed' ∧
      (lexed'.tokens = lexed.tokens ↔ replaced.content.token? = segment.content.token?) := by
  obtain ⟨lexed, hlexed, htokens⟩ := ofText_of_cut htext
  obtain ⟨lexed', hlexed', htokens'⟩ := ofText_of_cut hother
  refine ⟨lexed, lexed', hlexed, hlexed', ?_⟩
  rw [htokens, htokens']
  simp only [List.filterMap_append, List.filterMap_cons, List.append_assoc,
    List.append_cancel_left_eq]
  cases replaced.content.token? <;> cases segment.content.token? <;> simp

/-- A comment that stands by itself can be cut like a space. -/
theorem Stands.exists_cut (h : c.Stands) : ∃ before after,
    cut 0 c.text.toList = (before ++ ⟨c.comment.toList, .comment c.body⟩ :: after, none) ∧
      cut 0 c.blanked.toList = (before ++ ⟨[' '], .blank⟩ :: after, none) := by
  obtain ⟨before, after, hcut, hfront⟩ := h
  refine ⟨before, after, hcut, ?_⟩
  have htext : c.text.toList = before.flatMap source ++ (c.comment.toList ++ c.behind.toList) := by
    simp [text, hfront]
  have hblanked : c.blanked.toList = before.flatMap source ++ ([' '] ++ c.behind.toList) := by
    simp [blanked, hfront]
  rw [htext] at hcut
  rw [hblanked]
  have hcomment : ∃ d rest, c.comment.toList = d :: rest ∧ d ≠ '\n' :=
    ⟨'/', _, c.toList_comment, by decide⟩
  exact Segment.cut_replace ⟨c.comment.toList, .comment c.body⟩ ⟨[' '], .blank⟩ hcut hcomment
    ⟨' ', [], rfl, rfl, rfl⟩

/-- A comment in the line of a directive can be cut like a space if the directive ends where it
does. -/
theorem InDirective.exists_cut {included named : Option Inclusion}
    (h : c.InDirective included named) : ∃ before source blanked after,
      cut 0 c.text.toList = (before ++ ⟨source, .directive included⟩ :: after, none) ∧
        cut 0 c.blanked.toList = (before ++ ⟨blanked, .directive named⟩ :: after, none) := by
  obtain ⟨before, head, tail, behind, after, hcut, hfront, hbehind, hdirective⟩ := h
  have htext : c.text.toList =
      before.flatMap source ++ (head ++ c.comment.toList ++ tail ++ behind) := by
    simp [text, ← hfront, ← hbehind]
  have hblanked : c.blanked.toList =
      before.flatMap source ++ (head ++ ' ' :: tail ++ behind) := by
    simp [blanked, ← hfront, ← hbehind]
  refine ⟨before, _, head ++ ' ' :: tail, after, hcut, ?_⟩
  -- A directive begins with its mark, which is in front of the comment.
  have hhead : ∃ rest, head = '#' :: rest := by
    have htiles := Segment.tiles_cut (congrArg Prod.snd hcut)
    rw [hcut] at htiles
    obtain ⟨_, hstretch⟩ :=
      htiles.exists_stretch (List.mem_append_right before List.mem_cons_self)
    have hbegins := hstretch.begins
    rw [c.toList_comment] at hbegins
    cases head with
    | nil => cases hbegins
    | cons d rest => exact ⟨rest, congrArg (· :: rest) (Option.some.inj hbegins)⟩
  obtain ⟨rest, rfl⟩ := hhead
  rw [htext] at hcut
  rw [hblanked]
  have hfirst : Segment.first '#' (rest ++ ' ' :: tail ++ behind) =
      .ok ⟨'#' :: rest ++ ' ' :: tail, .directive named⟩ := by
    rw [List.append_assoc]
    exact congrArg Except.ok hdirective
  exact Segment.cut_replace ⟨'#' :: rest ++ c.comment.toList ++ tail, .directive included⟩
    ⟨'#' :: rest ++ ' ' :: tail, .directive named⟩ hcut ⟨'#', _, rfl, by decide⟩
    ⟨'#', _, rfl, rfl, hfirst⟩

/-- A block comment that stands by itself is as good as a space: the tokens are the same. In a
directive that ends where it would without the comment, it is so just if the directive names the
same header with the comment and without it, or none. -/
theorem ofText_blanked (c : Commented) :
    (c.Stands → ∃ lexed lexed', Lexed.ofText c.text = .ok lexed ∧
      Lexed.ofText c.blanked = .ok lexed' ∧ lexed'.tokens = lexed.tokens) ∧
    ∀ included named, c.InDirective included named → ∃ lexed lexed',
      Lexed.ofText c.text = .ok lexed ∧ Lexed.ofText c.blanked = .ok lexed' ∧
        (lexed'.tokens = lexed.tokens ↔ named = included) := by
  constructor
  · intro h
    obtain ⟨before, after, htext, hblanked⟩ := h.exists_cut
    obtain ⟨lexed, lexed', hlexed, hlexed', htokens⟩ := ofText_of_replaced htext hblanked
    exact ⟨lexed, lexed', hlexed, hlexed', htokens.mpr rfl⟩
  · intro included named h
    obtain ⟨before, source, blanked, after, htext, hblanked⟩ := h.exists_cut
    obtain ⟨lexed, lexed', hlexed, hlexed', htokens⟩ := ofText_of_replaced htext hblanked
    refine ⟨lexed, lexed', hlexed, hlexed', htokens.trans ?_⟩
    cases included <;> cases named <;> simp [Content.token?]

/-- A comment that keeps two words apart, and one in front of the header of an include directive,
which the directive takes for the header. -/
theorem ofText_blanked_of_header :
    let words : Commented := ⟨"int", " c ", "a;\n"⟩
    let header : Commented := ⟨"#include ", " c ", "\"a.h\"\nint b;\n"⟩
    (∃ lexed lexed', Lexed.ofText words.text = .ok lexed ∧
      Lexed.ofText words.blanked = .ok lexed' ∧ lexed'.tokens = lexed.tokens) ∧
    ∃ lexed lexed', Lexed.ofText header.text = .ok lexed ∧
      Lexed.ofText header.blanked = .ok lexed' ∧ lexed'.tokens ≠ lexed.tokens := by
  intro words header
  have hwords : words.Stands := by
    refine ⟨[⟨"int".toList, .token (.builtin "int")⟩],
      [⟨['a'], .token (.identifier "a")⟩, ⟨[';'], .token .semicolon⟩, ⟨['\n'], .newline⟩], ?_, ?_⟩
    · decide +kernel
    · decide +kernel
  have hheader : header.InDirective none (some ⟨"a.h", false⟩) := by
    refine ⟨[], "#include ".toList, "\"a.h\"".toList, "\nint b;\n".toList,
      [⟨['\n'], .newline⟩, ⟨"int".toList, .token (.builtin "int")⟩, ⟨[' '], .blank⟩,
        ⟨['b'], .token (.identifier "b")⟩, ⟨[';'], .token .semicolon⟩, ⟨['\n'], .newline⟩],
      ?_, ?_, ?_, ?_⟩
    · decide +kernel
    · decide +kernel
    · decide +kernel
    · decide +kernel
  obtain ⟨lexed, lexed', hlexed, hlexed', htokens⟩ := (ofText_blanked header).2 _ _ hheader
  refine ⟨(ofText_blanked words).1 hwords, lexed, lexed', hlexed, hlexed', ?_⟩
  rw [Ne, htokens]
  decide

/-- A comment that begins in the line of a directive and goes on in the next line, the end of which
is read as tokens. -/
theorem not_ofText_blanked_of_two_lines :
    let c : Commented := ⟨"#define A ", " x\ny ", "\nint a;\n"⟩
    (Lexed.ofText c.text).toOption.map Lexed.tokens =
        some [.identifier "y", .star, .operator "/", .builtin "int", .identifier "a", .semicolon,
          .endOfFile] ∧
      (Lexed.ofText c.blanked).toOption.map Lexed.tokens =
        some [.builtin "int", .identifier "a", .semicolon, .endOfFile] := by
  decide +kernel

end Commented

end RemoteCalls
