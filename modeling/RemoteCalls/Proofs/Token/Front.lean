import Mathlib.Data.List.Find
import RemoteCalls.Token.Segment

/-!
# The segment at the front of a text

Which segment is at the front of a text is told by its first character, and behind a slash or a
backslash by the next one too. `FrontSegment` and `FrontToken` list what there can be, so that what
holds of all segments is shown case by case. A segment is a piece of its text, and never an empty
one.
-/

namespace RemoteCalls.Segment

/-! ## Pieces of the text -/

theorem numberTail_piece (last : Char) (cs : List Char) : numberTail last cs <+: cs := by
  induction cs generalizing last with
  | nil => exact List.nil_prefix
  | cons c cs ih =>
    unfold numberTail
    split
    · exact List.cons_prefix_cons.mpr ⟨rfl, ih c⟩
    · exact List.nil_prefix

/-- A literal is the part of its text up to its quote, whatever stands behind the quote. -/
theorem exists_of_quotedTail {quote : Char} {escaped : Bool} {cs tail : List Char}
    (h : quotedTail quote escaped cs = some tail) :
    ∃ behind, cs = tail ++ behind ∧
      ∀ other, quotedTail quote escaped (tail ++ other) = some tail := by
  induction cs generalizing escaped tail with
  | nil => cases escaped <;> cases h
  | cons c cs ih =>
    cases escaped with
    | true =>
      obtain ⟨inner, hinner, rfl⟩ := Option.map_eq_some_iff.mp h
      obtain ⟨behind, rfl, hclosed⟩ := ih hinner
      refine ⟨behind, rfl, fun other => ?_⟩
      rw [List.cons_append, quotedTail, hclosed, Option.map_some]
    | false =>
      rw [quotedTail] at h
      split at h
      · cases h
      next hnewline =>
      split at h
      · next hquote =>
        cases h
        refine ⟨cs, rfl, fun other => ?_⟩
        rw [List.cons_append, quotedTail, if_neg hnewline, if_pos hquote]
      · next hquote =>
        obtain ⟨inner, hinner, rfl⟩ := Option.map_eq_some_iff.mp h
        obtain ⟨behind, rfl, hclosed⟩ := ih hinner
        refine ⟨behind, rfl, fun other => ?_⟩
        rw [List.cons_append, quotedTail, if_neg hnewline, if_neg hquote, hclosed, Option.map_some]

theorem quotedTail_piece {quote : Char} {escaped : Bool} {cs tail : List Char}
    (h : quotedTail quote escaped cs = some tail) : tail <+: cs := by
  obtain ⟨behind, rfl, -⟩ := exists_of_quotedTail h
  exact List.prefix_append _ _

theorem quotedTail_of_front {quote : Char} {escaped : Bool} {source behind : List Char}
    (h : quotedTail quote escaped (source ++ behind) = some source) (other : List Char) :
    quotedTail quote escaped (source ++ other) = some source := by
  obtain ⟨-, -, hclosed⟩ := exists_of_quotedTail h
  exact hclosed other

/-- A comment is the part of its text up to its closing mark, whatever stands behind the mark. -/
theorem exists_of_commentBody {cs body : List Char} (h : commentBody cs = some body) :
    ∃ behind, cs = body ++ '*' :: '/' :: behind ∧
      ∀ other, commentBody (body ++ '*' :: '/' :: other) = some body := by
  induction cs generalizing body with
  | nil => cases h
  | cons c cs ih =>
    rw [commentBody] at h
    split at h
    · next hclosed =>
      cases h
      obtain ⟨rfl, hslash⟩ := hclosed
      obtain ⟨behind, rfl⟩ := List.head?_eq_some_iff.mp hslash
      exact ⟨behind, rfl, fun other => if_pos ⟨rfl, rfl⟩⟩
    · next hopen =>
      obtain ⟨inner, hinner, rfl⟩ := Option.map_eq_some_iff.mp h
      obtain ⟨behind, rfl, hclosed⟩ := ih hinner
      refine ⟨behind, rfl, fun other => ?_⟩
      have hhead : (inner ++ '*' :: '/' :: other).head? =
          (inner ++ '*' :: '/' :: behind).head? := by cases inner <;> rfl
      rw [List.cons_append, commentBody, hhead, if_neg hopen, hclosed, Option.map_some]

theorem commentBody_piece {cs body : List Char} (h : commentBody cs = some body) :
    body ++ ['*', '/'] <+: cs := by
  obtain ⟨behind, rfl, -⟩ := exists_of_commentBody h
  exact ⟨behind, by simp⟩

theorem commentBody_of_front {body behind : List Char}
    (h : commentBody (body ++ '*' :: '/' :: behind) = some body) (other : List Char) :
    commentBody (body ++ '*' :: '/' :: other) = some body := by
  obtain ⟨-, -, hclosed⟩ := exists_of_commentBody h
  exact hclosed other

theorem operatorText_piece (c : Char) (cs : List Char) :
    operatorText c cs <+: c :: cs ∧ operatorText c cs ≠ [] := by
  unfold operatorText
  cases hfound : (operators.map String.toList).find? (·.isPrefixOf (c :: cs)) with
  | none => exact ⟨List.cons_prefix_cons.mpr ⟨rfl, List.nil_prefix⟩, List.cons_ne_nil _ _⟩
  | some op =>
    have hnonempty : ∀ op ∈ operators.map String.toList, op ≠ [] := by decide
    have hmatches := List.find?_some hfound
    exact ⟨List.isPrefixOf_iff_prefix.mp hmatches, hnonempty op (List.mem_of_find?_eq_some hfound)⟩

/-- A stretch of the text, which is nothing where the text is not at its end. -/
structure Covers (source text : List Char) : Prop where
  piece : source <+: text
  nonempty : source ≠ []

theorem covers_cons {c : Char} {source cs : List Char} (h : source <+: cs) :
    Covers (c :: source) (c :: cs) :=
  ⟨List.cons_prefix_cons.mpr ⟨rfl, h⟩, List.cons_ne_nil _ _⟩

theorem covers_directive (cs : List Char) : Covers (directive ('#' :: cs)).source ('#' :: cs) := by
  have hpositive : 0 < (directiveLine false ('#' :: cs)).length := by
    simp [directiveLine]
  have htake : ∀ n, 0 < n → Covers (('#' :: cs).take n) ('#' :: cs) := by
    intro n hn
    refine ⟨List.take_prefix _ _, ?_⟩
    obtain ⟨m, rfl⟩ := Nat.exists_eq_succ_of_ne_zero (Nat.ne_of_gt hn)
    exact List.cons_ne_nil _ _
  simp only [directive]
  split
  · exact htake _ (by omega)
  · exact htake _ hpositive

/-! ## The token at the front of a text -/

/-- Whether a number begins with a character: a digit, or a point in front of one. -/
def startsNumber (c : Char) (cs : List Char) : Bool :=
  c.isDigit || (c == '.' && cs.head?.any Char.isDigit)

/-- A quote and the literals that it opens. -/
inductive Quotes : Char → (String → Token) → Prop
  | string : Quotes '"' .string
  | character : Quotes '\'' .character

/-- A character that begins a word is no digit. -/
theorem isDigit_of_isWordStart {c : Char} (hc : isWordStart c = true) : c.isDigit = false := by
  by_contra hdigit
  rw [Bool.not_eq_false] at hdigit
  change (decide (c.val ≥ 'A'.val ∧ c.val ≤ 'Z'.val) || (c.val ≥ 'a'.val && c.val ≤ 'z'.val) ||
    c == '_') = true at hc
  simp only [Bool.or_eq_true, Bool.and_eq_true, decide_eq_true_eq, beq_iff_eq, ge_iff_le,
    UInt32.le_iff_toNat_le] at hc
  simp only [Char.isDigit, Bool.and_eq_true, decide_eq_true_eq, ge_iff_le,
    UInt32.le_iff_toNat_le] at hdigit
  rcases hc with (hc | hc) | rfl
  · simp at hc hdigit
    omega
  · simp at hc hdigit
    omega
  · simp at hdigit

theorem ne_of_isWordStart {c d : Char} (hc : isWordStart c = true) (hd : isWordStart d = false) :
    c ≠ d := by
  rintro rfl
  rw [hc] at hd
  cases hd

/-- The token at the front of `c :: cs`, behind its source. -/
inductive FrontToken (c : Char) (cs : List Char) : List Char → Token → Prop
  | literal {kind : String → Token} {tail : List Char} (hquotes : Quotes c kind)
      (htail : quotedTail c false cs = some tail) :
      FrontToken c cs (c :: tail) (kind (String.ofList (c :: tail)))
  | number (hstart : startsNumber c cs = true) :
      FrontToken c cs (c :: numberTail c cs) (.number (String.ofList (c :: numberTail c cs)))
  | word (hstart : isWordStart c = true) :
      FrontToken c cs (c :: cs.takeWhile isWordChar)
        (.ofWord (String.ofList (c :: cs.takeWhile isWordChar)))
  | mark {mark : Token} (hmark : Token.ofMark? c = some mark) : FrontToken c cs [c] mark
  | operator (hquotes : ∀ kind, ¬Quotes c kind) (hnumber : startsNumber c cs = false)
      (hword : isWordStart c = false) (hmark : Token.ofMark? c = none) :
      FrontToken c cs (operatorText c cs) (.ofOperator (String.ofList (operatorText c cs)))

/-- What is nothing else is a token. -/
theorem exists_frontToken {c : Char} {cs : List Char} {segment : Segment}
    (h : firstToken c cs = .ok segment) :
    ∃ source t, segment = ⟨source, .token t⟩ ∧ FrontToken c cs source t := by
  have hliteral : ∀ {kind unclosed}, Quotes c kind → quoted c kind unclosed cs = .ok segment →
      ∃ source t, segment = ⟨source, .token t⟩ ∧ FrontToken c cs source t := by
    intro kind unclosed hquotes hquoted
    unfold quoted at hquoted
    split at hquoted
    · next tail htail =>
      cases hquoted
      exact ⟨_, _, rfl, .literal hquotes htail⟩
    · cases hquoted
  unfold firstToken at h
  split at h
  · next hc =>
    subst hc
    exact hliteral .string h
  next hstring =>
  split at h
  · next hc =>
    subst hc
    exact hliteral .character h
  next hcharacter =>
  have hquotes : ∀ kind, ¬Quotes c kind := by
    rintro kind (_ | _)
    · exact hstring rfl
    · exact hcharacter rfl
  split at h
  · next hnumber =>
    cases h
    exact ⟨_, _, rfl, .number hnumber⟩
  next hnumber =>
  split at h
  · next hword =>
    cases h
    exact ⟨_, _, rfl, .word hword⟩
  next hword =>
  split at h
  · next mark hmark =>
    cases h
    exact ⟨_, _, rfl, .mark hmark⟩
  · next hmark =>
    cases h
    rw [Bool.not_eq_true] at hnumber hword
    exact ⟨_, _, rfl, .operator hquotes hnumber hword hmark⟩

namespace FrontToken

variable {c : Char} {cs source : List Char} {t : Token}

/-- The tokens begin with different characters. -/
theorem firstToken_eq (h : FrontToken c cs source t) :
    firstToken c cs = .ok ⟨source, .token t⟩ := by
  cases h with
  | literal hquotes htail => cases hquotes <;> simp [firstToken, quoted, htail]
  | number hstart =>
    have hstring : c ≠ '"' := by
      rintro rfl
      cases hstart
    have hcharacter : c ≠ '\'' := by
      rintro rfl
      cases hstart
    rw [firstToken, if_neg hstring, if_neg hcharacter]
    exact if_pos hstart
  | word hstart =>
    have hnumber : ¬startsNumber c cs = true := by
      simp [startsNumber, isDigit_of_isWordStart hstart,
        ne_of_isWordStart hstart (d := '.') (by decide)]
    rw [firstToken, if_neg (ne_of_isWordStart hstart (by decide)),
      if_neg (ne_of_isWordStart hstart (by decide))]
    exact (if_neg hnumber).trans (if_pos hstart)
  | mark hmark =>
    unfold Token.ofMark? at hmark
    split at hmark <;> cases hmark <;> rfl
  | operator hquotes hnumber hword hmark =>
    have hstring : c ≠ '"' := by
      rintro rfl
      exact hquotes _ .string
    have hcharacter : c ≠ '\'' := by
      rintro rfl
      exact hquotes _ .character
    rw [← Bool.not_eq_true] at hnumber hword
    rw [firstToken, if_neg hstring, if_neg hcharacter]
    refine (if_neg hnumber).trans ((if_neg hword).trans ?_)
    rw [hmark]

theorem covers (h : FrontToken c cs source t) : Covers source (c :: cs) := by
  cases h with
  | literal hquotes htail => exact covers_cons (quotedTail_piece htail)
  | number hstart => exact covers_cons (numberTail_piece c cs)
  | word hstart => exact covers_cons (List.takeWhile_prefix _)
  | mark hmark => exact covers_cons List.nil_prefix
  | operator => exact ⟨(operatorText_piece c cs).1, (operatorText_piece c cs).2⟩

end FrontToken

/-! ## The segment at the front of a text -/

theorem content_directive (cs : List Char) :
    ∃ included, (directive cs).content = .directive included := by
  unfold directive
  dsimp only
  split
  · exact ⟨_, rfl⟩
  · exact ⟨_, rfl⟩

/-- The front of a text is neither blank nor the begin of a comment or a directive. -/
structure BeginsToken (c : Char) (cs : List Char) : Prop where
  newline : c ≠ '\n'
  space : isSpace c = false
  joined : ¬ (c = '\\' ∧ cs.head? = some '\n')
  lineComment : ¬ (c = '/' ∧ cs.head? = some '/')
  comment : ¬ (c = '/' ∧ cs.head? = some '*')
  directive : c ≠ '#'

/-- What tells a token from other segments behind its first character are the characters behind a
slash or a backslash. -/
theorem BeginsToken.of_head {c : Char} {cs other : List Char} (h : BeginsToken c cs)
    (hhead : c = '/' ∨ c = '\\' → ∀ mark ∈ ['\n', '/', '*'],
      other.head? = some mark → cs.head? = some mark) : BeginsToken c other := by
  refine ⟨h.newline, h.space, ?_, ?_, ?_, h.directive⟩
  · rintro ⟨hc, hother⟩
    exact h.joined ⟨hc, hhead (.inr hc) _ (by decide) hother⟩
  · rintro ⟨hc, hother⟩
    exact h.lineComment ⟨hc, hhead (.inl hc) _ (by decide) hother⟩
  · rintro ⟨hc, hother⟩
    exact h.comment ⟨hc, hhead (.inl hc) _ (by decide) hother⟩

/-- The segment at the front of `c :: cs`. -/
inductive FrontSegment (c : Char) (cs : List Char) : Segment → Prop
  | newline (hc : c = '\n') : FrontSegment c cs ⟨[c], .newline⟩
  | blank (hspace : isSpace c = true) : FrontSegment c cs ⟨[c], .blank⟩
  | joinedLine (hc : c = '\\') (hhead : cs.head? = some '\n') :
      FrontSegment c cs ⟨[c, '\n'], .joinedLine⟩
  | lineComment (hc : c = '/') (hhead : cs.head? = some '/') :
      FrontSegment c cs ⟨c :: cs.takeWhile (· ≠ '\n'),
        .comment (String.ofList ((cs.takeWhile (· ≠ '\n')).drop 1))⟩
  | blockComment {body : List Char} (hc : c = '/') (hhead : cs.head? = some '*')
      (hbody : commentBody cs.tail = some body) :
      FrontSegment c cs ⟨c :: '*' :: (body ++ ['*', '/']), .comment (String.ofList body)⟩
  | directive {source : List Char} {included : Option Inclusion} (hc : c = '#')
      (hdirective : directive (c :: cs) = ⟨source, .directive included⟩) :
      FrontSegment c cs ⟨source, .directive included⟩
  | token {source : List Char} {t : Token} (hbegins : BeginsToken c cs)
      (hfront : FrontToken c cs source t) : FrontSegment c cs ⟨source, .token t⟩

theorem frontSegment_of_first {c : Char} {cs : List Char} {segment : Segment}
    (h : first c cs = .ok segment) : FrontSegment c cs segment := by
  unfold first at h
  split at h
  · next hnewline =>
    cases h
    exact .newline hnewline
  next hnewline =>
  split at h
  · next hspace =>
    cases h
    exact .blank hspace
  next hspace =>
  split at h
  · next hjoined =>
    cases h
    exact .joinedLine hjoined.1 hjoined.2
  next hjoined =>
  split at h
  · next hline =>
    cases h
    exact .lineComment hline.1 hline.2
  next hline =>
  split at h
  · next hcomment =>
    obtain ⟨rfl, hstar⟩ := hcomment
    split at h
    · next body hbody =>
      cases h
      exact .blockComment rfl hstar hbody
    · cases h
  next hcomment =>
  split at h
  · next hhash =>
    obtain ⟨included, hincluded⟩ := content_directive (c :: cs)
    cases h
    have hdirective : directive (c :: cs) = ⟨(directive (c :: cs)).source, .directive included⟩ := by
      rw [← hincluded]
    rw [hdirective]
    exact .directive hhash hdirective
  · next hhash =>
    obtain ⟨source, t, rfl, hfront⟩ := exists_frontToken h
    exact .token ⟨hnewline, by simpa using hspace, hjoined, hline, hcomment, hhash⟩ hfront

/-- The segments begin with different characters, or with different ones behind a slash. -/
theorem FrontSegment.first_eq {c : Char} {cs : List Char} {segment : Segment}
    (h : FrontSegment c cs segment) : first c cs = .ok segment := by
  cases h with
  | newline hc => exact if_pos hc
  | blank hspace =>
    have hc : c ≠ '\n' := by
      rintro rfl
      cases hspace
    rw [first, if_neg hc, if_pos hspace]
  | joinedLine hc hhead =>
    subst hc
    obtain ⟨rest, rfl⟩ := List.head?_eq_some_iff.mp hhead
    rfl
  | lineComment hc hhead =>
    subst hc
    obtain ⟨rest, rfl⟩ := List.head?_eq_some_iff.mp hhead
    rfl
  | blockComment hc hhead hbody =>
    subst hc
    obtain ⟨rest, rfl⟩ := List.head?_eq_some_iff.mp hhead
    rw [List.tail_cons] at hbody
    simp [first, isSpace, hbody]
  | directive hc hdirective =>
    subst hc
    rw [← hdirective]
    rfl
  | token hbegins hfront =>
    rw [first, if_neg hbegins.newline, if_neg (by simp [hbegins.space]), if_neg hbegins.joined,
      if_neg hbegins.lineComment, if_neg hbegins.comment, if_neg hbegins.directive]
    exact hfront.firstToken_eq

/-- The first segment is a token only where a token begins. -/
theorem beginsToken_of_first {c : Char} {cs source : List Char} {t : Token}
    (h : first c cs = .ok ⟨source, .token t⟩) :
    BeginsToken c cs ∧ FrontToken c cs source t := by
  cases frontSegment_of_first h with
  | token hbegins hfront => exact ⟨hbegins, hfront⟩

/-- The first segment of a text is a stretch of it. -/
theorem covers_first {c : Char} {cs : List Char} {segment : Segment}
    (h : first c cs = .ok segment) : Covers segment.source (c :: cs) := by
  cases frontSegment_of_first h with
  | newline hc => exact covers_cons List.nil_prefix
  | blank hspace => exact covers_cons List.nil_prefix
  | joinedLine hc hhead =>
    obtain ⟨rest, rfl⟩ := List.head?_eq_some_iff.mp hhead
    exact covers_cons (List.cons_prefix_cons.mpr ⟨rfl, List.nil_prefix⟩)
  | lineComment hc hhead => exact covers_cons (List.takeWhile_prefix _)
  | blockComment hc hhead hbody =>
    obtain ⟨rest, rfl⟩ := List.head?_eq_some_iff.mp hhead
    exact covers_cons (List.cons_prefix_cons.mpr ⟨rfl, commentBody_piece hbody⟩)
  | directive hc hdirective =>
    subst hc
    have hcovers := covers_directive cs
    rwa [hdirective] at hcovers
  | token hbegins hfront => exact hfront.covers

end RemoteCalls.Segment
