import RemoteCalls.Proofs.Token.Front

/-!
# Segments in front of more text

A text that is put behind another one changes nothing about the segment at the front, provided that
it begins with a character with which no word, number or operator goes on, and that the segment is
not one of those that only the end of the text has ended.
-/

namespace RemoteCalls.Segment

/-! ## Text behind a segment -/

/-- Whether no word, number or operator goes on with a character. -/
def breaks (d : Char) : Bool :=
  !isWordChar d && operators.all fun op => !op.toList.tail.contains d

/-- Whether something else than the end of the text has ended a segment. At the end of the text a
directive and a line comment may go on, and so may a slash and a backslash. -/
def isClosed (segment : Segment) : Bool :=
  match segment.content with
  | .directive _ => false
  | .comment _ => segment.source.tail.head? == some '*'
  | .token _ => segment.source != ['/'] && segment.source != ['\\']
  | _ => true

variable {d : Char} (more : List Char)

/-- A character that begins a word can stand inside of one. -/
theorem isWordChar_of_isWordStart {c : Char} (h : isWordStart c = true) : isWordChar c = true := by
  simp only [isWordStart, isWordChar, Char.isAlphanum, Bool.or_eq_true] at h ⊢
  exact h.imp_left .inl

theorem isWordChar_of_breaks (hd : breaks d = true) : isWordChar d = false := by
  simp only [breaks, Bool.and_eq_true, Bool.not_eq_true'] at hd
  exact hd.1

theorem not_mem_tail_of_breaks (hd : breaks d = true) :
    ∀ op ∈ operators.map String.toList, d ∉ op.tail := by
  intro op hop
  obtain ⟨text, htext, rfl⟩ := List.mem_map.mp hop
  simp only [breaks, Bool.and_eq_true, List.all_eq_true, Bool.not_eq_true',
    List.contains_eq_mem, decide_eq_false_iff_not] at hd
  exact hd.2 text htext

theorem ne_of_breaks {other : Char} (hother : breaks other = false) (hd : breaks d = true) :
    d ≠ other := by
  rintro rfl
  rw [hother] at hd
  cases hd

theorem not_isDigit_of_breaks (hd : breaks d = true) : d.isDigit = false := by
  have hword := isWordChar_of_breaks hd
  simp only [isWordChar, Char.isAlphanum, Bool.or_eq_false_iff] at hword
  exact hword.1.2

theorem not_continuesNumber_of_breaks (hd : breaks d = true) (last : Char) :
    continuesNumber last d = false := by
  have hdot : d ≠ '.' := ne_of_breaks (by decide) hd
  have hplus : d ≠ '+' := ne_of_breaks (by decide) hd
  have hminus : d ≠ '-' := ne_of_breaks (by decide) hd
  simp [continuesNumber, isWordChar_of_breaks hd, hdot, hplus, hminus]

theorem numberTail_append (hd : breaks d = true) (last : Char) (cs : List Char) :
    numberTail last (cs ++ d :: more) = numberTail last cs := by
  induction cs generalizing last with
  | nil => simp [numberTail, not_continuesNumber_of_breaks hd last]
  | cons c cs ih =>
    simp only [List.cons_append, numberTail, ih c]

/-- Where the kept part stops there may be anything behind. -/
theorem takeWhile_append_cons {p : Char → Bool} {cs : List Char}
    (h : p d = false ∨ (cs.takeWhile p).length < cs.length) :
    (cs ++ d :: more).takeWhile p = cs.takeWhile p := by
  rw [List.takeWhile_append]
  by_cases hwhole : (cs.takeWhile p).length = cs.length
  · rw [if_pos hwhole]
    have hstop : p d = false := by
      rcases h with hstop | hless
      · exact hstop
      · omega
    have hall : cs.takeWhile p = cs := (List.takeWhile_prefix p).eq_of_length hwhole
    simp [hstop, hall]
  · rw [if_neg hwhole]

/-- An operator with which the text does not go on is at the front of both or of neither. -/
theorem isPrefixOf_append_cons {op cs : List Char} (hop : d ∉ op) :
    op.isPrefixOf (cs ++ d :: more) = op.isPrefixOf cs := by
  induction op generalizing cs with
  | nil => simp
  | cons o op ih =>
    simp only [List.mem_cons, not_or] at hop
    cases cs with
    | nil => simp [List.isPrefixOf, Ne.symm hop.1]
    | cons c cs => simp [List.isPrefixOf, ih hop.2]

theorem operatorText_append (hd : breaks d = true) (c : Char) (cs : List Char) :
    operatorText c (cs ++ d :: more) = operatorText c cs := by
  have hmatches : ∀ op ∈ operators.map String.toList,
      op.isPrefixOf (c :: (cs ++ d :: more)) = op.isPrefixOf (c :: cs) := by
    intro op hop
    have htail := not_mem_tail_of_breaks hd op hop
    cases op with
    | nil => rfl
    | cons o op =>
      rw [List.tail_cons] at htail
      show (o == c && op.isPrefixOf (cs ++ d :: more)) = (o == c && op.isPrefixOf cs)
      rw [isPrefixOf_append_cons more htail]
  unfold operatorText
  rw [List.find?_congr hmatches]

theorem length_directiveLine_le (joining : Bool) (cs : List Char) :
    (directiveLine joining cs).length ≤ cs.length := by
  induction cs generalizing joining with
  | nil => simp [directiveLine]
  | cons c cs ih =>
    cases joining with
    | true => simpa [directiveLine] using ih false
    | false =>
      simp only [directiveLine]
      split
      · exact Nat.zero_le _
      split
      · have htake := (List.takeWhile_prefix (l := cs) (· ≠ '\n')).length_le
        simp only [List.length_cons]
        omega
      · simpa using ih _

/-- Where the kept part stops within a text, what comes behind the text does not matter. -/
theorem takeWhile_congr {p : Char → Bool} {cs behind : List Char}
    (h : ((cs ++ behind).takeWhile p).length < cs.length) (other : List Char) :
    (cs ++ other).takeWhile p = (cs ++ behind).takeWhile p := by
  have hstops : (cs.takeWhile p).length ≠ cs.length := by
    intro hwhole
    rw [List.takeWhile_append, if_pos hwhole, List.length_append] at h
    omega
  rw [List.takeWhile_append, List.takeWhile_append, if_neg hstops, if_neg hstops]

/-- A directive that ends within a text ends there whatever comes behind the text. -/
theorem directiveLine_congr {joining : Bool} {cs behind : List Char}
    (h : (directiveLine joining (cs ++ behind)).length < cs.length) (other : List Char) :
    directiveLine joining (cs ++ other) = directiveLine joining (cs ++ behind) := by
  induction cs generalizing joining with
  | nil => exact absurd h (Nat.not_lt_zero _)
  | cons c cs ih =>
    cases joining with
    | true =>
      simp only [List.cons_append, directiveLine, List.length_cons] at h ⊢
      rw [ih (by omega)]
    | false =>
      simp only [List.cons_append, directiveLine] at h ⊢
      by_cases hnewline : c = '\n'
      · simp [hnewline]
      rw [if_neg hnewline] at h
      rw [if_neg hnewline, if_neg hnewline]
      cases cs with
      | nil =>
        split at h <;> simp at h
      | cons e rest =>
        have hhead : ∀ more : List Char, (e :: rest ++ more).head? = some e := fun _ => rfl
        rw [hhead] at h
        rw [hhead, hhead]
        by_cases hcomment : c = '/' ∧ some e = some '/'
        · rw [if_pos hcomment] at h
          rw [if_pos hcomment, if_pos hcomment, takeWhile_congr _ other]
          simp only [List.length_cons] at h ⊢
          omega
        · rw [if_neg hcomment] at h
          rw [if_neg hcomment, if_neg hcomment, ih (Nat.lt_of_succ_lt_succ h)]

/-- A disabled region has at least what still belongs to a directive in it. -/
theorem le_disabledLength (indent : Bool) {skip : Nat} (depth : Nat) {cs : List Char}
    (h : skip ≤ cs.length) : skip ≤ disabledLength indent skip depth cs := by
  induction cs generalizing skip with
  | nil => exact h
  | cons c cs ih =>
    cases skip with
    | zero => exact Nat.zero_le _
    | succ skip =>
      have hskip := ih (Nat.le_of_succ_le_succ h)
      rw [disabledLength]
      omega

/-- A disabled region that ends within a text ends there whatever comes behind the text. -/
theorem disabledLength_congr {indent : Bool} {skip depth : Nat} {cs behind : List Char}
    (h : disabledLength indent skip depth (cs ++ behind) < cs.length) (other : List Char) :
    disabledLength indent skip depth (cs ++ other) =
      disabledLength indent skip depth (cs ++ behind) := by
  induction cs generalizing indent skip depth with
  | nil => exact absurd h (Nat.not_lt_zero _)
  | cons c cs ih =>
    have hstep : ∀ {indent skip depth},
        1 + disabledLength indent skip depth (cs ++ behind) < (c :: cs).length →
        1 + disabledLength indent skip depth (cs ++ other) =
          1 + disabledLength indent skip depth (cs ++ behind) := by
      intro indent skip depth hless
      rw [List.length_cons] at hless
      rw [ih (by omega)]
    cases skip with
    | succ skip => exact hstep h
    | zero =>
      simp only [List.cons_append, disabledLength] at h ⊢
      by_cases hnewline : c = '\n'
      · rw [if_pos hnewline] at h
        rw [if_pos hnewline, if_pos hnewline]
        exact hstep h
      rw [if_neg hnewline] at h
      rw [if_neg hnewline, if_neg hnewline]
      by_cases hindent : (indent && (c == ' ' || c == '\t')) = true
      · rw [if_pos hindent] at h
        rw [if_pos hindent, if_pos hindent]
        exact hstep h
      rw [if_neg hindent] at h
      rw [if_neg hindent, if_neg hindent]
      by_cases hdirective : (indent && c == '#') = true
      · rw [if_pos hdirective] at h
        rw [if_pos hdirective, if_pos hdirective]
        -- A directive that ends behind the text leaves the region no end in it.
        have hline : (directiveLine false (c :: cs ++ behind)).length < (c :: cs).length := by
          by_contra hlong
          have hle := length_directiveLine_le false (c :: cs ++ behind)
          rw [List.cons_append] at hlong hle
          split at h
          · exact hlong h
          · next inner _ =>
            have hline : (directiveLine false (c :: (cs ++ behind))).length - 1 ≤
                (cs ++ behind).length := by
              rw [List.length_cons] at hle
              omega
            have hskip := le_disabledLength false inner hline
            simp only [List.length_cons] at h hlong
            omega
        have hsame := directiveLine_congr hline other
        rw [List.cons_append, List.cons_append] at hsame
        rw [hsame]
        split
        · rfl
        · next hinner =>
          rw [hinner] at h
          exact hstep h
      · rw [if_neg hdirective] at h
        rw [if_neg hdirective, if_neg hdirective]
        exact hstep h

/-- So it is with a directive and what it disables. -/
theorem directive_congr {cs behind : List Char}
    (h : (directive (cs ++ behind)).source.length < cs.length) (other : List Char) :
    directive (cs ++ other) = directive (cs ++ behind) := by
  have htake : ∀ {n}, ((cs ++ behind).take n).length < cs.length →
      n < cs.length ∧ (cs ++ other).take n = (cs ++ behind).take n := by
    intro n hless
    rw [List.length_take, List.length_append] at hless
    have hn : n < cs.length := by omega
    exact ⟨hn, by rw [List.take_append_of_le_length (Nat.le_of_lt hn),
      List.take_append_of_le_length (Nat.le_of_lt hn)]⟩
  simp only [directive] at h ⊢
  by_cases hdisables : disables (directiveLine false (cs ++ behind)).text = true
  · rw [if_pos hdisables] at h
    obtain ⟨hless, hsource⟩ := htake h
    have hline : (directiveLine false (cs ++ behind)).length < cs.length := by omega
    have hdrop : ∀ more, (cs ++ more).drop (directiveLine false (cs ++ behind)).length =
        cs.drop (directiveLine false (cs ++ behind)).length ++ more := fun more =>
      List.drop_append_of_le_length (Nat.le_of_lt hline)
    have hregion : disabledLength false 0 0
        (cs.drop (directiveLine false (cs ++ behind)).length ++ behind) <
          (cs.drop (directiveLine false (cs ++ behind)).length).length := by
      rw [← hdrop, List.length_drop]
      omega
    rw [directiveLine_congr hline other, if_pos hdisables, if_pos hdisables, hdrop other,
      disabledLength_congr hregion other, ← hdrop behind, hsource]
  · rw [if_neg hdisables] at h
    obtain ⟨hline, hsource⟩ := htake h
    rw [directiveLine_congr hline other, if_neg hdisables, if_neg hdisables, hsource]

/-- A directive that ends before the text does is the same in front of more text. -/
theorem directive_append {cs : List Char} (h : (directive cs).source.length < cs.length) :
    directive (cs ++ more) = directive cs := by
  have hnil : (directive (cs ++ [])).source.length < cs.length := by
    rw [List.append_nil]
    exact h
  rw [directive_congr hnil more, List.append_nil]

theorem startsNumber_append (hd : breaks d = true) (c : Char) (cs : List Char) :
    startsNumber c (cs ++ d :: more) = startsNumber c cs := by
  cases cs with
  | nil => simp [startsNumber, not_isDigit_of_breaks hd]
  | cons e rest => rfl

theorem takeWhile_word_append (hd : breaks d = true) (cs : List Char) :
    (cs ++ d :: more).takeWhile isWordChar = cs.takeWhile isWordChar :=
  takeWhile_append_cons more (.inl (isWordChar_of_breaks hd))

namespace FrontToken

variable {c : Char} {cs source : List Char} {t : Token}

theorem append (hd : breaks d = true) (h : FrontToken c cs source t) :
    FrontToken c (cs ++ d :: more) source t := by
  cases h with
  | literal hquotes htail =>
    obtain ⟨behind, rfl, hclosed⟩ := exists_of_quotedTail htail
    rw [List.append_assoc]
    exact .literal hquotes (hclosed _)
  | number hstart =>
    rw [← numberTail_append more hd]
    exact .number ((startsNumber_append more hd c cs).trans hstart)
  | word hstart =>
    rw [← takeWhile_word_append more hd]
    exact .word hstart
  | mark hmark => exact .mark hmark
  | operator hquotes hnumber hword hmark =>
    rw [← operatorText_append more hd]
    exact .operator hquotes ((startsNumber_append more hd c cs).trans hnumber) hword hmark

/-- A token that is not longer than the text in front of a character that breaks it is at the front
of this text; and only a literal can be longer. -/
theorem of_append (hd : breaks d = true) (h : FrontToken c (cs ++ d :: more) source t)
    (hlength : (∀ kind, ¬Quotes c kind) ∨ source.length ≤ (c :: cs).length) :
    FrontToken c cs source t := by
  cases h with
  | @literal kind tail hquotes htail =>
    have hshort : tail.length ≤ cs.length := by
      rcases hlength with hnone | hlength
      · exact absurd hquotes (hnone kind)
      · simpa using hlength
    obtain ⟨rest, rfl⟩ : tail <+: cs :=
      List.prefix_of_prefix_length_le (quotedTail_piece htail) (List.prefix_append _ _) hshort
    rw [List.append_assoc] at htail
    exact .literal hquotes (quotedTail_of_front htail rest)
  | number hstart =>
    rw [numberTail_append more hd]
    exact .number ((startsNumber_append more hd c cs).symm.trans hstart)
  | word hstart =>
    rw [takeWhile_word_append more hd]
    exact .word hstart
  | mark hmark => exact .mark hmark
  | operator hquotes hnumber hword hmark =>
    rw [operatorText_append more hd]
    exact .operator hquotes ((startsNumber_append more hd c cs).symm.trans hnumber) hword hmark

end FrontToken

/-- A slash or a backslash with nothing behind it is not closed. -/
theorem ne_nil_of_isClosed {c : Char} (hc : c = '/' ∨ c = '\\') {cs : List Char}
    {segment : Segment} (h : first c cs = .ok segment)
    (hclosed : segment.isClosed = true ∨ segment.source.length < (c :: cs).length) : cs ≠ [] := by
  have hopen : ∀ segment, first c [] = .ok segment → segment.source = [c] ∧
      segment.isClosed = false := by
    intro segment h
    rcases hc with rfl | rfl
    · cases h
      exact ⟨by decide, by decide⟩
    · cases h
      exact ⟨by decide, by decide⟩
  rintro rfl
  obtain ⟨hsource, hunclosed⟩ := hopen segment h
  rcases hclosed with hclosed | hless
  · rw [hunclosed] at hclosed
    cases hclosed
  · rw [hsource] at hless
    exact absurd hless (Nat.lt_irrefl _)

/-- What comes behind the text leaves its first segment as it is. -/
theorem first_append (hd : breaks d = true) {c : Char} {cs : List Char} {segment : Segment}
    (h : first c cs = .ok segment)
    (hclosed : segment.isClosed = true ∨ segment.source.length < (c :: cs).length) :
    first c (cs ++ d :: more) = .ok segment := by
  refine FrontSegment.first_eq ?_
  cases frontSegment_of_first h with
  | newline hc => exact .newline hc
  | blank hspace => exact .blank hspace
  | joinedLine hc hhead =>
    obtain ⟨rest, rfl⟩ := List.head?_eq_some_iff.mp hhead
    exact .joinedLine hc rfl
  | lineComment hc hhead =>
    -- A line comment is not closed, so that there is a line break behind it.
    obtain ⟨rest, rfl⟩ := List.head?_eq_some_iff.mp hhead
    have hless : (('/' :: rest).takeWhile (· ≠ '\n')).length < ('/' :: rest).length := by
      rcases hclosed with hclosed | hless
      · simp [isClosed] at hclosed
      · exact Nat.lt_of_succ_lt_succ hless
    rw [← takeWhile_append_cons more (.inr hless)]
    exact .lineComment hc rfl
  | blockComment hc hhead hbody =>
    obtain ⟨rest, rfl⟩ := List.head?_eq_some_iff.mp hhead
    obtain ⟨behind, rfl, hsame⟩ := exists_of_commentBody hbody
    refine .blockComment hc rfl ?_
    simpa using hsame (behind ++ d :: more)
  | @directive source included hc hdirective =>
    have hless : (directive (c :: cs)).source.length < (c :: cs).length := by
      rw [hdirective]
      rcases hclosed with hclosed | hless
      · cases hclosed
      · exact hless
    exact .directive hc ((directive_append (d :: more) hless).trans hdirective)
  | token hbegins hfront =>
    refine .token (hbegins.of_head fun hc mark _ hmark => ?_) (hfront.append more hd)
    obtain ⟨e, rest, rfl⟩ := List.exists_cons_of_ne_nil (ne_nil_of_isClosed hc h hclosed)
    exact hmark

/-- A construct that is left open begins with a quote or with the mark of a comment. -/
theorem breaks_of_first_eq_error {c : Char} {cs : List Char} {unclosed : Unclosed}
    (h : first c cs = .error unclosed) : breaks c = true := by
  unfold first at h
  split at h
  · cases h
  split at h
  · cases h
  split at h
  · cases h
  split at h
  · cases h
  split at h
  · next hcomment =>
    rw [hcomment.1]
    decide
  split at h
  · cases h
  unfold firstToken at h
  split at h
  · next hquote =>
    rw [hquote]
    decide
  split at h
  · next hquote =>
    rw [hquote]
    decide
  split at h
  · cases h
  split at h
  · cases h
  split at h
  · cases h
  · cases h

end RemoteCalls.Segment
