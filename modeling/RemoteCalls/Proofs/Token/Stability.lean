import RemoteCalls.Proofs.Token.Segment

/-!
# Tokens in front of another text

The token at the front of a text is known from the characters behind it up to the first one with
which no token goes on: a space, a closing bracket, a semicolon, or the mark of a directive. Where
the text goes on differently from there, the token stays as it is.
-/

namespace RemoteCalls.Segment

/-- Whether a character stops every token that is not a literal. -/
def isStop (d : Char) : Bool := d == ' ' || d == ']' || d == ';' || d == '#'

/-- Two texts are the same up to where one of them ends or has a stop. -/
def Agree (behind other : List Char) : Prop :=
  ∃ common tail rest, behind = common ++ tail ∧ other = common ++ rest ∧
    ∀ d ∈ rest.head?, isStop d = true

theorem breaks_of_isStop {d : Char} (h : isStop d = true) : breaks d = true := by
  simp only [isStop, Bool.or_eq_true, beq_iff_eq] at h
  rcases h with ((rfl | rfl) | rfl) | rfl <;> decide

namespace Agree

variable {behind other : List Char}

/-- A text that has a stop in front agrees with all texts. -/
theorem of_stop (behind : List Char) (h : ∀ d ∈ other.head?, isStop d = true) :
    Agree behind other :=
  ⟨[], behind, other, rfl, rfl, h⟩

theorem append (h : Agree behind other) (front : List Char) :
    Agree (front ++ behind) (front ++ other) := by
  obtain ⟨common, tail, rest, rfl, rfl, hrest⟩ := h
  exact ⟨front ++ common, tail, rest, (List.append_assoc ..).symm, (List.append_assoc ..).symm,
    hrest⟩

/-- What is in front of the other text is a stop or in front of both. -/
theorem head (h : Agree behind other) {d : Char} (hd : other.head? = some d) :
    isStop d = true ∨ behind.head? = some d := by
  obtain ⟨common, tail, rest, rfl, rfl, hrest⟩ := h
  cases common with
  | nil => exact .inl (hrest d hd)
  | cons c common => exact .inr hd

/-- A mark that is no stop stands in front of the first text if it stands in front of the other. -/
theorem head_eq (h : Agree behind other) {mark : Char} (hmark : isStop mark = false)
    (hother : other.head? = some mark) : behind.head? = some mark := by
  rcases h.head hother with hstop | hhead
  · rw [hmark] at hstop
    cases hstop
  · exact hhead

end Agree

/-! ## Tokens among the segments -/

/-- A token begins in front of every text that agrees. -/
theorem BeginsToken.of_agree {c : Char} {cs other : List Char} (h : BeginsToken c cs)
    (hagree : Agree cs other) : BeginsToken c other := by
  have hstop : ∀ mark ∈ ['\n', '/', '*'], isStop mark = false := by simp [isStop]
  exact h.of_head fun _ mark hmark hhead => hagree.head_eq (hstop mark hmark) hhead

/-! ## The forms of tokens -/

variable {behind other : List Char}

theorem takeWhile_of_agree {source : List Char} (hagree : Agree behind other)
    (h : (source ++ behind).takeWhile isWordChar = source) :
    (source ++ other).takeWhile isWordChar = source := by
  induction source with
  | nil =>
    cases other with
    | nil => rfl
    | cons d other =>
      have hd : isWordChar d = false := by
        rcases hagree.head rfl with hstop | hhead
        · exact isWordChar_of_breaks (breaks_of_isStop hstop)
        · obtain ⟨rest, rfl⟩ := List.head?_eq_some_iff.mp hhead
          by_contra hword
          rw [Bool.not_eq_false] at hword
          rw [List.nil_append, List.takeWhile_cons, if_pos hword] at h
          cases h
      simp [hd]
  | cons c source ih =>
    rw [List.cons_append, List.takeWhile_cons] at h ⊢
    split at h
    · next hword =>
      rw [if_pos hword, ih (List.cons.inj h).2]
    · cases h

theorem numberTail_of_agree {last : Char} {source : List Char} (hagree : Agree behind other)
    (h : numberTail last (source ++ behind) = source) :
    numberTail last (source ++ other) = source := by
  induction source generalizing last with
  | nil =>
    cases other with
    | nil => rfl
    | cons d other =>
      have hd : continuesNumber last d = false := by
        rcases hagree.head rfl with hstop | hhead
        · exact not_continuesNumber_of_breaks (breaks_of_isStop hstop) last
        · obtain ⟨rest, rfl⟩ := List.head?_eq_some_iff.mp hhead
          by_contra hcontinues
          simp [numberTail, hcontinues] at h
      simp [numberTail, hd]
  | cons c source ih =>
    rw [List.cons_append, numberTail] at h ⊢
    split at h
    · next hcontinues =>
      rw [if_pos hcontinues, ih (List.cons.inj h).2]
    · cases h

/-- An operator at the front of the other text is at the front of the first text too. -/
theorem prefix_of_agree {op : List Char} {c : Char} (hop : op ∈ operators.map String.toList)
    (hagree : Agree behind other) (h : op <+: c :: other) : op <+: c :: behind := by
  obtain ⟨common, tail, rest, rfl, rfl, hrest⟩ := hagree
  rw [← List.cons_append] at h ⊢
  -- Otherwise the operator would contain the stop behind the common part.
  have hshort : op.length ≤ (c :: common).length := by
    by_contra hlong
    cases rest with
    | nil =>
      rw [List.append_nil] at h
      exact hlong h.length_le
    | cons d rest =>
      have hmem : d ∈ op.tail := by
        obtain ⟨more, hmore⟩ := h
        have hd : op[(c :: common).length]? = some d := by
          have hindex := congrArg (·[(c :: common).length]?) hmore
          simp only [List.getElem?_append_left (Nat.not_le.mp hlong)] at hindex
          rw [hindex, List.getElem?_append_right (Nat.le_refl _), Nat.sub_self]
          rfl
        rw [List.length_cons] at hd
        refine List.mem_of_getElem? (i := common.length) ?_
        rw [List.getElem?_tail]
        exact hd
      exact not_mem_tail_of_breaks (breaks_of_isStop (hrest d rfl)) op hop hmem
  exact (List.prefix_of_prefix_length_le h (List.prefix_append _ _) hshort).trans
    (List.prefix_append _ _)

/-- The first of some items that has a property is the first with a narrower property, if it has
it. -/
theorem find?_of_imp {α : Type} {p q : α → Bool} {items : List α}
    (hqp : ∀ item ∈ items, q item = true → p item = true) :
    (∀ item, items.find? p = some item → q item = true → items.find? q = some item) ∧
      (items.find? p = none → items.find? q = none) := by
  constructor
  · intro item hfound hq
    induction items with
    | nil => cases hfound
    | cons other items ih =>
      rw [List.find?_cons] at hfound ⊢
      cases hp : p other with
      | true =>
        rw [hp] at hfound
        cases hfound
        rw [hq]
      | false =>
        rw [hp] at hfound
        have hother : q other = false := by
          by_contra hother
          rw [hqp other (List.mem_cons_self ..) (by simpa using hother)] at hp
          cases hp
        rw [hother]
        exact ih (fun item hitem => hqp item (List.mem_cons_of_mem _ hitem)) hfound
  · intro hnone
    rw [List.find?_eq_none] at hnone ⊢
    exact fun item hitem hq => hnone item hitem (hqp item hitem hq)

theorem operatorText_of_agree {c : Char} {source : List Char} (hagree : Agree behind other)
    (h : operatorText c (source ++ behind) = c :: source) :
    operatorText c (source ++ other) = c :: source := by
  have himp : ∀ op ∈ operators.map String.toList,
      op.isPrefixOf (c :: (source ++ other)) = true →
        op.isPrefixOf (c :: (source ++ behind)) = true := by
    intro op hop hprefix
    rw [List.isPrefixOf_iff_prefix] at hprefix ⊢
    exact prefix_of_agree hop (hagree.append source) hprefix
  obtain ⟨hsome, hnone⟩ := find?_of_imp himp
  unfold operatorText at h ⊢
  cases hfound : (operators.map String.toList).find? (·.isPrefixOf (c :: (source ++ behind))) with
  | none =>
    rw [hfound] at h
    rw [hnone hfound]
    exact h
  | some op =>
    rw [hfound] at h
    obtain rfl : op = c :: source := h
    rw [hsome _ hfound (List.isPrefixOf_iff_prefix.mpr ⟨other, rfl⟩)]
    rfl

/-- A number at the front of the other text is at the front of the first text too. -/
theorem startsNumber_of_agree {c : Char} (hagree : Agree behind other)
    (h : startsNumber c other = true) : startsNumber c behind = true := by
  rw [startsNumber, Bool.or_eq_true, Bool.and_eq_true, Option.any_eq_true] at h ⊢
  refine h.imp id (And.imp id ?_)
  rintro ⟨d, hd, hdigit⟩
  refine ⟨d, (hagree.head hd).resolve_left fun hstop => ?_, hdigit⟩
  rw [not_isDigit_of_breaks (breaks_of_isStop hstop)] at hdigit
  cases hdigit

/-- Whether a number begins at the front of a text is told by the characters that it takes. -/
theorem startsNumber_of_numberTail {c : Char} {source : List Char}
    (h : startsNumber c (source ++ behind) = true)
    (htail : numberTail c (source ++ behind) = source) (other : List Char) :
    startsNumber c (source ++ other) = true := by
  cases source with
  | cons d source => exact h
  | nil =>
    -- A point alone is no number, so that the character is a digit.
    cases hdigit : c.isDigit with
    | true => simp [startsNumber, hdigit]
    | false =>
      exfalso
      rw [startsNumber, hdigit, Bool.false_or, Bool.and_eq_true, Option.any_eq_true] at h
      obtain ⟨-, d, hd, hdigit⟩ := h
      obtain ⟨rest, hrest⟩ := List.head?_eq_some_iff.mp hd
      have hcontinues : continuesNumber c d = true := by
        simp [continuesNumber, isWordChar, Char.isAlphanum, hdigit]
      rw [hrest, numberTail, if_pos hcontinues] at htail
      cases htail

theorem FrontToken.of_agree {c : Char} {source : List Char} {t : Token}
    (hagree : Agree behind other) (h : FrontToken c (source ++ behind) (c :: source) t) :
    FrontToken c (source ++ other) (c :: source) t := by
  generalize hwhole : c :: source = whole at h ⊢
  cases h with
  | literal hquotes htail =>
    obtain rfl := (List.cons.inj hwhole).2
    exact .literal hquotes (quotedTail_of_front htail other)
  | number hstart =>
    have hsource := (List.cons.inj hwhole).2.symm
    have hnumber := FrontToken.number (startsNumber_of_numberTail hstart hsource other)
    rw [numberTail_of_agree hagree hsource] at hnumber
    rwa [hsource]
  | word hstart =>
    have hsource := (List.cons.inj hwhole).2.symm
    have hword := @FrontToken.word c (source ++ other) hstart
    rw [takeWhile_of_agree hagree hsource] at hword
    rwa [hsource]
  | mark hmark => exact .mark hmark
  | operator hquotes hnumber hword hmark =>
    have hnumber' : startsNumber c (source ++ other) = false := by
      by_contra hother
      rw [Bool.not_eq_false] at hother
      rw [startsNumber_of_agree (hagree.append source) hother] at hnumber
      cases hnumber
    have hoperator := FrontToken.operator hquotes hnumber' hword hmark
    rw [operatorText_of_agree hagree hwhole.symm] at hoperator
    rwa [← hwhole]

/-- The token in front of a text is the token in front of every text that agrees behind it. -/
theorem first_of_agree {c : Char} {source : List Char} {t : Token} (hagree : Agree behind other)
    (h : first c (source ++ behind) = .ok ⟨c :: source, .token t⟩) :
    first c (source ++ other) = .ok ⟨c :: source, .token t⟩ := by
  obtain ⟨hbegins, hfront⟩ := beginsToken_of_first h
  have hbegins' := hbegins.of_agree (hagree.append source)
  exact (FrontSegment.token hbegins' (hfront.of_agree hagree)).first_eq

end RemoteCalls.Segment
