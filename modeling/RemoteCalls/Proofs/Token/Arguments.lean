import RemoteCalls.Outline.Notes
import RemoteCalls.Proofs.Token.Nesting
import RemoteCalls.Proofs.Token.Layout

/-!
# Texts between the parentheses of a note

The end of the arguments of a note is looked for among the characters of a comment, and among the
tokens outside of comments. Where groups are properly nested both come to the same end: quotes and
parentheses are only found in literals and in the tokens that they are.
-/

namespace RemoteCalls

namespace Token

/-- The delimiter that closes what a token opens. -/
def closer? : Token → Option Token
  | .openParen => some .closeParen
  | .openBracket => some .closeBracket
  | .openBrace => some .closeBrace
  | _ => none

/-- Properly nested groups: each is closed by the delimiter of its own kind. -/
inductive Nested : List Token → Prop
  | nil : Nested []
  | plain {t : Token} {ts : List Token} (hopener : t.isOpener = false)
      (hcloser : t.isCloser = false) (hrest : Nested ts) : Nested (t :: ts)
  | group {opener closer : Token} {inner ts : List Token} (hcloses : opener.closer? = some closer)
      (hinner : Nested inner) (hrest : Nested ts) : Nested (opener :: (inner ++ closer :: ts))

theorem isOpener_of_closer? {opener closer : Token} (h : opener.closer? = some closer) :
    opener.isOpener = true ∧ closer.isCloser = true := by
  unfold closer? at h
  split at h <;> cases h <;> exact ⟨rfl, rfl⟩

theorem Nested.balanced {ts : List Token} (h : Nested ts) : Balanced ts := by
  induction h with
  | nil => exact .nil
  | plain hopener hcloser _ ih => exact ih.cons hopener hcloser
  | @group opener closer inner ts hcloses _ _ hinner hrest =>
    obtain ⟨hopener, hcloser⟩ := isOpener_of_closer? hcloses
    have hgroup := (hinner.group hopener hcloser).append hrest
    simpa using hgroup

end Token

namespace Lexeme

/-- Only parentheses count. -/
theorem parensMatch_of_other {lexeme : Lexeme} (hopen : lexeme.token ≠ .openParen)
    (hclose : lexeme.token ≠ .closeParen) (depth : Nat) (rest : List Lexeme) :
    parensMatch depth (lexeme :: rest) = parensMatch depth rest := by
  conv_lhs => unfold parensMatch
  split
  · next h => exact absurd h hopen
  · next h => exact absurd h hclose
  · next h => exact absurd h hclose
  · rfl

/-- Properly nested groups leave as many parentheses open as there are in front of them. -/
theorem parensMatch_of_nested {row : List Lexeme} (h : Token.Nested (tokens row)) (depth : Nat)
    (behind : List Lexeme) : parensMatch depth (row ++ behind) = parensMatch depth behind := by
  generalize hts : tokens row = ts at h
  induction h generalizing depth row behind with
  | nil =>
    obtain rfl : row = [] := List.map_eq_nil_iff.mp hts
    rfl
  | @plain t ts hopener hcloser _ ih =>
    obtain ⟨lexeme, rest, rfl, rfl, hrest⟩ := List.map_eq_cons_iff.mp hts
    rw [List.cons_append, parensMatch_of_other ?_ ?_, ih depth behind hrest]
    · intro h
      rw [h] at hopener
      cases hopener
    · intro h
      rw [h] at hcloser
      cases hcloser
  | @group opener closer inner ts hcloses _ _ hinner hrest =>
    obtain ⟨first, rest, rfl, rfl, hrest'⟩ := List.map_eq_cons_iff.mp hts
    obtain ⟨inside, tail, rfl, hinside, htail⟩ := List.map_eq_append_iff.mp hrest'
    obtain ⟨last, later, rfl, rfl, hlater⟩ := List.map_eq_cons_iff.mp htail
    have hrow : first :: (inside ++ last :: later) ++ behind =
        first :: (inside ++ (last :: (later ++ behind))) := by simp
    rw [hrow]
    cases hfirst : first.token with
    | openParen =>
      have hlast : last.token = .closeParen := by
        rw [hfirst] at hcloses
        exact (Option.some.inj hcloses).symm
      simp only [parensMatch, hfirst, hinner (depth + 1) _ hinside, hlast]
      exact hrest depth behind hlater
    | openBracket =>
      have hlast : last.token = .closeBracket := by
        rw [hfirst] at hcloses
        exact (Option.some.inj hcloses).symm
      simp only [parensMatch, hfirst, hinner depth _ hinside, hlast]
      exact hrest depth behind hlater
    | openBrace =>
      have hlast : last.token = .closeBrace := by
        rw [hfirst] at hcloses
        exact (Option.some.inj hcloses).symm
      simp only [parensMatch, hfirst, hinner depth _ hinside, hlast]
      exact hrest depth behind hlater
    | _ =>
      rw [hfirst] at hcloses
      cases hcloses

end Lexeme

namespace Segment

/-- The characters that matter where the end of some arguments is looked for. -/
def isQuoteOrParen (c : Char) : Bool :=
  c == '(' || c == ')' || c == '"' || c == '\''

/-- What a token is made of: a literal, a parenthesis, or characters without quotes and
parentheses. -/
inductive Form : List Char → Token → Prop
  | literal {quote : Char} {tail : List Char} {t : Token} (hquote : quote = '"' ∨ quote = '\'')
      (htail : ∀ more, quotedTail quote false (tail ++ more) = some tail) : Form (quote :: tail) t
  | openParen : Form ['('] .openParen
  | closeParen : Form [')'] .closeParen
  | other {source : List Char} {t : Token} (hsource : source.any isQuoteOrParen = false) :
      Form source t

/-- No quote and no parenthesis goes on with a number. -/
theorem not_quoteOrParen_of_continues {last d : Char} (h : continuesNumber last d = true) :
    isQuoteOrParen d = false := by
  by_contra hmark
  simp only [isQuoteOrParen, Bool.not_eq_false, Bool.or_eq_true, beq_iff_eq] at hmark
  rcases hmark with ((rfl | rfl) | rfl) | rfl <;> cases h

theorem not_quoteOrParen_of_wordChar {d : Char} (h : isWordChar d = true) :
    isQuoteOrParen d = false := by
  have hcontinues : continuesNumber d d = true := by
    rw [continuesNumber, h]
    rfl
  exact not_quoteOrParen_of_continues hcontinues

theorem any_numberTail (last : Char) (cs : List Char) :
    (numberTail last cs).any isQuoteOrParen = false := by
  induction cs generalizing last with
  | nil => rfl
  | cons c cs ih =>
    unfold numberTail
    split
    · next hcontinues =>
      rw [List.any_cons, not_quoteOrParen_of_continues hcontinues, ih]
      rfl
    · rfl

theorem any_takeWhile_word (cs : List Char) :
    (cs.takeWhile isWordChar).any isQuoteOrParen = false := by
  induction cs with
  | nil => rfl
  | cons c cs ih =>
    rw [List.takeWhile_cons]
    split
    · next hword =>
      rw [List.any_cons, not_quoteOrParen_of_wordChar hword, ih]
      rfl
    · rfl

theorem any_operatorText {c : Char} (hc : isQuoteOrParen c = false) (cs : List Char) :
    (operatorText c cs).any isQuoteOrParen = false := by
  unfold operatorText
  cases hfound : (operators.map String.toList).find? (·.isPrefixOf (c :: cs)) with
  | none => simp [hc]
  | some op =>
    have hall : ∀ op ∈ operators.map String.toList, op.any isQuoteOrParen = false := by decide
    exact hall op (List.mem_of_find?_eq_some hfound)

/-- Each token has one of the forms. -/
theorem form_of_first {c : Char} {cs source : List Char} {t : Token}
    (h : first c cs = .ok ⟨source, .token t⟩) : Form source t := by
  cases (beginsToken_of_first h).2 with
  | literal hquotes htail =>
    obtain ⟨behind, rfl, hclosed⟩ := exists_of_quotedTail htail
    cases hquotes with
    | string => exact .literal (.inl rfl) hclosed
    | character => exact .literal (.inr rfl) hclosed
  | number hstart =>
    have hc : continuesNumber c c = true := by
      rw [startsNumber, Bool.or_eq_true, Bool.and_eq_true, beq_iff_eq] at hstart
      rcases hstart with hdigit | ⟨rfl, -⟩
      · simp [continuesNumber, isWordChar, Char.isAlphanum, hdigit]
      · rfl
    refine .other ?_
    rw [List.any_cons, not_quoteOrParen_of_continues hc, any_numberTail]
    rfl
  | word hstart =>
    refine .other ?_
    rw [List.any_cons, not_quoteOrParen_of_wordChar (isWordChar_of_isWordStart hstart),
      any_takeWhile_word]
    rfl
  | mark hmark =>
    unfold Token.ofMark? at hmark
    split at hmark <;> cases hmark <;> first | exact .openParen | exact .closeParen | exact .other rfl
  | operator hquotes hnumber hword hmark =>
    have hc : isQuoteOrParen c = false := by
      by_contra hparen
      simp only [isQuoteOrParen, Bool.not_eq_false, Bool.or_eq_true, beq_iff_eq] at hparen
      rcases hparen with ((rfl | rfl) | rfl) | rfl
      · cases hmark
      · cases hmark
      · exact hquotes _ .string
      · exact hquotes _ .character
    exact .other (any_operatorText hc cs)

end Segment

namespace Note

open Segment (isQuoteOrParen quotedTail)

variable {more : List Char}

theorem closedText_none (depth : Nat) (escaped : Bool) (cs : List Char) :
    closedText depth none escaped cs = closedText depth none false cs := by
  cases cs <;> rfl

/-- A literal ends with its quote. -/
theorem quotedTail_ne_nil {quote : Char} {escaped : Bool} {cs : List Char} :
    quotedTail quote escaped cs ≠ some [] := by
  intro h
  cases cs with
  | nil => cases escaped <;> cases h
  | cons c cs =>
    cases escaped with
    | true =>
      obtain ⟨tail, -, htail⟩ := Option.map_eq_some_iff.mp h
      cases htail
    | false =>
      unfold quotedTail at h
      split at h
      · cases h
      split at h
      · cases h
      · obtain ⟨tail, -, htail⟩ := Option.map_eq_some_iff.mp h
        cases htail

/-- The search goes over a literal. -/
theorem closedText_of_quotedTail {quote : Char} {escaped : Bool} {tail : List Char}
    (h : quotedTail quote escaped (tail ++ more) = some tail) (depth : Nat) :
    closedText depth (some quote) escaped (tail ++ more) =
      (closedText depth none false more).map (tail ++ ·) := by
  induction tail generalizing escaped with
  | nil => exact absurd h quotedTail_ne_nil
  | cons c tail ih =>
    rw [List.cons_append, closedText]
    cases escaped with
    | true =>
      obtain ⟨inner, hinner, heq⟩ := Option.map_eq_some_iff.mp h
      obtain ⟨-, rfl⟩ := List.cons.inj heq
      simp [ih hinner, Option.map_map, Function.comp_def]
    | false =>
      rw [List.cons_append, quotedTail] at h
      split at h
      · cases h
      split at h
      · next hquote =>
        cases h
        simp [hquote, closedText_none]
      · next hquote =>
        obtain ⟨inner, hinner, heq⟩ := Option.map_eq_some_iff.mp h
        obtain ⟨-, rfl⟩ := List.cons.inj heq
        simp [hquote, ih hinner, Option.map_map, Function.comp_def]

/-- The search goes over characters that are neither quotes nor parentheses. -/
theorem closedText_of_other {source : List Char} (h : source.any isQuoteOrParen = false)
    (depth : Nat) : closedText depth none false (source ++ more) =
      (closedText depth none false more).map (source ++ ·) := by
  induction source with
  | nil => simp
  | cons c source ih =>
    rw [List.any_cons, Bool.or_eq_false_iff] at h
    obtain ⟨hc, hsource⟩ := h
    simp only [isQuoteOrParen, Bool.or_eq_false_iff, beq_eq_false_iff_ne] at hc
    obtain ⟨⟨⟨hopen, hclose⟩, hstring⟩, hcharacter⟩ := hc
    rw [List.cons_append, closedText, if_neg fun hend => hclose hend.1]
    simp [hopen, hclose, hstring, hcharacter, ih hsource, Option.map_map, Function.comp_def]

end Note

namespace Segment

/-- Whether a segment is neither a comment nor a directive. -/
def isBare (segment : Segment) : Bool :=
  match segment.content with
  | .comment _ | .directive _ => false
  | _ => true

/-- A segment that is neither a comment nor a directive is a token, or a gap without quotes and
parentheses. -/
theorem bare_cases {c : Char} {cs behind : List Char} {segment : Segment}
    (hfirst : first c cs = .ok segment) (htext : c :: cs = segment.source ++ behind)
    (hbare : segment.isBare = true) :
    (∃ t, segment = ⟨segment.source, .token t⟩ ∧ Form segment.source t ∧
        t.text.toList = segment.source) ∨
      (segment.source.any isQuoteOrParen = false ∧
        ∀ position newlines pending rest, ∃ newlines' pending',
          Lexed.ofSegments position newlines pending (segment :: rest) =
            Lexed.ofSegments (position.after segment.source) newlines' pending' rest) := by
  cases stretch_first hfirst htext with
  | newline => exact Or.inr ⟨rfl, fun _ _ _ _ => ⟨_, _, rfl⟩⟩
  | @blank c _ hspace =>
    have hc : isQuoteOrParen c = false := by
      by_contra hmark
      simp only [isQuoteOrParen, Bool.not_eq_false, Bool.or_eq_true, beq_iff_eq] at hmark
      rcases hmark with ((rfl | rfl) | rfl) | rfl <;> cases hspace
    exact Or.inr ⟨by simp [hc], fun _ _ _ _ => ⟨_, _, rfl⟩⟩
  | joinedLine => exact Or.inr ⟨rfl, fun _ _ _ _ => ⟨_, _, rfl⟩⟩
  | token hsource hinclusion =>
    exact Or.inl ⟨_, rfl, form_of_first hfirst, toList_text_of_first hfirst⟩
  | _ => cases hbare

/-- A mark that ends every token leaves the first segment of the text in front of it as it is, unless
that is a comment or a directive, which may go on. -/
theorem first_append_of_bare {d : Char} (hbreaks : breaks d = true) (hmark : d ∉ ['\n', '/', '*'])
    {c : Char} {cs : List Char} {segment : Segment} (hfirst : first c cs = .ok segment)
    (hbare : segment.isBare = true) (more : List Char) :
    first c (cs ++ d :: more) = .ok segment := by
  obtain ⟨source, content⟩ := segment
  cases content with
  | comment body => cases hbare
  | directive included => cases hbare
  | token t =>
    obtain ⟨hbegins, hfront⟩ := beginsToken_of_first hfirst
    have hbegins' : BeginsToken c (cs ++ d :: more) := by
      -- What is looked for behind the first character is not the mark.
      refine hbegins.of_head fun _ e he hhead => ?_
      cases cs with
      | nil =>
        obtain rfl := Option.some.inj hhead
        exact absurd he hmark
      | cons f rest => exact hhead
    exact (FrontSegment.token hbegins' (hfront.append more hbreaks)).first_eq
  | _ => exact first_append more hbreaks hfirst (Or.inl rfl)

/-- A text without comments and directives is cut in front of such a mark as it is alone. -/
theorem cut_append_of_bare {d : Char} (hbreaks : breaks d = true) (hmark : d ∉ ['\n', '/', '*'])
    {cs : List Char} (hclosed : (cut 0 cs).2 = none)
    (hbare : ∀ segment ∈ (cut 0 cs).1, segment.isBare = true) (more : List Char) :
    cut 0 (cs ++ d :: more) =
      ((cut 0 cs).1 ++ (cut 0 (d :: more)).1, (cut 0 (d :: more)).2) := by
  induction cs using cut_induction with
  | nil => rfl
  | unclosed c cs unclosed hfirst =>
    rw [cut_of_error hfirst] at hclosed
    cases hclosed
  | segment c cs segment behind hfirst htext ih =>
    rw [cut_of_ok hfirst htext] at hclosed hbare ⊢
    have hnext :=
      first_append_of_bare hbreaks hmark hfirst (hbare _ (List.mem_cons_self ..)) more
    have hwhole : c :: (cs ++ d :: more) = segment.source ++ (behind ++ d :: more) := by
      rw [← List.cons_append, htext, List.append_assoc]
    rw [List.cons_append, cut_of_ok hnext hwhole,
      ih hclosed fun other hother => hbare other (List.mem_cons_of_mem _ hother)]
    rfl

/-- A text whose parentheses match is what stands in front of the parenthesis behind it: those in
literals do not count. -/
theorem closedText_of_cut {cs : List Char} (hclosed : (cut 0 cs).2 = none)
    (hbare : ∀ segment ∈ (cut 0 cs).1, segment.isBare = true) {depth : Nat} {position : Position}
    {newlines : Nat} {pending : List Trivia}
    (hmatch : Lexeme.parensMatch depth
      (Lexed.ofSegments position newlines pending (cut 0 cs).1).lexemes = true)
    (more : List Char) : Note.closedText depth none false (cs ++ ')' :: more) = some cs := by
  induction cs using cut_induction generalizing depth position newlines pending with
  | nil =>
    obtain rfl : depth = 0 := beq_iff_eq.mp hmatch
    rfl
  | unclosed c cs unclosed hfirst =>
    rw [cut_of_error hfirst] at hclosed
    cases hclosed
  | segment c cs segment behind hfirst htext ih =>
    rw [cut_of_ok hfirst htext] at hclosed hbare hmatch
    have hrest : ∀ {depth position newlines pending},
        Lexeme.parensMatch depth
          (Lexed.ofSegments position newlines pending (cut 0 behind).1).lexemes = true →
        Note.closedText depth none false (behind ++ ')' :: more) = some behind :=
      fun hmatch => ih hclosed (fun other hother => hbare other (List.mem_cons_of_mem _ hother))
        hmatch
    rw [htext, List.append_assoc]
    rcases bare_cases hfirst htext (hbare _ (List.mem_cons_self ..)) with
      ⟨t, hsegment, hform, hspelled⟩ | ⟨hsource, hgap⟩
    · obtain ⟨source, content⟩ := segment
      cases hsegment
      have hlexemes : (Lexed.ofSegments position newlines pending
          (⟨source, .token t⟩ :: (cut 0 behind).1)).lexemes = ⟨t, position, pending⟩ ::
            (Lexed.ofSegments (position.after source) 0 [] (cut 0 behind).1).lexemes := rfl
      rw [hlexemes] at hmatch
      dsimp only at hspelled hform ⊢
      cases hform with
      | @literal quote tail _ hquote htail =>
        have hother : t ≠ .openParen ∧ t ≠ .closeParen := by
          constructor <;> rintro rfl <;> rcases hquote with rfl | rfl <;> cases hspelled
        rw [Lexeme.parensMatch_of_other hother.1 hother.2] at hmatch
        have hquote' : ¬ (quote = ')' ∧ depth = 0) ∧ quote ≠ '(' ∧ quote ≠ ')' := by
          rcases hquote with rfl | rfl <;> exact ⟨nofun, by decide, by decide⟩
        rw [List.cons_append, Note.closedText, if_neg hquote'.1]
        simp only [hquote'.2.1, hquote'.2.2, hquote, if_true, if_false]
        rw [Note.closedText_of_quotedTail (htail _), hrest hmatch]
        rfl
      | openParen =>
        have hinside : Lexeme.parensMatch (depth + 1) _ = true := hmatch
        simp [Note.closedText, hrest hinside]
      | closeParen =>
        cases depth with
        | zero => cases hmatch
        | succ depth =>
          have hinside : Lexeme.parensMatch depth _ = true := hmatch
          simp [Note.closedText, hrest hinside]
      | other hsource =>
        have hother : t ≠ .openParen ∧ t ≠ .closeParen := by
          constructor <;> rintro rfl <;> rw [← hspelled] at hsource <;> cases hsource
        rw [Lexeme.parensMatch_of_other hother.1 hother.2] at hmatch
        rw [Note.closedText_of_other hsource, hrest hmatch]
        rfl
    · obtain ⟨newlines', pending', hsame⟩ := hgap position newlines pending (cut 0 behind).1
      rw [hsame] at hmatch
      rw [Note.closedText_of_other hsource, hrest hmatch]
      rfl

end Segment
end RemoteCalls
