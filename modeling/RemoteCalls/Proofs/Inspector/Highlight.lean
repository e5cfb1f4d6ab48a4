import RemoteCalls.Inspector.Highlight
import RemoteCalls.Proofs.Indexed
import RemoteCalls.Proofs.Text.Bytes

/-!
# Highlighting keeps the line

The spans of a highlighted line are stretches of it, one behind the other: joined they are the line,
and none of them is empty. They can be cut out of the line by a loop that goes from index to index and
takes its slices from byte to byte. Every index in the loop is one of the line, and every slice begins
and ends between characters, however the characters are encoded and whatever is left open at the end.
-/

namespace RemoteCalls.Inspector

/-- The texts of some spans as one. -/
def Span.join (spans : List Span) : String :=
  String.join (spans.map (·.text))

namespace Fragment

/-- The characters of some fragments. -/
def chars (fragments : List Fragment) : List Char :=
  fragments.flatMap (·.text)

@[simp] theorem chars_nil : chars [] = [] := rfl

@[simp] theorem chars_cons (fragment : Fragment) (fragments : List Fragment) :
    chars (fragment :: fragments) = fragment.text ++ chars fragments := rfl

@[simp] theorem chars_append (fragments more : List Fragment) :
    chars (fragments ++ more) = chars fragments ++ chars more :=
  List.flatMap_append

/-- No fragment is empty. -/
def NoneEmpty (fragments : List Fragment) : Prop :=
  ∀ fragment ∈ fragments, fragment.text ≠ []

theorem noneEmpty_append {fragments more : List Fragment} :
    NoneEmpty (fragments ++ more) ↔ NoneEmpty fragments ∧ NoneEmpty more :=
  List.forall_mem_append

theorem noneEmpty_cons {fragment : Fragment} {fragments : List Fragment} :
    NoneEmpty (fragment :: fragments) ↔ fragment.text ≠ [] ∧ NoneEmpty fragments :=
  List.forall_mem_cons

/-! ### The pieces -/

@[simp] theorem chars_ofWord (word : List Char) (called : Bool) :
    chars (ofWord word called) = word := by
  cases word with
  | nil => rfl
  | cons c cs => exact List.append_nil _

theorem noneEmpty_ofWord (word : List Char) (called : Bool) : NoneEmpty (ofWord word called) := by
  cases word with
  | nil => exact fun _ h => absurd h List.not_mem_nil
  | cons c cs => exact noneEmpty_cons.mpr ⟨List.cons_ne_nil c cs, fun _ h => absurd h List.not_mem_nil⟩

theorem commentTail_prefix (cs : List Char) : commentTail cs <+: cs := by
  induction cs with
  | nil => exact List.nil_prefix
  | cons c cs ih =>
    unfold commentTail
    split
    · next hclose =>
      obtain ⟨rfl, hhead⟩ := hclose
      cases cs with
      | nil => cases hhead
      | cons d cs =>
        obtain rfl := Option.some.inj hhead
        exact List.prefix_append ['*', '/'] cs
    · exact (List.prefix_cons_inj c).mpr ih

theorem stringTail_prefix (escaped : Bool) (cs : List Char) : stringTail escaped cs <+: cs := by
  induction cs generalizing escaped with
  | nil => cases escaped <;> exact List.nil_prefix
  | cons c cs ih =>
    cases escaped with
    | true => exact (List.prefix_cons_inj c).mpr (ih false)
    | false =>
      unfold stringTail
      split
      · exact List.prefix_append [c] cs
      · exact (List.prefix_cons_inj c).mpr (ih _)

/-- A comment is the rest of the line, or what ends with the closing mark. -/
theorem comment?_eq_some {c : Char} {cs text : List Char} (h : comment? c cs = some text) :
    c = '/' ∧ (cs.head? = some '/' ∧ text = c :: cs ∨
      cs.head? = some '*' ∧ text = c :: commentTail cs) := by
  unfold comment? at h
  split at h
  · next hslash =>
    refine ⟨hslash, ?_⟩
    split at h
    · next hnext => exact .inl ⟨hnext, (Option.some.inj h).symm⟩
    · next hnext => exact .inr ⟨hnext, (Option.some.inj h).symm⟩
    · cases h
  · cases h

theorem comment?_prefix {c : Char} {cs text : List Char} (h : comment? c cs = some text) :
    ∃ tail, text = c :: tail ∧ tail <+: cs := by
  obtain ⟨-, ⟨-, rfl⟩ | ⟨-, rfl⟩⟩ := comment?_eq_some h
  · exact ⟨cs, rfl, List.prefix_rfl⟩
  · exact ⟨commentTail cs, rfl, commentTail_prefix cs⟩

theorem not_opens_of_comment?_eq_none {c : Char} {cs : List Char} (h : comment? c cs = none) :
    ¬ (c = '/' ∧ (cs.head? = some '/' ∨ cs.head? = some '*')) := by
  rintro ⟨rfl, hnext | hnext⟩ <;> simp [comment?, hnext] at h

/-- What is skipped behind a text is what the text has taken. -/
theorem cons_append_drop {c : Char} {tail cs : List Char} (h : tail <+: cs) :
    (c :: tail) ++ cs.drop ((c :: tail).length - 1) = c :: cs := by
  obtain ⟨rest, rfl⟩ := h
  simp

/-! ### The line -/

/-- The fragments hold the word that was begun and the characters that are not skipped. -/
theorem chars_ofChars (word : List Char) (skip : Nat) (cs : List Char) :
    chars (ofChars word skip cs) = word ++ cs.drop skip := by
  induction cs generalizing word skip with
  | nil => simp [ofChars]
  | cons c cs ih =>
    cases skip with
    | succ skip => exact ih word skip
    | zero =>
      unfold ofChars
      split
      · next text hcomment =>
        obtain ⟨tail, rfl, htail⟩ := comment?_prefix hcomment
        rw [chars_append, chars_ofWord, chars_cons, ih, List.nil_append, cons_append_drop htail]
        rfl
      · split
        · have htail := stringTail_prefix false cs
          rw [chars_append, chars_ofWord, chars_cons, ih, List.nil_append, cons_append_drop htail]
          rfl
        · split
          · simp [ih]
          · simp [ih]

theorem noneEmpty_ofChars (word : List Char) (skip : Nat) (cs : List Char) :
    NoneEmpty (ofChars word skip cs) := by
  induction cs generalizing word skip with
  | nil => cases skip <;> exact noneEmpty_ofWord word false
  | cons c cs ih =>
    cases skip with
    | succ skip => exact ih word skip
    | zero =>
      unfold ofChars
      split
      · next text hcomment =>
        obtain ⟨tail, rfl, -⟩ := comment?_prefix hcomment
        exact noneEmpty_append.mpr ⟨noneEmpty_ofWord _ _,
          noneEmpty_cons.mpr ⟨List.cons_ne_nil _ _, ih _ _⟩⟩
      · split
        · exact noneEmpty_append.mpr ⟨noneEmpty_ofWord _ _,
            noneEmpty_cons.mpr ⟨List.cons_ne_nil _ _, ih _ _⟩⟩
        · split
          · exact ih _ _
          · exact noneEmpty_append.mpr ⟨noneEmpty_ofWord _ _,
              noneEmpty_cons.mpr ⟨List.cons_ne_nil _ _, ih _ _⟩⟩

/-! ### The rest of a line -/

/-- Characters that belong to a fragment make no other one. -/
theorem ofChars_of_skipped (word taken behind : List Char) :
    ofChars word taken.length (taken ++ behind) = ofChars word 0 behind := by
  induction taken with
  | nil => rfl
  | cons c taken ih => exact ih

theorem ofChars_of_comment {c : Char} {cs tail behind : List Char}
    (h : comment? c cs = some (c :: tail)) (hcs : tail ++ behind = cs) (word : List Char) :
    ofChars word 0 (c :: cs) = ofWord word false ++ ⟨c :: tail, .comment⟩ :: ofChars [] 0 behind := by
  subst hcs
  rw [ofChars]
  simp only [h, List.length_cons, Nat.add_sub_cancel, ofChars_of_skipped]

theorem ofChars_of_quote {cs behind : List Char} (hcs : stringTail false cs ++ behind = cs)
    (word : List Char) :
    ofChars word 0 ('"' :: cs) =
      ofWord word false ++ ⟨'"' :: stringTail false cs, .string⟩ :: ofChars [] 0 behind := by
  have hcomment : comment? '"' cs = none := if_neg (by decide)
  have hbehind := ofChars_of_skipped [] (stringTail false cs) behind
  rw [hcs] at hbehind
  rw [ofChars]
  simp only [hcomment, if_true, List.length_cons, Nat.add_sub_cancel, hbehind]

/-! ## Indices and bytes -/

open Indexed (Turn loop runTurn)

/-- The index of the quote that ends a literal, from an index on. A backslash takes one more index,
also where no character stands behind it. -/
def quoteIndex (row : List (Nat × Char)) (i : Nat) : Nat :=
  if h : i < row.length then
    if row[i].2 = '"' then i else quoteIndex row (i + if row[i].2 = '\\' then 2 else 1)
  else i
termination_by row.length - i
decreasing_by split <;> omega

/-- The span of a word, if there is one. -/
def wordSpans (word : String) (called : Bool) : List Span :=
  (ofWord word.toList called).map span

/-- A turn over the characters of a line, which stand in a row with the numbers of bytes in front of
them. The state is the spans that are made and what was read of a word. -/
def highlightTurn (line : String) (row : List (Nat × Char)) (i : Nat) (state : List Span × String) :
    Option (Nat × Char) → Option (Turn (List Span × String) (List Span))
  | none => some (.stop (state.1 ++ wordSpans state.2 false))
  | some (offset, c) =>
    let next := row[i + 1]?.map Prod.snd
    if c = '/' ∧ (next = some '/' ∨ next = some '*') then do
      let rest ← Text.slice? line offset line.utf8ByteSize
      let length :=
        if next = some '*' then ((Text.find? "*/" rest).map (· + 2)).getD rest.utf8ByteSize
        else rest.utf8ByteSize
      let text ← Text.slice? rest 0 length
      let behind ← loop (runTurn fun item => item.1 < offset + length) row i ()
      return .go behind (state.1 ++ wordSpans state.2 false ++ [⟨text, style .comment⟩], "")
    else if c = '"' then do
      let stop := min (quoteIndex row (i + 1) + 1) row.length
      let text ← Text.slice? line offset ((row[stop]?.map Prod.fst).getD line.utf8ByteSize)
      return .go stop (state.1 ++ wordSpans state.2 false ++ [⟨text, style .string⟩], "")
    else if isWordChar c then some (.go (i + 1) (state.1, state.2.push c))
    else
      some (.go (i + 1)
        (state.1 ++ wordSpans state.2 (c == '(') ++ [⟨String.singleton c, style (markRole c)⟩], ""))

/-- The number of bytes of a comment is found by its closing mark. -/
theorem size_commentTail (cs : List Char) :
    ((Text.find? "*/" (String.ofList cs)).map (· + 2)).getD (Text.size cs) =
      Text.size (commentTail cs) := by
  have hmark : "*/" = String.ofList ['*', '/'] := rfl
  rw [hmark]
  induction cs with
  | nil => rfl
  | cons c cs ih =>
    have hfront : ['*', '/'] <+: c :: cs ↔ c = '*' ∧ cs.head? = some '/' := by
      cases cs <;> simp [eq_comm]
    rw [Text.find?_ofList_cons, commentTail]
    by_cases hclose : c = '*' ∧ cs.head? = some '/'
    · rw [if_pos (hfront.mpr hclose), if_pos hclose]
      rfl
    · rw [if_neg (mt hfront.mp hclose), if_neg hclose, Text.size_cons, Text.size_cons, ← ih]
      cases Text.find? (String.ofList ['*', '/']) (String.ofList cs) with
      | none => rfl
      | some start =>
        simp only [Option.map_some, Option.getD_some]
        omega

/-- A literal ends behind its closing quote, or where the line ends. -/
theorem min_quoteIndex (row : List (Nat × Char)) {i : Nat} (hi : i ≤ row.length) :
    min (quoteIndex row i + 1) row.length =
      i + (stringTail false ((row.drop i).map Prod.snd)).length := by
  induction hn : row.length - i using Nat.strongRecOn generalizing i with
  | ind n ih =>
    rw [quoteIndex]
    by_cases hlt : i < row.length
    · rw [dif_pos hlt, List.drop_eq_getElem_cons hlt, List.map_cons, stringTail]
      by_cases hquote : row[i].2 = '"'
      · rw [if_pos hquote, if_pos hquote]
        exact Nat.min_eq_left hlt
      · rw [if_neg hquote, if_neg hquote, List.length_cons]
        by_cases hescape : row[i].2 = '\\'
        · rw [if_pos hescape, beq_iff_eq.mpr hescape]
          by_cases hnext : i + 1 < row.length
          · have hbehind : i + 1 + 1 ≤ row.length := hnext
            rw [ih _ (by omega) hbehind rfl, List.drop_eq_getElem_cons hnext, List.map_cons,
              stringTail, List.length_cons]
            omega
          · -- Nothing stands behind the backslash, and the index is behind the end of the row.
            rw [quoteIndex, dif_neg (by omega), List.drop_of_length_le (Nat.le_of_not_lt hnext),
              List.map_nil, stringTail, List.length_nil]
            omega
        · have hbehind : i + 1 ≤ row.length := hlt
          rw [if_neg hescape, beq_false_of_ne hescape, ih _ (by omega) hbehind rfl]
          omega
    · rw [dif_neg hlt, List.drop_of_length_le (Nat.le_of_not_lt hlt), List.map_nil, stringTail,
        List.length_nil]
      omega

section

variable (front : List Char) {c : Char} {cs tail behind : List Char} (spans : List Span)
  (word : String)

/-- A comment is cut out between characters, and the loop goes on behind it. -/
theorem highlightTurn_of_comment (h : comment? c cs = some (c :: tail)) (hcs : tail ++ behind = cs) :
    highlightTurn (String.ofList (front ++ c :: cs)) (Text.offsets 0 (front ++ c :: cs)) front.length
        (spans, word) (some (Text.size front, c)) =
      some (.go (front.length + (c :: tail).length)
        (spans ++ wordSpans word false ++ [span ⟨c :: tail, .comment⟩], "")) := by
  have hnext := Text.map_snd_getElem?_offsets front c cs
  have hrest := Text.slice?_back front (c :: cs)
  obtain ⟨hslash, htail⟩ := comment?_eq_some h
  have hopens : c = '/' ∧ (cs.head? = some '/' ∨ cs.head? = some '*') :=
    ⟨hslash, htail.imp And.left And.left⟩
  have hlength : (if cs.head? = some '*' then
      ((Text.find? "*/" (String.ofList (c :: cs))).map (· + 2)).getD
        (String.ofList (c :: cs)).utf8ByteSize
      else (String.ofList (c :: cs)).utf8ByteSize) = Text.size (c :: tail) := by
    rw [Text.utf8ByteSize_ofList]
    rcases htail with ⟨hline, htext⟩ | ⟨hblock, htext⟩
    · rw [hline, if_neg (by decide), htext]
    · have hclose : ¬ (c = '*' ∧ cs.head? = some '/') := fun hstar =>
        absurd (hslash.symm.trans hstar.1) (by decide)
      rw [if_pos hblock, size_commentTail, commentTail, if_neg hclose, htext]
  have hsplit : c :: cs = (c :: tail) ++ behind := by rw [← hcs, List.cons_append]
  have htext := Text.slice?_front (c :: tail) behind
  have hbehind : loop (runTurn fun item => item.1 < Text.size front + Text.size (c :: tail))
      (Text.offsets 0 (front ++ c :: cs)) front.length () =
        some (front.length + (c :: tail).length) := by
    rw [Indexed.loop_runTurn _ _ (by simp), Text.drop_offsets, hsplit, Text.takeWhile_offsets,
      Text.length_offsets]
  rw [← hsplit] at htext
  simp only [highlightTurn, hnext, hrest, Option.bind_eq_bind, Option.bind_some, hlength,
    if_pos hopens, htext, hbehind]
  rfl

/-- A literal is cut out between characters, and the loop goes on behind it. -/
theorem highlightTurn_of_quote (hcs : stringTail false cs ++ behind = cs) :
    highlightTurn (String.ofList (front ++ '"' :: cs)) (Text.offsets 0 (front ++ '"' :: cs))
        front.length (spans, word) (some (Text.size front, '"')) =
      some (.go (front.length + ('"' :: stringTail false cs).length)
        (spans ++ wordSpans word false ++ [span ⟨'"' :: stringTail false cs, .string⟩], "")) := by
  have hopens : ¬ ('"' = '/' ∧ (cs.head? = some '/' ∨ cs.head? = some '*')) :=
    fun h => absurd h.1 (by decide)
  have hsplit : '"' :: cs = ('"' :: stringTail false cs) ++ behind := by
    rw [List.cons_append, hcs]
  have hinside : ((Text.offsets 0 (front ++ '"' :: cs)).drop (front.length + 1)).map Prod.snd = cs := by
    rw [List.map_drop, Text.map_snd_offsets, ← List.drop_drop, List.drop_left]
    rfl
  have hstop : min (quoteIndex (Text.offsets 0 (front ++ '"' :: cs)) (front.length + 1) + 1)
      (Text.offsets 0 (front ++ '"' :: cs)).length =
        (front ++ '"' :: stringTail false cs).length := by
    rw [min_quoteIndex _ (by simp), hinside, List.length_append, List.length_cons]
    omega
  have hoffset := Text.getD_offsets (front ++ '"' :: stringTail false cs) behind
  have htext := Text.slice?_ofList front ('"' :: stringTail false cs) behind
  rw [List.append_assoc, ← hsplit, ← Text.utf8ByteSize_ofList, Text.size_append] at hoffset
  rw [← hsplit] at htext
  simp only [highlightTurn, Text.map_snd_getElem?_offsets, if_neg hopens, if_true, hstop, hoffset,
    htext, Option.bind_eq_bind, Option.bind_some]
  rw [List.length_append]
  rfl

theorem loop_highlightTurn (rest : List Char) :
    loop (highlightTurn (String.ofList (front ++ rest)) (Text.offsets 0 (front ++ rest)))
        (Text.offsets 0 (front ++ rest)) front.length (spans, word) =
      some (spans ++ (ofChars word.toList 0 rest).map span) := by
  induction hn : rest.length using Nat.strongRecOn generalizing front rest spans word with
  | ind n ih =>
    have hrow := Text.drop_offsets front rest
    cases rest with
    | nil =>
      refine Indexed.loop_of_stop (by simp) ?_
      rw [hrow]
      rfl
    | cons c cs =>
      -- A turn takes some characters from the front, and the turns behind it take the others.
      have hgo : ∀ {taken behind : List Char} {spans' : List Span} {word' : String}, taken ≠ [] →
          taken ++ behind = c :: cs →
          highlightTurn (String.ofList (front ++ c :: cs)) (Text.offsets 0 (front ++ c :: cs))
              front.length (spans, word) (some (Text.size front, c)) =
            some (.go (front.length + taken.length) (spans', word')) →
          loop (highlightTurn (String.ofList (front ++ c :: cs)) (Text.offsets 0 (front ++ c :: cs)))
              (Text.offsets 0 (front ++ c :: cs)) front.length (spans, word) =
            some (spans' ++ (ofChars word'.toList 0 behind).map span) := by
        intro taken behind spans' word' hne hsplit hturn
        have htaken := List.length_pos_iff.mpr hne
        have hlength := congrArg List.length hsplit
        rw [List.length_append] at hlength
        have hbehind := ih behind.length (by omega) (front ++ taken) spans' word' behind rfl
        rw [List.append_assoc, hsplit, List.length_append] at hbehind
        rw [Indexed.loop_of_go hrow hturn (by omega), hbehind]
      cases hcomment : comment? c cs with
      | some text =>
        obtain ⟨tail, rfl, behind, hcs⟩ := comment?_prefix hcomment
        rw [hgo (List.cons_ne_nil c tail) (by rw [List.cons_append, hcs])
            (highlightTurn_of_comment front spans word hcomment hcs),
          ofChars_of_comment hcomment hcs]
        simp [wordSpans]
      | none =>
        have hopens := not_opens_of_comment?_eq_none hcomment
        by_cases hquote : c = '"'
        · subst hquote
          obtain ⟨behind, hcs⟩ := stringTail_prefix false cs
          rw [hgo (List.cons_ne_nil '"' (stringTail false cs)) (by rw [List.cons_append, hcs])
              (highlightTurn_of_quote front spans word hcs), ofChars_of_quote hcs]
          simp [wordSpans]
        · have hturn : highlightTurn (String.ofList (front ++ c :: cs))
              (Text.offsets 0 (front ++ c :: cs)) front.length (spans, word)
                (some (Text.size front, c)) =
              if isWordChar c then some (.go (front.length + 1) (spans, word.push c))
              else some (.go (front.length + 1)
                (spans ++ wordSpans word (c == '(') ++ [span ⟨[c], markRole c⟩], "")) := by
            simp only [highlightTurn, Text.map_snd_getElem?_offsets, if_neg hopens, if_neg hquote]
            rfl
          have hmodel : ofChars word.toList 0 (c :: cs) =
              if isWordChar c then ofChars (word.toList ++ [c]) 0 cs
              else ofWord word.toList (c == '(') ++ ⟨[c], markRole c⟩ :: ofChars [] 0 cs := by
            rw [ofChars]
            simp only [hcomment, if_neg hquote]
          by_cases hword : isWordChar c = true
          · rw [if_pos hword] at hturn hmodel
            rw [hgo (List.cons_ne_nil c []) rfl hturn, hmodel, String.toList_push]
          · rw [if_neg hword] at hturn hmodel
            rw [hgo (List.cons_ne_nil c []) rfl hturn, hmodel]
            simp [wordSpans]

end

end Fragment

/-- The spans of a line, cut out by index and by byte, if each index and each slice is one of the
line. -/
def highlight? (line : String) : Option (List Span) :=
  let row := Text.offsets 0 line.toList
  Indexed.loop (Fragment.highlightTurn line row) row 0 ([], "")

/-- The spans of a line are found by index and by byte. -/
theorem highlight?_eq (line : String) : highlight? line = some (highlight line) := by
  have hloop := Fragment.loop_highlightTurn [] [] "" line.toList
  rw [List.nil_append, List.nil_append, String.ofList_toList] at hloop
  exact hloop

/-! ## Spans -/

namespace Span

theorem join_map_span (fragments : List Fragment) :
    join (fragments.map Fragment.span) = String.ofList (Fragment.chars fragments) := by
  rw [← String.toList_inj, join, String.toList_join, List.map_map, String.toList_ofList,
    Fragment.chars, List.flatMap_map]
  simp only [Function.comp_apply, Fragment.span, String.toList_ofList]

end Span

/-- The spans of a line are cut out with every index in the line and every slice between characters of
it. Joined they are the line, and none of them is empty. -/
theorem highlight_partitions (line : String) :
    highlight? line = some (highlight line) ∧ Span.join (highlight line) = line ∧
      ∀ span ∈ highlight line, span.text ≠ "" := by
  refine ⟨highlight?_eq line, ?_, ?_⟩
  · rw [highlight, Span.join_map_span, Fragment.ofLine, Fragment.chars_ofChars]
    exact String.ofList_toList
  · intro span hspan hempty
    obtain ⟨fragment, hfragment, rfl⟩ := List.mem_map.mp hspan
    refine Fragment.noneEmpty_ofChars [] 0 line.toList fragment hfragment ?_
    exact String.ofList_eq_empty_iff.mp hempty

/-- The star that opens a comment may close it, and a comment that is not closed runs to the end of
the line. -/
example : (highlight "é(/*/ü/*π").map (·.text) = ["é", "(", "/*/", "ü", "/*π"] := by decide +kernel

/-- A string that is not closed runs to the end of the line. -/
example : (highlight "π\"é\\").map (·.text) = ["π", "\"é\\"] := by decide +kernel

end RemoteCalls.Inspector
