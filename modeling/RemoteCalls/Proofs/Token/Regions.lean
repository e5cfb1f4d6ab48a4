import Mathlib.Data.List.TakeDrop
import RemoteCalls.Proofs.Token.Comments

/-!
# Disabled regions

What stands between `#if 0` and its `#endif` is not read, whatever it is, as long as the conditionals
in it are properly nested: a text with such a region has the tokens of the text without it.
-/

namespace RemoteCalls

namespace Segment

/-! ## Segments within whole lines -/

variable {c : Char} {front rest other : List Char}

/-- A comment that is closed in its line is closed there whatever comes in the next line. -/
theorem commentBody_of_line {body : List Char} (h : commentBody (front ++ '\n' :: rest) = some body)
    (hlength : (body ++ ['*', '/']).length ≤ front.length) (other : List Char) :
    commentBody (front ++ '\n' :: other) = some body := by
  have hpiece : body ++ ['*', '/'] <+: front :=
    List.prefix_of_prefix_length_le (commentBody_piece h) (List.prefix_append ..) hlength
  obtain ⟨more, rfl⟩ := hpiece
  simp only [List.append_assoc, List.cons_append, List.nil_append] at h ⊢
  exact commentBody_of_front h (more ++ '\n' :: other)

/-- A segment that ends with a line or before ends there whatever comes in the next line. -/
theorem first_of_line {segment : Segment} (h : first c (front ++ '\n' :: rest) = .ok segment)
    (hlength : segment.source.length ≤ (c :: front).length) (other : List Char) :
    first c (front ++ '\n' :: other) = .ok segment := by
  have hhead : ∀ {d}, (front ++ '\n' :: rest).head? = some d →
      (front ++ '\n' :: other).head? = some d := by
    intro d hd
    cases front <;> exact hd
  have hbreaks : breaks '\n' = true := by decide
  refine FrontSegment.first_eq ?_
  cases frontSegment_of_first h with
  | newline hc => exact .newline hc
  | blank hspace => exact .blank hspace
  | joinedLine hc hnewline => exact .joinedLine hc (hhead hnewline)
  | lineComment hc hslash =>
    -- A line comment ends where its line does.
    have hline : ∀ more : List Char,
        (front ++ '\n' :: more).takeWhile (· ≠ '\n') = front.takeWhile (· ≠ '\n') :=
      fun more => takeWhile_append_cons more (.inl (by decide))
    rw [hline rest, ← hline other]
    exact .lineComment hc (hhead hslash)
  | @blockComment body hc hstar hbody =>
    refine .blockComment hc (hhead hstar) ?_
    cases front with
    | nil => cases hstar
    | cons d front =>
      have hshort : (body ++ ['*', '/']).length ≤ front.length := by
        simp only [List.length_cons, List.length_append] at hlength ⊢
        omega
      exact commentBody_of_line hbody hshort other
  | directive hc hdirective =>
    have hless : (directive ((c :: front ++ ['\n']) ++ rest)).source.length <
        (c :: front ++ ['\n']).length := by
      simpa [hdirective] using Nat.lt_succ_of_le hlength
    have hsame := directive_congr hless other
    exact .directive hc (by simpa [hdirective] using hsame)
  | token hbegins hfront =>
    refine .token (hbegins.of_head fun _ mark _ hmark => ?_)
      ((hfront.of_append rest hbreaks (.inr hlength)).append other hbreaks)
    cases front <;> exact hmark

/-! ## Directives on lines of their own -/

/-- A directive goes on to the end of its last line, which no backslash joins to the next one. -/
theorem length_directiveLine_of_line {joining : Bool} (hjoin : front.getLast? ≠ some '\\')
    (hjoining : joining = true → front ≠ []) (more : List Char) :
    (directiveLine joining (front ++ '\n' :: more)).length ≤ front.length := by
  induction front generalizing joining with
  | nil =>
    cases joining with
    | true => exact absurd rfl (hjoining rfl)
    | false => simp [directiveLine]
  | cons c front ih =>
    have hlast : front.getLast? ≠ some '\\' := by
      cases front with
      | nil => simp
      | cons d front => simpa using hjoin
    cases joining with
    | true => simpa [directiveLine] using ih hlast (by simp)
    | false =>
      rw [List.cons_append, directiveLine]
      split
      · exact Nat.zero_le _
      split
      · have hbreak : (front ++ '\n' :: more).takeWhile (· ≠ '\n') =
            front.takeWhile (· ≠ '\n') := takeWhile_append_cons more (.inl (by decide))
        have htake := (List.takeWhile_prefix (l := front) (· ≠ '\n')).length_le
        simp only [hbreak, List.length_cons]
        omega
      · have hjoins : (c == '\\' && (front ++ '\n' :: more).head? == some '\n') = true →
            front ≠ [] := by
          rintro hjoins rfl
          simp_all
        exact Nat.succ_le_succ (ih hlast hjoins)

/-- The text of a line goes up to a line comment, and the directive to the end of the line. -/
theorem exists_directiveLine {line : List Char} (hline : '\n' ∉ line)
    (hjoin : line.getLast? ≠ some '\\') :
    ∃ text, (text = line ∨ ∃ more, line = text ++ '/' :: more) ∧
      ∀ rest, directiveLine false (line ++ '\n' :: rest) = ⟨text, line.length⟩ := by
  induction line with
  | nil => exact ⟨[], .inl rfl, fun rest => by simp [directiveLine]⟩
  | cons c line ih =>
    have hc : c ≠ '\n' := fun h => hline (h ▸ List.mem_cons_self)
    have hrest : '\n' ∉ line := fun h => hline (List.mem_cons_of_mem _ h)
    by_cases hcomment : c = '/' ∧ line.head? = some '/'
    · obtain ⟨rfl, hhead⟩ := hcomment
      obtain ⟨more, rfl⟩ := List.head?_eq_some_iff.mp hhead
      refine ⟨[], .inr ⟨_, rfl⟩, fun rest => ?_⟩
      have hall : ∀ d ∈ '/' :: more, decide (d ≠ '\n') = true :=
        fun d hd => decide_eq_true fun h => hrest (h ▸ hd)
      have hwhole : ('/' :: more ++ '\n' :: rest).takeWhile (· ≠ '\n') = '/' :: more := by
        rw [List.takeWhile_append_of_pos hall]
        simp
      have hslash : '/' = '/' ∧ ('/' :: more ++ '\n' :: rest).head? = some '/' := ⟨rfl, rfl⟩
      rw [List.cons_append, directiveLine, if_neg hc, if_pos hslash, hwhole]
      simp [Nat.add_comm]
    · have hlast : line.getLast? ≠ some '\\' := by
        cases line with
        | nil => simp
        | cons d line => simpa using hjoin
      obtain ⟨text, htext, hread⟩ := ih hrest hlast
      have hfront : ∀ more, line = text ++ '/' :: more →
          c :: line = c :: text ++ '/' :: more := fun more h => by rw [h]; rfl
      refine ⟨c :: text, htext.imp (congrArg _) (Exists.imp hfront), fun rest => ?_⟩
      have hnot : ¬ (c = '/' ∧ (line ++ '\n' :: rest).head? = some '/') := by
        cases line with
        | nil => simp
        | cons d line => exact hcomment
      have hjoins : (c == '\\' && (line ++ '\n' :: rest).head? == some '\n') = false := by
        cases line with
        | nil => simpa using hjoin
        | cons d line =>
          have hd : d ≠ '\n' := fun h => hrest (h ▸ List.mem_cons_self)
          simp [hd]
      rw [List.cons_append, directiveLine, if_neg hc, if_neg hnot, hjoins]
      simp [hread]

theorem dropWhile_append_cons {p : Char → Bool} {d : Char} (hd : p d = false)
    (cs more : List Char) : (cs ++ d :: more).dropWhile p = cs.dropWhile p ++ d :: more := by
  rw [List.dropWhile_append]
  split
  · next hempty =>
    rw [List.isEmpty_iff.mp hempty]
    simp [hd]
  · rfl

/-- The name of a directive stands in front of its line comment. -/
theorem directiveName_append (text more : List Char) :
    directiveName (text ++ '/' :: more) = directiveName text := by
  have hmark : ('/' == '#') = false := by decide
  have hblank : Text.isBlank '/' = false := by decide
  have hword : isWordChar '/' = false := by decide
  simp only [directiveName, directiveParts, List.span_eq_takeWhile_dropWhile, Text.trimLeft,
    dropWhile_append_cons (p := (· == '#')) hmark, dropWhile_append_cons hblank,
    takeWhile_append_cons more (.inl hword)]

/-- The spaces and tabs that can stand in front of a directive in a disabled region. -/
def isIndent (c : Char) : Bool := c == ' ' || c == '\t'

/-- The name of the directive that a line of a disabled region holds, if it holds one. -/
def directiveOf? (line : List Char) : Option String :=
  match line.dropWhile isIndent with
  | '#' :: rest => some (directiveName ('#' :: rest))
  | _ => none

/-- How deep the conditionals are nested behind a line, or `none` where the line ends the region. -/
def depthBehindLine (line : List Char) (depth : Nat) : Option Nat :=
  match directiveOf? line with
  | none => some depth
  | some name => depthBehind name depth

theorem disabledLength_skip (indent : Bool) (depth : Nat) (skipped rest : List Char) :
    disabledLength indent skipped.length depth (skipped ++ rest) =
      skipped.length + disabledLength indent 0 depth rest := by
  induction skipped with
  | nil => simp
  | cons c skipped ih =>
    rw [List.cons_append, List.length_cons, disabledLength, ih]
    omega

/-- What stands behind the first word of a line that is no directive does not matter. -/
theorem disabledLength_text {line : List Char} (hline : '\n' ∉ line) (depth : Nat)
    (rest : List Char) :
    disabledLength false 0 depth (line ++ '\n' :: rest) =
      line.length + 1 + disabledLength true 0 depth rest := by
  induction line with
  | nil => simp [disabledLength]
  | cons c line ih =>
    have hc : c ≠ '\n' := fun h => hline (h ▸ List.mem_cons_self)
    have hrest : '\n' ∉ line := fun h => hline (List.mem_cons_of_mem _ h)
    simp only [List.cons_append, disabledLength, if_neg hc, Bool.false_and,
      if_neg Bool.false_ne_true, ih hrest, List.length_cons]
    omega

/-- A disabled region goes on behind a line at the depth that the line leaves, or ends with it. -/
theorem disabledLength_line {line : List Char} (hline : '\n' ∉ line)
    (hjoin : (directiveOf? line).isSome = true → line.getLast? ≠ some '\\') (depth : Nat)
    (rest : List Char) :
    disabledLength true 0 depth (line ++ '\n' :: rest) =
      match depthBehindLine line depth with
      | none => line.length
      | some inner => line.length + 1 + disabledLength true 0 inner rest := by
  induction line with
  | nil => simp [disabledLength, depthBehindLine, directiveOf?]
  | cons c line ih =>
    have hc : c ≠ '\n' := fun h => hline (h ▸ List.mem_cons_self)
    have hrest : '\n' ∉ line := fun h => hline (List.mem_cons_of_mem _ h)
    rw [List.cons_append, disabledLength, if_neg hc]
    by_cases hindent : isIndent c = true
    · have hsame : directiveOf? (c :: line) = directiveOf? line := by
        simp [directiveOf?, hindent]
      have hspace : (true && (c == ' ' || c == '\t')) = true := hindent
      have hlast : (directiveOf? line).isSome = true → line.getLast? ≠ some '\\' := by
        cases line with
        | nil => simp
        | cons d line => simpa [hsame] using hjoin
      have hdepth : depthBehindLine (c :: line) depth = depthBehindLine line depth := by
        rw [depthBehindLine, hsame, depthBehindLine]
      rw [if_pos hspace, ih hrest hlast, hdepth, List.length_cons]
      cases depthBehindLine line depth with
      | none => exact Nat.add_comm ..
      | some inner => exact (Nat.add_comm ..).trans (Nat.add_right_comm ..)
    have hspace : ¬ (true && (c == ' ' || c == '\t')) = true := hindent
    rw [if_neg hspace]
    by_cases hmark : c = '#'
    · subst hmark
      have hname : directiveOf? ('#' :: line) = some (directiveName ('#' :: line)) := by
        simp [directiveOf?, hindent]
      obtain ⟨text, htext, hread⟩ :=
        exists_directiveLine hline (hjoin (by rw [hname]; rfl))
      have htextName : directiveName text = directiveName ('#' :: line) := by
        rcases htext with rfl | ⟨more, hmore⟩
        · rfl
        · rw [hmore, directiveName_append]
      have hline' : directiveLine false ('#' :: (line ++ '\n' :: rest)) =
          ⟨text, line.length + 1⟩ := hread rest
      rw [if_pos (by decide), hline', depthBehindLine, hname]
      dsimp only
      rw [htextName]
      cases depthBehind (directiveName ('#' :: line)) depth with
      | none => rfl
      | some inner =>
        dsimp only
        have hskip := disabledLength_skip false inner line ('\n' :: rest)
        rw [Nat.add_sub_cancel, hskip, disabledLength, if_pos rfl, List.length_cons]
        simp only [Nat.add_assoc, Nat.add_comm, Nat.add_left_comm]
    · have hnone : directiveOf? (c :: line) = none := by
        simp [directiveOf?, hindent, hmark]
      have hother : ¬ (true && c == '#') = true := by simpa using hmark
      rw [if_neg hother, disabledLength_text hrest, depthBehindLine, hnone]
      simp only [List.length_cons]
      omega

/-! ## Nested conditionals -/

/-- The names of the directives that open a conditional. -/
def openingNames : List String := ["if", "ifdef", "ifndef"]

/-- Lines with properly nested conditionals. Those inside of one are divided by `#else` and `#elif`;
other directives and other lines are arbitrary. -/
inductive Conditionals : (inside : Bool) → List String → Prop
  | nil {inside : Bool} : Conditionals inside []
  | line {inside : Bool} {line : String} {lines : List String}
      (hname : ∀ name ∈ directiveOf? line.toList, name ∉ openingNames ∧ name ∉ closingNames)
      (hrest : Conditionals inside lines) : Conditionals inside (line :: lines)
  | branch {line : String} {lines : List String} {name : String}
      (hname : directiveOf? line.toList = some name) (hbranch : name = "else" ∨ name = "elif")
      (hrest : Conditionals true lines) : Conditionals true (line :: lines)
  | group {inside : Bool} {opener closer : String} {inner lines : List String} {name : String}
      (hopener : directiveOf? opener.toList = some name) (hopens : name ∈ openingNames)
      (hinner : Conditionals true inner)
      (hcloser : directiveOf? closer.toList = some "endif") (hrest : Conditionals inside lines) :
      Conditionals inside (opener :: (inner ++ closer :: lines))

/-- Lines of a text whose directives end with their lines. -/
def Unjoined (lines : List String) : Prop :=
  ∀ line ∈ lines, '\n' ∉ line.toList ∧
    ((directiveOf? line.toList).isSome = true → line.toList.getLast? ≠ some '\\')

/-- Lines as they are written, each with its line break. -/
def textOf (lines : List String) : List Char :=
  lines.flatMap fun line => line.toList ++ ['\n']

theorem textOf_cons (line : String) (lines : List String) (rest : List Char) :
    textOf (line :: lines) ++ rest = line.toList ++ '\n' :: (textOf lines ++ rest) := by
  simp [textOf]

theorem textOf_append (lines more : List String) :
    textOf (lines ++ more) = textOf lines ++ textOf more :=
  List.flatMap_append ..

theorem length_textOf_cons (line : String) (lines : List String) :
    (textOf (line :: lines)).length = line.toList.length + 1 + (textOf lines).length := by
  simp only [textOf, List.flatMap_cons, List.length_append, List.length_singleton]

namespace Unjoined

variable {line : String} {lines more : List String}

theorem tail (h : Unjoined (line :: lines)) : Unjoined lines :=
  fun other hother => h other (List.mem_cons_of_mem _ hother)

theorem left (h : Unjoined (lines ++ more)) : Unjoined lines :=
  fun other hother => h other (List.mem_append_left _ hother)

theorem right (h : Unjoined (lines ++ more)) : Unjoined more :=
  fun other hother => h other (List.mem_append_right _ hother)

/-- A disabled region goes on behind the first line at the depth that the line leaves. -/
theorem disabledLength_cons (h : Unjoined (line :: lines)) {depth inner : Nat}
    (hinner : depthBehindLine line.toList depth = some inner) (rest : List Char) :
    disabledLength true 0 depth (line.toList ++ '\n' :: rest) =
      line.toList.length + 1 + disabledLength true 0 inner rest := by
  obtain ⟨hline, hjoin⟩ := h line List.mem_cons_self
  rw [disabledLength_line hline hjoin, hinner]

end Unjoined

theorem depthBehind_of_other {name : String} (hopens : name ∉ openingNames)
    (hcloses : name ∉ closingNames) (depth : Nat) : depthBehind name depth = some depth := by
  simp only [openingNames, closingNames, List.mem_cons, List.not_mem_nil, or_false, not_or] at *
  simp [depthBehind, hopens, hcloses]

/-- Nested conditionals leave the depth of a disabled region as it was. -/
theorem disabledLength_of_conditionals {inside : Bool} {lines : List String}
    (h : Conditionals inside lines) (hlines : Unjoined lines) {depth : Nat}
    (hdepth : inside = true → 0 < depth) (rest : List Char) :
    disabledLength true 0 depth (textOf lines ++ rest) =
      (textOf lines).length + disabledLength true 0 depth rest := by
  induction h generalizing depth rest with
  | nil => simp [textOf]
  | @line inside line lines hname hrest ih =>
    have hsame : depthBehindLine line.toList depth = some depth := by
      unfold depthBehindLine
      split
      · rfl
      · next name hline =>
        exact depthBehind_of_other (hname name hline).1 (hname name hline).2 depth
    rw [textOf_cons, hlines.disabledLength_cons hsame, length_textOf_cons, ih hlines.tail hdepth]
    exact (Nat.add_assoc ..).symm
  | @branch line lines name hname hbranch hrest ih =>
    have hsame : depthBehindLine line.toList depth = some depth := by
      have hpositive : depth ≠ 0 := Nat.pos_iff_ne_zero.mp (hdepth rfl)
      rcases hbranch with rfl | rfl <;> simp [depthBehindLine, hname, depthBehind, hpositive]
    rw [textOf_cons, hlines.disabledLength_cons hsame, length_textOf_cons, ih hlines.tail hdepth]
    exact (Nat.add_assoc ..).symm
  | @group inside opener closer inner lines name hopener hopens hinner hcloser hrest ihinner ih =>
    have hdeeper : depthBehindLine opener.toList depth = some (depth + 1) := by
      simp only [openingNames, List.mem_cons, List.not_mem_nil, or_false] at hopens
      rw [depthBehindLine, hopener]
      exact if_pos hopens
    have hback : depthBehindLine closer.toList (depth + 1) = some depth := by
      simp [depthBehindLine, hcloser, depthBehind]
    have htail := hlines.tail
    rw [textOf_cons, hlines.disabledLength_cons hdeeper, textOf_append, List.append_assoc,
      ihinner htail.left fun _ => Nat.succ_pos depth, textOf_cons,
      htail.right.disabledLength_cons hback, ih htail.right.tail hdepth, length_textOf_cons,
      textOf_append, List.length_append, length_textOf_cons]
    omega

/-! ## Regions that whole lines leave open -/

/-- What is left of a text behind lines that leave a disabled region open at a depth, or none. -/
def behindRegion : (region : Option Nat) → List Char → List Char
  | none, cs => cs
  | some depth, cs => cs.drop (disabledLength true 0 depth cs)

/-- Nested conditionals make no difference to a region that is open in front of them. -/
theorem behindRegion_textOf {lines : List String} (h : Conditionals false lines)
    (hlines : Unjoined lines) (depth : Nat) (rest : List Char) :
    behindRegion (some depth) (textOf lines ++ rest) = behindRegion (some depth) rest := by
  have hinside : false = true → 0 < depth := fun h => absurd h Bool.false_ne_true
  rw [behindRegion, disabledLength_of_conditionals h hlines hinside, List.drop_append,
    List.drop_of_length_le (by omega), Nat.add_sub_cancel_left]
  rfl

/-- A disabled region that does not end within whole lines goes on at some depth behind them,
whatever comes there. -/
theorem exists_depth_behind {indent : Bool} {skip depth : Nat} (hskip : skip ≤ front.length)
    (hjoin : front.getLast? ≠ some '\\')
    (hopen : front.length < disabledLength indent skip depth (front ++ ['\n'])) :
    ∃ inner, ∀ more, disabledLength indent skip depth (front ++ '\n' :: more) =
      front.length + 1 + disabledLength true 0 inner more := by
  induction front generalizing indent skip depth with
  | nil =>
    obtain rfl : skip = 0 := Nat.le_zero.mp hskip
    exact ⟨depth, fun more => by simp [disabledLength]⟩
  | cons c front ih =>
    have hlast : front.getLast? ≠ some '\\' := by
      cases front with
      | nil => simp
      | cons d front => simpa using hjoin
    have hstep : ∀ {indent skip depth}, skip ≤ front.length →
        (c :: front).length < 1 + disabledLength indent skip depth (front ++ ['\n']) →
        ∃ inner, ∀ more, 1 + disabledLength indent skip depth (front ++ '\n' :: more) =
          (c :: front).length + 1 + disabledLength true 0 inner more := by
      intro indent skip depth hskip hopen
      rw [List.length_cons] at hopen
      have hless : front.length < disabledLength indent skip depth (front ++ ['\n']) := by omega
      obtain ⟨inner, hinner⟩ := ih hskip hlast hless
      refine ⟨inner, fun more => ?_⟩
      rw [hinner, List.length_cons]
      omega
    cases skip with
    | succ skip => exact hstep (Nat.le_of_succ_le_succ hskip) hopen
    | zero =>
      simp only [List.cons_append, disabledLength] at hopen ⊢
      by_cases hnewline : c = '\n'
      · simp only [if_pos hnewline] at hopen ⊢
        exact hstep (Nat.zero_le _) hopen
      simp only [if_neg hnewline] at hopen ⊢
      by_cases hindent : (indent && (c == ' ' || c == '\t')) = true
      · simp only [if_pos hindent] at hopen ⊢
        exact hstep (Nat.zero_le _) hopen
      simp only [if_neg hindent] at hopen ⊢
      by_cases hmark : (indent && c == '#') = true
      · simp only [if_pos hmark] at hopen ⊢
        -- The directive ends with its line, so that it is the same whatever comes behind.
        have hlength := @length_directiveLine_of_line (c :: front) false hjoin (by simp)
        have hline : ∀ more, directiveLine false (c :: (front ++ '\n' :: more)) =
            directiveLine false (c :: (front ++ ['\n'])) := by
          intro more
          have hsame := @directiveLine_congr false (c :: front ++ ['\n']) []
            (by simpa using Nat.lt_succ_of_le (hlength [])) more
          simpa using hsame
        simp only [hline]
        have hshort : (directiveLine false (c :: (front ++ ['\n']))).length ≤ front.length + 1 :=
          hlength []
        cases hdepth : depthBehind
            (directiveName (directiveLine false (c :: (front ++ ['\n']))).text) depth with
        | none =>
          simp only [hdepth, List.length_cons] at hopen
          omega
        | some inner =>
          simp only [hdepth] at hopen ⊢
          exact hstep (by omega) hopen
      · simp only [if_neg hmark] at hopen ⊢
        exact hstep (Nat.zero_le _) hopen

/-! ## The tokens of a text -/

/-- The tokens of a text, and what the text leaves open. -/
def tokensOf (cs : List Char) : List Token × Option Unclosed :=
  ((cut 0 cs).1.filterMap (·.content.token?), (cut 0 cs).2)

theorem tokensOf_of_ok {cs behind : List Char} {segment : Segment}
    (h : first c cs = .ok segment) (htext : c :: cs = segment.source ++ behind) :
    tokensOf (c :: cs) =
      (segment.content.token?.toList ++ (tokensOf behind).1, (tokensOf behind).2) := by
  rw [tokensOf, cut_of_ok h htext, List.filterMap_cons]
  cases segment.content.token? <;> rfl

theorem tokensOf_newline (cs : List Char) : tokensOf ('\n' :: cs) = tokensOf cs :=
  @tokensOf_of_ok '\n' cs cs ⟨['\n'], .newline⟩ rfl rfl

/-- A directive that disables lines has no token, and the text goes on behind the region. -/
theorem tokensOf_disabling {cs : List Char} {line : DirectiveLine}
    (hline : directiveLine false ('#' :: cs) = line) (hdisables : disables line.text = true) :
    tokensOf ('#' :: cs) = tokensOf (('#' :: cs).drop
      (line.length + disabledLength false 0 0 (('#' :: cs).drop line.length))) := by
  have hfirst : first '#' cs = .ok (directive ('#' :: cs)) := rfl
  rw [directive, hline] at hfirst
  simp only [hdisables, if_true] at hfirst
  rw [tokensOf_of_ok hfirst (List.take_append_drop _ _).symm]
  rfl

/-- Lines from `#if 0` up to the directive that closes them have no token. -/
theorem tokensOf_region {lines : List String} (h : Conditionals false lines)
    (hlines : Unjoined lines) {closing : List Char} (hbreak : '\n' ∉ closing)
    (hjoin : closing.getLast? ≠ some '\\') (hcloses : depthBehindLine closing 0 = none)
    (rest : List Char) :
    tokensOf ("#if 0\n".toList ++ (textOf lines ++ (closing ++ '\n' :: rest))) =
      tokensOf rest := by
  let region := textOf lines ++ (closing ++ '\n' :: rest)
  have htext : "#if 0\n".toList ++ region = '#' :: ("if 0".toList ++ '\n' :: region) := rfl
  have hline : directiveLine false ('#' :: ("if 0".toList ++ '\n' :: region)) =
      ⟨"#if 0".toList, 5⟩ := by
    simp [directiveLine]
  have hlength : disabledLength false 0 0 ('\n' :: region) =
      (textOf lines).length + closing.length + 1 := by
    have hinside : false = true → 0 < 0 := fun h => absurd h Bool.false_ne_true
    rw [disabledLength, if_pos rfl, disabledLength_of_conditionals h hlines hinside,
      disabledLength_line hbreak (fun _ => hjoin), hcloses]
    exact Nat.add_comm ..
  have hdrop : ('#' :: ("if 0".toList ++ '\n' :: region)).drop 5 = '\n' :: region := rfl
  have hbehind : ('\n' :: region).drop ((textOf lines).length + closing.length + 1) =
      '\n' :: rest := by
    have hregion : region = (textOf lines ++ closing) ++ '\n' :: rest :=
      (List.append_assoc ..).symm
    rw [List.drop_succ_cons, ← List.length_append, hregion]
    exact List.drop_left
  rw [htext, tokensOf_disabling hline (by decide)]
  simp only [hdrop, hlength]
  rw [← List.drop_drop, hdrop, hbehind, tokensOf_newline]

/-- The lines from `#if 0` to `#endif` are nested conditionals themselves. -/
theorem Conditionals.region {lines : List String} (h : Conditionals true lines) :
    Conditionals false ("#if 0" :: (lines ++ ["#endif"])) := by
  have hopener : directiveOf? "#if 0".toList = some "if" := by decide
  have hcloser : directiveOf? "#endif".toList = some "endif" := by decide
  exact .group hopener (by decide) h hcloser .nil

/-! ## Texts behind whole lines -/

/-- A literal ends with its quote. -/
theorem getLast?_quotedTail {quote : Char} {escaped : Bool} {cs tail : List Char}
    (h : quotedTail quote escaped cs = some tail) : tail.getLast? = some quote := by
  induction cs generalizing escaped tail with
  | nil => cases escaped <;> cases h
  | cons c cs ih =>
    have hcons : ∀ {escaped : Bool},
        (quotedTail quote escaped cs).map (c :: ·) = some tail → tail.getLast? = some quote := by
      intro escaped h
      obtain ⟨inner, hinner, rfl⟩ := Option.map_eq_some_iff.mp h
      simp [List.getLast?_cons, ih hinner]
    cases escaped with
    | true => exact hcons h
    | false =>
      rw [quotedTail] at h
      split at h
      · cases h
      split at h
      · next hquote =>
        cases h
        simp [hquote]
      · exact hcons h

/-- A literal ends with its quote. -/
theorem FrontToken.getLast?_of_quotes {kind : String → Token} (hquotes : Quotes c kind)
    {cs source : List Char} {t : Token} (h : FrontToken c cs source t) :
    source.getLast? = some c := by
  cases h with
  | literal _ htail => simp [List.getLast?_cons, getLast?_quotedTail htail]
  | number hstart => cases hquotes <;> cases hstart
  | word hstart => cases hquotes <;> cases hstart
  | mark hmark => cases hquotes <;> cases hmark
  | operator hnone => exact absurd hquotes (hnone kind)

/-- A token does not end with a line break. -/
theorem getLast?_of_token {cs source : List Char} {t : Token}
    (h : first c cs = .ok ⟨source, .token t⟩) : source.getLast? ≠ some '\n' := by
  intro hlast
  obtain ⟨hbegins, htoken⟩ := beginsToken_of_first h
  have hquotes : ∀ kind, ¬Quotes c kind := by
    intro kind hkind
    rw [htoken.getLast?_of_quotes hkind] at hlast
    exact hbegins.newline (Option.some.inj hlast)
  obtain ⟨front, rfl⟩ := List.getLast?_eq_some_iff.mp hlast
  obtain ⟨⟨behind, htext⟩, -⟩ := htoken.covers
  cases front with
  | nil => exact hbegins.newline (List.cons.inj htext).1.symm
  | cons d front =>
    simp only [List.cons_append, List.append_assoc, List.nil_append, List.cons.injEq] at htext
    obtain ⟨rfl, rfl⟩ := htext
    have hfront := htoken.of_append behind (by decide) (.inl hquotes)
    have hlength := hfront.covers.piece.length_le
    simp only [List.cons_append, List.length_cons, List.length_append] at hlength
    omega

/-- A segment that holds the line break at the end of a line is the line break, joins the line to
the next one, or is a directive. -/
theorem cases_of_line_end {cs : List Char} {segment : Segment} (h : first c cs = .ok segment)
    (hend : segment.source = front ++ ['\n']) :
    segment = ⟨['\n'], .newline⟩ ∨ segment = ⟨['\\', '\n'], .joinedLine⟩ ∨ c = '#' := by
  obtain ⟨⟨behind, htext⟩, -⟩ := covers_first h
  have hlast : segment.source.getLast? = some '\n' := by simp [hend]
  cases stretch_first h htext.symm with
  | @token t behind hsource hheader => exact absurd hlast (getLast?_of_token h)
  | @lineComment body behind hbody hends =>
    rw [List.getLast?_cons, List.getLast?_cons] at hlast
    have hmem : '\n' ∈ body.toList := by
      cases hbodyLast : body.toList.getLast? with
      | none => simp [hbodyLast] at hlast
      | some d =>
        obtain rfl : d = '\n' := by simpa [hbodyLast] using hlast
        exact List.mem_of_getLast? hbodyLast
    exact absurd hmem hbody
  | blockComment hbody => simp [List.getLast?_cons, List.getLast?_append] at hlast
  | newline => exact .inl rfl
  | @blank d behind hd =>
    obtain rfl : d = '\n' := by simpa using hlast
    exact absurd hd (by decide)
  | joinedLine => exact .inr (.inl rfl)
  | @directive line behind included hline hdisables hincluded =>
    refine .inr (.inr ?_)
    obtain ⟨rest, rfl⟩ := List.head?_eq_some_iff.mp hline.begins
    exact (List.cons.inj htext).1.symm
  | @disabling line region behind hline hdisables hregion =>
    refine .inr (.inr ?_)
    obtain ⟨rest, rfl⟩ := List.head?_eq_some_iff.mp hline.begins
    exact (List.cons.inj htext).1.symm

/-- A directive with which whole lines end leaves a disabled region open behind them, and what comes
there is inside of the region. -/
theorem exists_tokensOf_directive {cs : List Char} (hcs : '#' :: cs = front ++ ['\n'])
    (hjoin : front.getLast? ≠ some '\\') (hwhole : (directive ('#' :: cs)).source = '#' :: cs) :
    ∃ depth, ∀ more, tokensOf ('#' :: cs ++ more) = tokensOf (behindRegion (some depth) more) := by
  have hlength : (directiveLine false ('#' :: cs)).length ≤ front.length := by
    rw [hcs]
    exact length_directiveLine_of_line hjoin (fun h => absurd h Bool.false_ne_true) []
  have hsize : ('#' :: cs).length = front.length + 1 := by rw [hcs, List.length_append]; rfl
  have hline : ∀ more, directiveLine false ('#' :: (cs ++ more)) =
      directiveLine false ('#' :: cs) := by
    intro more
    have hless : (directiveLine false ('#' :: cs ++ [])).length < ('#' :: cs).length := by
      rw [List.append_nil]
      omega
    have hsame := directiveLine_congr hless more
    rwa [List.append_nil] at hsame
  have hsource := congrArg List.length hwhole
  rw [hsize, directive] at hsource
  generalize directiveLine false ('#' :: cs) = line at hlength hline hsource
  by_cases hdisables : disables line.text = true
  · let inner := front.drop line.length
    have hsplit : ∀ more : List Char,
        ('#' :: cs ++ more).drop line.length = inner ++ '\n' :: more := by
      intro more
      rw [hcs, List.append_assoc, List.drop_append_of_le_length hlength]
      rfl
    have hinner : inner.length = front.length - line.length := List.length_drop
    have hlast : inner.getLast? ≠ some '\\' := by
      rw [List.getLast?_drop]
      split
      · simp
      · exact hjoin
    have hopen : inner.length < disabledLength false 0 0 (inner ++ ['\n']) := by
      have hnone := hsplit []
      rw [List.append_nil] at hnone
      simp only [if_pos hdisables, List.length_take, hnone] at hsource
      omega
    obtain ⟨depth, hdepth⟩ := exists_depth_behind (Nat.zero_le _) hlast hopen
    refine ⟨depth, fun more => ?_⟩
    have hend : ('#' :: cs ++ more).drop (front.length + 1) = more := by
      rw [← hsize]
      exact List.drop_left
    rw [List.cons_append, tokensOf_disabling (hline more) hdisables, ← List.cons_append, hsplit,
      hdepth, hinner]
    have hsum : line.length + (front.length - line.length + 1 +
        disabledLength true 0 depth more) =
        front.length + 1 + disabledLength true 0 depth more := by omega
    rw [hsum, ← List.drop_drop, hend]
    rfl
  · simp only [if_neg hdisables, List.length_take] at hsource
    omega

/-- Behind whole lines a text goes on as if it stood alone, or inside of a disabled region that the
lines leave open. -/
theorem exists_tokensOf_append {cs : List Char} (hclosed : (cut 0 cs).2 = none)
    (hcs : cs = front ++ ['\n']) (hjoin : front.getLast? ≠ some '\\' ∨ '#' ∉ front) :
    ∃ tokens region, ('#' ∉ front → region = none) ∧ ∀ more, tokensOf (cs ++ more) =
      (tokens ++ (tokensOf (behindRegion region more)).1,
        (tokensOf (behindRegion region more)).2) := by
  induction cs using cut_induction generalizing front with
  | nil => simp at hcs
  | unclosed c cs unclosed hfirst =>
    rw [cut_of_error hfirst] at hclosed
    cases hclosed
  | segment c cs segment behind hfirst htext ih =>
    rcases List.eq_nil_or_concat behind with rfl | ⟨front', d, rfl⟩
    · -- The last segment: a line break, a joined line, or a directive with an open region.
      rw [List.append_nil] at htext
      have hend : segment.source = front ++ ['\n'] := by rw [← htext, hcs]
      rcases cases_of_line_end hfirst hend with rfl | rfl | rfl
      · obtain ⟨rfl, rfl⟩ := List.cons.inj htext
        exact ⟨[], none, fun _ => rfl, fun more => tokensOf_newline more⟩
      · obtain ⟨rfl, rfl⟩ := List.cons.inj htext
        exact ⟨[], none, fun _ => rfl,
          fun more => @tokensOf_of_ok '\\' ('\n' :: more) more ⟨['\\', '\n'], .joinedLine⟩ rfl rfl⟩
      · have hmark : '#' ∈ front := by
          cases front with
          | nil => cases hcs
          | cons d front =>
            obtain ⟨rfl, -⟩ := List.cons.inj hcs
            exact List.mem_cons_self
        have hwhole : (directive ('#' :: cs)).source = '#' :: cs := by
          cases hfirst
          exact htext.symm
        obtain ⟨depth, hdepth⟩ := exists_tokensOf_directive hcs
          (hjoin.resolve_right (absurd hmark)) hwhole
        exact ⟨[], some depth, absurd hmark, hdepth⟩
    · rw [List.concat_eq_append] at *
      have hsplit : segment.source ++ front' ++ [d] = front ++ ['\n'] := by
        rw [List.append_assoc, ← htext, hcs]
      obtain ⟨rfl, hd⟩ := List.append_inj' hsplit rfl
      obtain rfl : d = '\n' := List.head_eq_of_cons_eq hd
      have hbehind : (cut 0 (front' ++ ['\n'])).2 = none := by
        rw [cut_of_ok hfirst htext] at hclosed
        exact hclosed
      have hjoin' : front'.getLast? ≠ some '\\' ∨ '#' ∉ front' := by
        refine hjoin.imp (fun hlast => ?_) fun hmark hmem => hmark (List.mem_append_right _ hmem)
        cases hfront : front' with
        | nil => simp
        | cons e rest => simpa [hfront, List.getLast?_append] using hlast
      obtain ⟨tokens, region, hregion, hrest⟩ := ih hbehind rfl hjoin'
      refine ⟨segment.content.token?.toList ++ tokens, region, fun hmark =>
        hregion fun hmem => hmark (List.mem_append_right _ hmem), fun more => ?_⟩
      obtain ⟨e, source, hsource⟩ := List.exists_cons_of_ne_nil (covers_first hfirst).nonempty
      rw [hsource, List.cons_append, List.cons.injEq] at htext
      obtain ⟨rfl, rfl⟩ := htext
      have hfirst' : first c (source ++ front' ++ '\n' :: more) = .ok segment := by
        rw [← List.append_assoc] at hfirst
        exact first_of_line hfirst (by simp [hsource]) more
      have htext : c :: (source ++ front' ++ '\n' :: more) =
          segment.source ++ (front' ++ ['\n'] ++ more) := by
        simp [hsource]
      have hwhole : c :: (source ++ (front' ++ ['\n'])) ++ more =
          c :: (source ++ front' ++ '\n' :: more) := by simp
      rw [hwhole, tokensOf_of_ok hfirst' htext, hrest, List.append_assoc]

/-! ## Regions in texts -/

theorem Conditionals.inside {inside : Bool} {lines : List String} (h : Conditionals inside lines) :
    Conditionals true lines := by
  induction h with
  | nil => exact .nil
  | line hname _ ih => exact .line hname ih
  | branch hname hbranch _ ih => exact .branch hname hbranch ih
  | group hopener hopens _ hcloser _ ihinner ih => exact .group hopener hopens ihinner hcloser ih

theorem Conditionals.append {inside : Bool} {lines more : List String}
    (h : Conditionals inside lines) (hmore : Conditionals true more) :
    Conditionals true (lines ++ more) := by
  induction h with
  | nil => exact hmore
  | line hname _ ih => exact .line hname ih
  | branch hname hbranch _ ih => exact .branch hname hbranch ih
  | @group _ opener closer inner lines name hopener hopens hinner hcloser _ _ ih =>
    rw [List.cons_append, List.append_assoc, List.cons_append]
    exact .group hopener hopens hinner hcloser ih

theorem Unjoined.append {lines more : List String} (h : Unjoined lines) (hmore : Unjoined more) :
    Unjoined (lines ++ more) :=
  fun line hline => (List.mem_append.mp hline).elim (h line) (hmore line)

theorem directiveOf?_of_not_mem {line : List Char} (h : '#' ∉ line) :
    directiveOf? line = none := by
  unfold directiveOf?
  split
  · next rest hrest =>
    have hmem : '#' ∈ line.dropWhile isIndent := by simp [hrest]
    exact absurd ((List.dropWhile_sublist _).mem hmem) h
  · rfl

/-- Whole lines without the mark of a directive are lines without directives. -/
theorem exists_lines (front : List Char) (hmark : '#' ∉ front) : ∃ lines,
    textOf lines = front ++ ['\n'] ∧ Unjoined lines ∧ ∀ inside, Conditionals inside lines := by
  suffices h : ∃ lines, textOf lines = front ++ ['\n'] ∧
      ∀ line ∈ lines, '\n' ∉ line.toList ∧ '#' ∉ line.toList by
    obtain ⟨lines, htext, hlines⟩ := h
    have hnone : ∀ line ∈ lines, directiveOf? line.toList = none := fun line hline =>
      directiveOf?_of_not_mem (hlines line hline).2
    refine ⟨lines, htext, fun line hline => ⟨(hlines line hline).1, ?_⟩, fun inside => ?_⟩
    · simp [hnone line hline]
    · clear htext hlines
      induction lines with
      | nil => exact .nil
      | cons line lines ih =>
        have hname := hnone line List.mem_cons_self
        exact .line (by simp [hname]) (ih fun other hother => hnone other (.tail _ hother))
  induction front with
  | nil => exact ⟨[""], rfl, by simp⟩
  | cons c front ih =>
    obtain ⟨lines, htext, hlines⟩ := ih fun hmem => hmark (List.mem_cons_of_mem _ hmem)
    have hc : '#' ≠ c := fun h => hmark (h ▸ List.mem_cons_self)
    by_cases hbreak : c = '\n'
    · exact ⟨"" :: lines, by simp [← htext, hbreak, textOf], by simpa using hlines⟩
    cases lines with
    | nil => simp [textOf] at htext
    | cons line lines =>
      refine ⟨String.ofList (c :: line.toList) :: lines, ?_, ?_⟩
      · rw [List.cons_append, ← htext]
        simp [textOf]
      · simpa [Ne.symm hbreak, hc] using hlines

/-- A disabled region makes no difference to the text behind it, be it read or inside of a disabled
region itself. -/
theorem tokensOf_behindRegion_endif {lines : List String} (hlines : Unjoined lines)
    (hnested : Conditionals false lines) (region : Option Nat) (post : List Char) :
    tokensOf (behindRegion region
        ("#if 0\n".toList ++ (textOf lines ++ ("#endif".toList ++ '\n' :: post)))) =
      tokensOf (behindRegion region post) := by
  cases region with
  | none => exact tokensOf_region hnested hlines (by decide) (by decide) (by decide) post
  | some depth =>
    have hedge : Unjoined ["#if 0"] ∧ Unjoined ["#endif"] := by
      constructor <;> simp [Unjoined]
    have htext : "#if 0\n".toList ++ (textOf lines ++ ("#endif".toList ++ '\n' :: post)) =
        textOf ("#if 0" :: (lines ++ ["#endif"])) ++ post := by
      simp [textOf]
    rw [htext, behindRegion_textOf hnested.inside.region
      (hedge.1.append (hlines.append hedge.2))]

/-- Of a disabled region with an `#else` the lines behind the `#else` are left. -/
theorem tokensOf_behindRegion_else {lines : List String} (hlines : Unjoined lines)
    (hnested : Conditionals false lines) {middle : List Char}
    (hmiddle : (cut 0 (middle ++ ['\n'])).2 = none) (hmark : '#' ∉ middle) (region : Option Nat)
    (post : List Char) :
    tokensOf (behindRegion region ("#if 0\n".toList ++ (textOf lines ++ ("#else".toList ++
        '\n' :: (middle ++ ['\n'] ++ ("#endif".toList ++ '\n' :: post)))))) =
      tokensOf (behindRegion region (middle ++ ['\n'] ++ post)) := by
  cases region with
  | none =>
    obtain ⟨tokens, region, hnone, htokens⟩ :=
      exists_tokensOf_append hmiddle rfl (.inr hmark)
    obtain rfl := hnone hmark
    have hline : directiveLine false ("#endif".toList ++ '\n' :: post) =
        ⟨"#endif".toList, 6⟩ := by
      simp [directiveLine]
    have hendif : tokensOf ("#endif".toList ++ '\n' :: post) = tokensOf post := by
      have hfirst : first '#' ("endif".toList ++ '\n' :: post) =
          .ok (directive ("#endif".toList ++ '\n' :: post)) := rfl
      rw [directive, hline, if_neg (by decide)] at hfirst
      have hnewline := @tokensOf_of_ok '#' _ ('\n' :: post) _ hfirst rfl
      rw [tokensOf_newline] at hnewline
      exact hnewline
    have hregion := @tokensOf_region _ hnested hlines "#else".toList (by decide) (by decide)
      (by decide) (middle ++ ['\n'] ++ ("#endif".toList ++ '\n' :: post))
    rw [behindRegion, behindRegion, hregion, htokens, htokens, behindRegion, behindRegion, hendif]
  | some depth =>
    obtain ⟨more, hmore, hunjoined, hplain⟩ := exists_lines middle hmark
    have hedge : Unjoined ["#if 0"] ∧ Unjoined ["#else"] ∧ Unjoined ["#endif"] := by
      refine ⟨?_, ?_, ?_⟩ <;> simp [Unjoined]
    have hbranch : Conditionals true ("#else" :: more) :=
      .branch (by decide) (.inl rfl) (hplain true)
    have htext : "#if 0\n".toList ++ (textOf lines ++ ("#else".toList ++
        '\n' :: (textOf more ++ ("#endif".toList ++ '\n' :: post)))) =
        textOf ("#if 0" :: ((lines ++ "#else" :: more) ++ ["#endif"])) ++ post := by
      simp [textOf]
    have hblock : Unjoined ("#if 0" :: ((lines ++ "#else" :: more) ++ ["#endif"])) :=
      hedge.1.append ((hlines.append (hedge.2.1.append hunjoined)).append hedge.2.2)
    rw [← hmore, htext, behindRegion_textOf (hnested.append hbranch).region hblock,
      behindRegion_textOf (hplain false) hunjoined]

end Segment

namespace Lexed

/-- The tokens that a text is read into, or what it leaves open. -/
def reading (text : String) : Except Unclosed (List Token) :=
  match ofText text with
  | .ok lexed => .ok lexed.tokens
  | .error fault => .error fault.cause

theorem reading_eq (text : String) : reading text =
    match Segment.tokensOf text.toList with
    | (tokens, none) => .ok (tokens ++ [.endOfFile])
    | (_, some cause) => .error cause := by
  unfold reading ofText ofChars Segment.tokensOf
  dsimp only
  cases (Segment.cut 0 text.toList).2 with
  | none =>
    dsimp only
    rw [tokens, tokens_ofSegments]
  | some cause => rfl

theorem reading_congr {text other : String}
    (h : Segment.tokensOf text.toList = Segment.tokensOf other.toList) :
    reading text = reading other := by
  rw [reading_eq, reading_eq, h]

open Segment (Unjoined Conditionals textOf)

/-- A disabled region vanishes: behind whole lines, with nested conditionals and any other lines in
it, its text is read as the text without it, and with an `#else` as the lines behind that. -/
theorem reading_without_region {front : String} {lexed : Lexed} {lines : List String}
    (hfront : ofText (front ++ "\n") = .ok lexed) (hjoin : front.toList.getLast? ≠ some '\\')
    (hlines : Unjoined lines) (hnested : Conditionals false lines) :
    (∀ post, reading (front ++ "\n" ++
        ("#if 0\n" ++ String.ofList (textOf lines) ++ "#endif\n") ++ post) =
      reading (front ++ "\n" ++ post)) ∧
    ∀ (middle : String) (read : Lexed) (post : String), ofText (middle ++ "\n") = .ok read →
      '#' ∉ middle.toList →
      reading (front ++ "\n" ++ ("#if 0\n" ++ String.ofList (textOf lines) ++ "#else\n" ++
          (middle ++ "\n") ++ "#endif\n") ++ post) =
        reading (front ++ "\n" ++ (middle ++ "\n") ++ post) := by
  have hclosed := (ofText_eq_ok_iff.mp hfront).1
  obtain ⟨tokens, region, -, hbehind⟩ :=
    Segment.exists_tokensOf_append hclosed (String.toList_append ..) (.inl hjoin)
  have hendif : ∀ post : List Char,
      "#endif\n".toList ++ post = "#endif".toList ++ '\n' :: post := fun _ => rfl
  simp only [String.toList_append, List.append_assoc] at hbehind
  constructor
  · intro post
    have hregion := Segment.tokensOf_behindRegion_endif hlines hnested region post.toList
    apply reading_congr
    simp only [String.toList_append, String.toList_ofList, List.append_assoc, hendif]
    rw [hbehind, hbehind, hregion]
  · intro middle read post hmiddle hmark
    have hmiddle' : (Segment.cut 0 (middle.toList ++ ['\n'])).2 = none := by
      have hread := (ofText_eq_ok_iff.mp hmiddle).1
      rwa [String.toList_append] at hread
    have hregion :=
      Segment.tokensOf_behindRegion_else hlines hnested hmiddle' hmark region post.toList
    have helse : ∀ rest : List Char, "#else\n".toList ++ rest = "#else".toList ++ '\n' :: rest :=
      fun _ => rfl
    have hbreak : "\n".toList = ['\n'] := rfl
    apply reading_congr
    simp only [List.append_assoc] at hregion
    simp only [String.toList_append, String.toList_ofList, List.append_assoc, List.cons_append,
      hendif, helse]
    rw [hbehind, hbehind, hbreak, hregion]

/-- A string and a comment that are not closed stand in a region with a conditional of its own, and
a line that ends in a backslash behind its `#else`. -/
theorem reading_without_region_of_open_comment :
    let lines := ["int \"x", "# ifdef Y // z", " #else", "/* open", "\t#endif", "#define Z '"]
    Unjoined lines ∧ Conditionals false lines ∧
    reading ("int a; // b" ++ "\n" ++ ("#if 0\n" ++ String.ofList (textOf lines) ++ "#else\n" ++
        ("int c; \\" ++ "\n") ++ "#endif\n") ++ "int d;") =
      .ok [.builtin "int", .identifier "a", .semicolon, .builtin "int", .identifier "c", .semicolon,
        .builtin "int", .identifier "d", .semicolon, .endOfFile] := by
  intro lines
  have hlines : Unjoined lines := by
    unfold Unjoined
    decide +kernel
  have hnested : Conditionals false lines := by
    have hopener : Segment.directiveOf? "# ifdef Y // z".toList = some "ifdef" := by decide +kernel
    have helse : Segment.directiveOf? " #else".toList = some "else" := by decide +kernel
    have hinner : Conditionals true [" #else", "/* open"] :=
      .branch helse (.inl rfl) (.line (by decide +kernel) .nil)
    have hbehind : Conditionals false ["#define Z '"] := .line (by decide +kernel) .nil
    exact .line (by decide +kernel)
      (.group hopener (by decide) hinner (by decide +kernel) hbehind)
  obtain ⟨lexed, hfront⟩ : ∃ lexed, ofText ("int a; // b" ++ "\n") = .ok lexed := ⟨_, rfl⟩
  obtain ⟨read, hmiddle⟩ : ∃ read, ofText ("int c; \\" ++ "\n") = .ok read := ⟨_, rfl⟩
  have hregion := (reading_without_region hfront (by decide) hlines hnested).2
    "int c; \\" read "int d;" hmiddle (by decide)
  refine ⟨hlines, hnested, hregion.trans ?_⟩
  decide +kernel

end Lexed

end RemoteCalls
