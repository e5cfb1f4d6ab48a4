import Mathlib.Data.List.Chain
import Mathlib.Data.List.TakeWhile
import RemoteCalls.Proofs.Token.Sizes

/-!
# What the segments of a text are

Each segment is a token in its spelling, a comment between its delimiters, one blank or line break,
a joined line, or a directive with the region that it disables. The kinds are described by their
characters and by what may stand behind them, not by the way in which they are found.
-/

namespace RemoteCalls.Segment

/-! ## Directives -/

/-- Nothing is left of the line. -/
def EndsLine (behind : List Char) : Prop := ∀ c ∈ behind.head?, c = '\n'

/-- The line of a directive in front of a text: it goes on to the end of the line, and it has only
line breaks in it that stand behind a backslash. -/
structure DirectiveRow (line behind : List Char) : Prop where
  begins : line.head? = some '#'
  joined : line.IsChain fun c d => d = '\n' → c = '\\'
  ends : EndsLine behind

/-- The front of a text up to its first line break. -/
theorem take_length_line (cs : List Char) :
    cs.take (cs.takeWhile (· ≠ '\n')).length = cs.takeWhile (· ≠ '\n') :=
  (List.prefix_iff_eq_take.mp (List.takeWhile_prefix _)).symm

theorem endsLine_drop_length_line (cs : List Char) :
    EndsLine (cs.drop (cs.takeWhile (· ≠ '\n')).length) := by
  induction cs with
  | nil => simp [EndsLine]
  | cons c cs ih =>
    by_cases hnewline : c = '\n'
    · simp [hnewline, EndsLine]
    · rw [List.takeWhile_cons_of_pos (by simpa using hnewline)]
      exact ih

theorem endsLine_of_eq {cs behind : List Char} (h : cs = cs.takeWhile (· ≠ '\n') ++ behind) :
    EndsLine behind := by
  have hdrop := congrArg (List.drop (cs.takeWhile (· ≠ '\n')).length) h
  rw [List.drop_left] at hdrop
  rw [← hdrop]
  exact endsLine_drop_length_line cs

theorem ne_newline_of_mem_line {cs : List Char} {c : Char} (h : c ∈ cs.takeWhile (· ≠ '\n')) :
    c ≠ '\n' := by
  simpa using List.mem_takeWhile_imp h

/-- The line of the directive at the front of a text is read as the same directive. -/
theorem directiveLine_take (joining : Bool) (cs : List Char) :
    directiveLine joining (cs.take (directiveLine joining cs).length) =
      directiveLine joining cs := by
  induction cs generalizing joining with
  | nil => simp
  | cons c cs ih =>
    cases joining with
    | true => simp [directiveLine, ih]
    | false =>
      by_cases hnewline : c = '\n'
      · simp [directiveLine, hnewline]
      by_cases hcomment : c = '/' ∧ cs.head? = some '/'
      · obtain ⟨rfl, hslash⟩ := hcomment
        obtain ⟨rest, rfl⟩ := List.head?_eq_some_iff.mp hslash
        have hagain : ∀ line : List Char, (∀ c ∈ line, c ≠ '\n') →
            line.takeWhile (· ≠ '\n') = line := fun line hline =>
          List.takeWhile_eq_self_iff.mpr fun c hc => decide_eq_true (hline c hc)
        have htail := take_length_line ('/' :: rest)
        rw [List.takeWhile_cons_of_pos (by decide)] at htail
        simp only [directiveLine, if_neg hnewline, List.head?_cons, true_and, if_true,
          Nat.add_comm 1, List.take_succ_cons]
        rw [List.takeWhile_cons_of_pos (by decide), htail]
        simp only [List.head?_cons, if_true]
        rw [List.takeWhile_cons_of_pos (by decide), hagain _ fun c hc => ne_newline_of_mem_line hc]
      · have hjoins : ∀ n, (c == '\\' && cs.head? == some '\n') = true → 0 < n →
            (c == '\\' && (cs.take n).head? == some '\n') = true := by
          intro n hjoins hn
          cases cs with
          | nil => simp at hjoins
          | cons d cs =>
            obtain ⟨m, rfl⟩ := Nat.exists_eq_succ_of_ne_zero (Nat.ne_of_gt hn)
            exact hjoins
        have hhead : ∀ n d, (cs.take n).head? = some d → cs.head? = some d := by
          intro n d hd
          cases n with
          | zero => cases hd
          | succ n =>
            cases cs with
            | nil => cases hd
            | cons e cs => exact hd
        simp only [directiveLine, if_neg hnewline, if_neg hcomment, List.take_succ_cons]
        rw [if_neg fun h => hcomment ⟨h.1, hhead _ _ h.2⟩]
        -- A backslash joins the lines of the piece just where it does in the text.
        have hsame : (c == '\\' && (cs.take (directiveLine (c == '\\' && cs.head? == some '\n')
            cs).length).head? == some '\n') = (c == '\\' && cs.head? == some '\n') := by
          cases hjoin : (c == '\\' && cs.head? == some '\n') with
          | true =>
            refine hjoins _ hjoin ?_
            cases cs with
            | nil => simp at hjoin
            | cons d cs => simp [directiveLine]
          | false =>
            rw [Bool.and_eq_false_iff] at hjoin ⊢
            refine hjoin.imp id fun hne => ?_
            rw [beq_eq_false_iff_ne] at hne ⊢
            exact fun h => hne (hhead _ _ h)
        rw [hsame, ih]

/-- Line breaks in a directive stand behind backslashes; `joining` says that one is next. -/
theorem isChain_directiveLine (joining : Bool) (last : Char) (cs : List Char)
    (hlast : joining = true → last = '\\') :
    (last :: cs.take (directiveLine joining cs).length).IsChain fun c d => d = '\n' → c = '\\' := by
  induction cs generalizing joining last with
  | nil => simp
  | cons c cs ih =>
    cases joining with
    | true =>
      simp only [directiveLine, List.take_succ_cons]
      exact List.isChain_cons_cons.mpr ⟨fun _ => hlast rfl, ih false c fun h => by cases h⟩
    | false =>
      by_cases hnewline : c = '\n'
      · simp [directiveLine, hnewline]
      by_cases hcomment : c = '/' ∧ cs.head? = some '/'
      · simp only [directiveLine, if_neg hnewline, if_pos hcomment, Nat.add_comm 1,
          List.take_succ_cons]
        rw [take_length_line]
        refine List.isChain_cons_cons.mpr ⟨fun h => absurd h hnewline, ?_⟩
        refine List.Pairwise.isChain (List.pairwise_cons.mpr ⟨fun d hd h => ?_, ?_⟩)
        · exact absurd h (ne_newline_of_mem_line hd)
        · refine List.pairwise_of_forall_mem_list fun _ _ d hd h => ?_
          exact absurd h (ne_newline_of_mem_line hd)
      · simp only [directiveLine, if_neg hnewline, if_neg hcomment, List.take_succ_cons]
        refine List.isChain_cons_cons.mpr ⟨fun h => absurd h hnewline, ih _ c fun hjoins => ?_⟩
        rw [Bool.and_eq_true, beq_iff_eq] at hjoins
        exact hjoins.1

/-- A directive goes on to the end of its line. -/
theorem endsLine_directiveLine (joining : Bool) (cs : List Char) :
    EndsLine (cs.drop (directiveLine joining cs).length) := by
  induction cs generalizing joining with
  | nil => simp [EndsLine]
  | cons c cs ih =>
    cases joining with
    | true => exact ih false
    | false =>
      by_cases hnewline : c = '\n'
      · simp [directiveLine, hnewline, EndsLine]
      by_cases hcomment : c = '/' ∧ cs.head? = some '/'
      · simp only [directiveLine, if_neg hnewline, if_pos hcomment, Nat.add_comm 1,
          List.drop_succ_cons]
        exact endsLine_drop_length_line cs
      · simp only [directiveLine, if_neg hnewline, if_neg hcomment, List.drop_succ_cons]
        exact ih _

/-- The line of a directive at the front of a text. -/
theorem directiveRow_take (cs : List Char) :
    DirectiveRow (('#' :: cs).take (directiveLine false ('#' :: cs)).length)
      (('#' :: cs).drop (directiveLine false ('#' :: cs)).length) := by
  refine ⟨?_, ?_, endsLine_directiveLine false _⟩
  · simp [directiveLine]
  · exact (isChain_directiveLine false '#' ('#' :: cs) fun h => by cases h).tail

/-! ## Disabled regions -/

/-- The names of the directives that end a disabled region. -/
def closingNames : List String := ["endif", "else", "elif"]

theorem mem_closingNames {name : String} {depth : Nat} (h : depthBehind name depth = none) :
    name ∈ closingNames := by
  unfold depthBehind at h
  split at h
  · cases h
  split at h
  · next hname => simp [closingNames, hname]
  split at h
  · next hname => rcases hname with rfl | rfl <;> decide
  · cases h

/-- A disabled region in front of a text: it ends with the line of the directive that ends it, or
where the text ends. -/
def DisabledRegion (region behind : List Char) : Prop :=
  behind = [] ∨ ∃ lines closing, region = lines ++ closing ∧ DirectiveRow closing behind ∧
    directiveName (directiveLine false closing).text ∈ closingNames

theorem DisabledRegion.cons {region behind : List Char} (h : DisabledRegion region behind)
    (c : Char) : DisabledRegion (c :: region) behind := by
  rcases h with hend | ⟨lines, closing, rfl, hrow, hname⟩
  · exact .inl hend
  · exact .inr ⟨c :: lines, closing, rfl, hrow, hname⟩

/-- A disabled region goes on to the directive that ends it. -/
theorem disabledRegion_take (indent : Bool) (skip depth : Nat) (cs : List Char) :
    DisabledRegion (cs.take (disabledLength indent skip depth cs))
      (cs.drop (disabledLength indent skip depth cs)) := by
  induction cs generalizing indent skip depth with
  | nil => exact .inl (by simp)
  | cons c cs ih =>
    have hstep : ∀ indent skip depth,
        DisabledRegion ((c :: cs).take (1 + disabledLength indent skip depth cs))
          ((c :: cs).drop (1 + disabledLength indent skip depth cs)) := by
      intro indent skip depth
      rw [Nat.add_comm 1, List.take_succ_cons, List.drop_succ_cons]
      exact (ih indent skip depth).cons c
    cases skip with
    | succ skip => exact hstep indent skip depth
    | zero =>
      unfold disabledLength
      split
      · exact hstep _ _ _
      split
      · exact hstep _ _ _
      split
      · next hhash =>
        obtain rfl : c = '#' := by simpa using And.right (Bool.and_eq_true_iff.mp hhash)
        dsimp only
        split
        · next hnone =>
          refine .inr ⟨[], ('#' :: cs).take (directiveLine false ('#' :: cs)).length, rfl,
            directiveRow_take cs, ?_⟩
          rw [directiveLine_take]
          exact mem_closingNames hnone
        · exact hstep _ _ _
      · exact hstep _ _ _

/-! ## Kinds of segments -/

/-- What a segment in front of a text can be. -/
inductive Stretch : Segment → List Char → Prop
  | token {t : Token} {behind : List Char} (hsource : t.text ≠ "")
      (hheader : ∀ header, t ≠ .inclusion header) : Stretch ⟨t.text.toList, .token t⟩ behind
  | lineComment {body : String} {behind : List Char} (hbody : '\n' ∉ body.toList)
      (hend : EndsLine behind) : Stretch ⟨'/' :: '/' :: body.toList, .comment body⟩ behind
  | blockComment {body : String} {behind : List Char} (hbody : ¬ ['*', '/'] <:+: body.toList) :
      Stretch ⟨'/' :: '*' :: (body.toList ++ ['*', '/']), .comment body⟩ behind
  | newline {behind : List Char} : Stretch ⟨['\n'], .newline⟩ behind
  | blank {c : Char} {behind : List Char} (hc : isSpace c = true) : Stretch ⟨[c], .blank⟩ behind
  | joinedLine {behind : List Char} : Stretch ⟨['\\', '\n'], .joinedLine⟩ behind
  | directive {line behind : List Char} {included : Option Inclusion}
      (hline : DirectiveRow line behind)
      (hdisables : disables (directiveLine false line).text = false)
      (hincluded : ∀ header ∈ included, directiveName (directiveLine false line).text = "include") :
      Stretch ⟨line, .directive included⟩ behind
  | disabling {line region behind : List Char} (hline : DirectiveRow line (region ++ behind))
      (hdisables : disables (directiveLine false line).text = true)
      (hregion : DisabledRegion region behind) : Stretch ⟨line ++ region, .directive none⟩ behind

/-- A block comment goes on up to the first mark that closes it. -/
theorem commentBody_of_not_infix {body : List Char} (h : ¬ ['*', '/'] <:+: body)
    (rest : List Char) : commentBody (body ++ '*' :: '/' :: rest) = some body := by
  induction body with
  | nil => rfl
  | cons c body ih =>
    have hopen : ¬ (c = '*' ∧ (body ++ '*' :: '/' :: rest).head? = some '/') := by
      rintro ⟨rfl, hslash⟩
      cases body with
      | nil => cases hslash
      | cons d body =>
        obtain rfl : d = '/' := Option.some.inj hslash
        exact h ⟨[], body, rfl⟩
    have hbody : ¬ ['*', '/'] <:+: body := fun hclose =>
      h (hclose.trans (List.suffix_cons c body).isInfix)
    rw [List.cons_append, commentBody, if_neg hopen, ih hbody]
    rfl

/-- A block comment that is closed is cut off with its marks. -/
theorem first_of_commentBody {body cs : List Char} (h : commentBody cs = some body) :
    first '/' ('*' :: cs) =
      .ok ⟨'/' :: '*' :: body ++ ['*', '/'], .comment (String.ofList body)⟩ := by
  simp [first, isSpace, h]

/-- A block comment that is not closed is left open. -/
theorem first_of_commentBody_eq_none {cs : List Char} (h : commentBody cs = none) :
    first '/' ('*' :: cs) = .error .comment := by
  simp [first, isSpace, h]

/-- The body of a block comment does not hold its closing mark. -/
theorem not_infix_of_commentBody {cs body : List Char} (h : commentBody cs = some body) :
    ¬ ['*', '/'] <:+: body := by
  induction cs generalizing body with
  | nil => cases h
  | cons c cs ih =>
    unfold commentBody at h
    split at h
    · cases h
      simp
    · next hopen =>
      obtain ⟨inner, hinner, rfl⟩ := Option.map_eq_some_iff.mp h
      rw [List.infix_cons_iff]
      rintro (⟨rest, hrest⟩ | hinfix)
      · obtain ⟨rfl, htail⟩ := List.cons.inj hrest
        obtain ⟨more, hmore⟩ := commentBody_piece hinner
        refine hopen ⟨rfl, ?_⟩
        rw [← hmore, ← htail]
        rfl
      · exact ih hinner hinfix

/-- The directive at the front of a text is a directive with what it disables. -/
theorem stretch_directive {cs behind : List Char}
    (htext : '#' :: cs = (Segment.directive ('#' :: cs)).source ++ behind) :
    Stretch (Segment.directive ('#' :: cs)) behind := by
  have hrow := directiveRow_take cs
  have hsame := directiveLine_take false ('#' :: cs)
  simp only [Segment.directive] at htext ⊢
  split
  · next hdisables =>
    rw [if_pos hdisables] at htext
    dsimp only at htext
    have hbehind : behind = (('#' :: cs).drop (directiveLine false ('#' :: cs)).length).drop
        (disabledLength false 0 0 (('#' :: cs).drop (directiveLine false ('#' :: cs)).length)) := by
      rw [List.drop_drop]
      refine List.append_cancel_left (htext.symm.trans ?_)
      exact (List.take_append_drop _ _).symm
    rw [List.take_add]
    refine .disabling ?_ ?_ ?_
    · rw [hbehind, List.take_append_drop]
      exact hrow
    · rw [hsame]
      exact hdisables
    · rw [hbehind]
      exact disabledRegion_take false 0 0 _
  · next hdisables =>
    rw [if_neg hdisables] at htext
    dsimp only at htext
    have hbehind : behind = ('#' :: cs).drop (directiveLine false ('#' :: cs)).length :=
      List.append_cancel_left (htext.symm.trans (List.take_append_drop _ _).symm)
    refine .directive (hbehind ▸ hrow) ?_ ?_
    · rw [hsame]
      simpa using hdisables
    · rw [hsame]
      intro header hheader
      by_contra hname
      rw [directiveName] at hname
      rw [if_neg hname] at hheader
      cases hheader

/-- A token is spelled by its segment, and it is no include directive. -/
theorem stretch_token {c : Char} {cs source behind : List Char} {t : Token}
    (h : first c cs = .ok ⟨source, .token t⟩) : Stretch ⟨source, .token t⟩ behind := by
  have hsource : t.text.toList = source := toList_text_of_first h
  obtain ⟨hpiece, hnonempty⟩ := covers_first h
  have hbegins := (beginsToken_of_first h).1
  dsimp only at hpiece hnonempty
  rw [← hsource] at hpiece hnonempty ⊢
  refine .token (fun hempty => hnonempty (by rw [hempty]; rfl)) ?_
  rintro header rfl
  obtain ⟨spelled, hspelled⟩ := Lexeme.exists_toList_inclusion header
  obtain ⟨rest, hrest⟩ := hpiece
  rw [hspelled] at hrest
  exact hbegins.directive (List.cons.inj hrest).1.symm

/-- The first segment of a text is of one of the kinds. -/
theorem stretch_first {c : Char} {cs behind : List Char} {segment : Segment}
    (hfirst : first c cs = .ok segment) (htext : c :: cs = segment.source ++ behind) :
    Stretch segment behind := by
  cases frontSegment_of_first hfirst with
  | newline hc =>
    rw [hc]
    exact .newline
  | blank hspace => exact .blank hspace
  | joinedLine hc hhead =>
    rw [hc]
    exact .joinedLine
  | lineComment hc hhead =>
    subst hc
    obtain ⟨rest, rfl⟩ := List.head?_eq_some_iff.mp hhead
    rw [List.takeWhile_cons_of_pos (by decide)] at htext ⊢
    have hrest := (List.cons.inj (List.cons.inj htext).2).2
    have hline : (String.ofList (rest.takeWhile (· ≠ '\n'))).toList = rest.takeWhile (· ≠ '\n') :=
      String.toList_ofList
    have hstretch : Stretch ⟨_, .comment (String.ofList (rest.takeWhile (· ≠ '\n')))⟩ behind :=
      .lineComment (fun hmem => ne_newline_of_mem_line (hline ▸ hmem) rfl)
        (endsLine_of_eq hrest)
    rwa [hline] at hstretch
  | @blockComment body hc hhead hbody =>
    subst hc
    have hchars : (String.ofList body).toList = body := String.toList_ofList
    have hstretch : Stretch ⟨_, .comment (String.ofList body)⟩ behind :=
      .blockComment (hchars.symm ▸ not_infix_of_commentBody hbody)
    rwa [hchars] at hstretch
  | directive hc hdirective =>
    subst hc
    rw [← hdirective] at htext ⊢
    exact stretch_directive htext
  | token => exact stretch_token hfirst

end RemoteCalls.Segment
