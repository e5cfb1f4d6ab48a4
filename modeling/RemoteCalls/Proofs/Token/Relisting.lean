import RemoteCalls.Proofs.Token.Alike
import RemoteCalls.Proofs.Token.Arguments
import RemoteCalls.Proofs.Token.Joining
import RemoteCalls.Proofs.Token.Lists

/-!
# Arguments that are written again

The arguments of a row are the texts between its commas. Written with commas between them they are
read as the same arguments again, unless a directive stands in one of them.
-/

namespace RemoteCalls

namespace Lexeme

/-! ## The groups between the commas of a row -/

/-- Rows between commas, from inside of some groups on. Each but the last closes the groups that are
open. -/
inductive Items : (depth : Nat) → List (List Lexeme) → Prop
  | nil {depth : Nat} : Items depth []
  | last {depth behind : Nat} {item : List Lexeme}
      (hitem : Token.itemDepth depth (tokens item) = some behind) : Items depth [item]
  | cons {depth : Nat} {item : List Lexeme} {rest : List (List Lexeme)}
      (hitem : Token.itemDepth depth (tokens item) = some 0) (hrest : Items 0 rest) :
      Items depth (item :: rest)

theorem itemDepth_cons_of_not_comma {depth : Nat} {lexeme : Lexeme}
    (h : ¬ (depth = 0 ∧ lexeme.token = .comma)) (row : List Lexeme) :
    Token.itemDepth depth (tokens (lexeme :: row)) =
      Token.itemDepth (depthBehind depth lexeme.token) (tokens row) :=
  if_neg h

/-- A row is cut into such rows. -/
theorem items_commaGroups (depth : Nat) (row : List Lexeme) :
    Items depth (commaGroups depth row) := by
  induction row generalizing depth with
  | nil => exact .last rfl
  | cons lexeme row ih =>
    rw [commaGroups]
    split
    · next hcomma =>
      obtain ⟨rfl, -⟩ := hcomma
      exact .cons rfl (ih 0)
    next hcomma =>
    have hrest := ih (depthBehind depth lexeme.token)
    have hsame := itemDepth_cons_of_not_comma hcomma
    generalize commaGroups (depthBehind depth lexeme.token) row = groups at hrest
    cases hrest with
    | nil => exact .last (hsame [])
    | last hitem => exact .last ((hsame _).trans hitem)
    | cons hitem hrest => exact .cons ((hsame _).trans hitem) hrest

/-- Rows between commas are left if others are taken out. -/
theorem Items.filter {items : List (List Lexeme)} (h : Items 0 items) (p : List Lexeme → Bool) :
    Items 0 (items.filter p) := by
  induction items with
  | nil => exact .nil
  | cons item rest ih =>
    rw [List.filter_cons]
    cases h with
    | last hitem =>
      split
      · exact .last hitem
      · exact .nil
    | cons hitem hrest =>
      split
      · exact .cons hitem (ih hrest)
      · exact ih hrest

/-- The rows that a row is cut into stand in it, the first of them in front. -/
theorem exists_commaGroups (depth : Nat) (row : List Lexeme) :
    ∃ group groups, commaGroups depth row = group :: groups ∧ group <+: row ∧
      ∀ item ∈ group :: groups, item <:+: row := by
  induction row generalizing depth with
  | nil => exact ⟨[], [], rfl, List.nil_prefix, by simp⟩
  | cons lexeme row ih =>
    have hbehind : row <:+: lexeme :: row := (List.suffix_cons lexeme row).isInfix
    rw [commaGroups]
    split
    · obtain ⟨first, others, hsplit, -, hall⟩ := ih 0
      refine ⟨[], commaGroups 0 row, rfl, List.nil_prefix, ?_⟩
      rw [hsplit]
      exact List.forall_mem_cons.mpr ⟨List.nil_infix, fun item hitem =>
        (hall item hitem).trans hbehind⟩
    · obtain ⟨first, others, hsplit, hfirst, hall⟩ := ih (depthBehind depth lexeme.token)
      rw [hsplit]
      have hfront : lexeme :: first <+: lexeme :: row := List.cons_prefix_cons.mpr ⟨rfl, hfirst⟩
      exact ⟨lexeme :: first, others, rfl, hfront, List.forall_mem_cons.mpr ⟨hfront.isInfix,
        fun item hitem => (hall item (List.mem_cons_of_mem _ hitem)).trans hbehind⟩⟩

theorem infix_of_mem_commaGroups {depth : Nat} {row item : List Lexeme}
    (h : item ∈ commaGroups depth row) : item <:+: row := by
  obtain ⟨group, groups, hsplit, -, hall⟩ := exists_commaGroups depth row
  rw [hsplit] at h
  exact hall item h

/-! ## Rows with commas between them -/

/-- The segments of the texts of rows with commas between them. -/
def listSegments : List (List Lexeme) → List Segment
  | [] => []
  | [item] => segments item
  | item :: next :: rest =>
    segments item ++ ⟨[','], .token .comma⟩ :: ⟨[' '], .blank⟩ :: listSegments (next :: rest)

/-- The text of a row has neither comments nor directives in it. -/
theorem isBare_segments {row : List Lexeme} : ∀ segment ∈ segments row, segment.isBare = true := by
  induction row with
  | nil => exact fun segment hsegment => absurd hsegment List.not_mem_nil
  | cons lexeme rest ih =>
    intro segment hsegment
    cases rest with
    | nil =>
      rw [List.mem_singleton.mp hsegment]
      rfl
    | cons next rest =>
      rw [segments, List.cons_append] at hsegment
      rcases List.mem_cons.mp hsegment with rfl | hsegment
      · rfl
      rcases List.mem_append.mp hsegment with hgap | hsegment
      · split at hgap
        · cases hgap
        · rw [List.mem_singleton.mp hgap]
          rfl
      · exact ih segment hsegment

theorem isBare_listSegments {items : List (List Lexeme)} :
    ∀ segment ∈ listSegments items, segment.isBare = true := by
  induction items with
  | nil => exact fun segment hsegment => absurd hsegment List.not_mem_nil
  | cons item rest ih =>
    intro segment hsegment
    cases rest with
    | nil => exact isBare_segments segment hsegment
    | cons next rest =>
      rw [listSegments] at hsegment
      rcases List.mem_append.mp hsegment with hsegment | hsegment
      · exact isBare_segments segment hsegment
      rcases List.mem_cons.mp hsegment with rfl | hsegment
      · rfl
      rcases List.mem_cons.mp hsegment with rfl | hsegment
      · rfl
      · exact ih segment hsegment

/-- A row that can be written again: it is not empty, and no include directive is in it. -/
structure Rewritable (row : List Lexeme) : Prop where
  legible : Legible row
  plain : TokensOnly row
  ne_nil : row ≠ []

variable {items : List (List Lexeme)}

/-- The texts of rows with commas between them are cut into the tokens of the rows. -/
theorem cut_intercalate (h : ∀ item ∈ items, Rewritable item) :
    Segment.cut 0 (", ".intercalate (items.map join)).toList = (listSegments items, none) := by
  induction items with
  | nil => rfl
  | cons item rest ih =>
    obtain ⟨hitem, hrest⟩ := List.forall_mem_cons.mp h
    have hcut := cut_toList_join hitem.legible hitem.plain
    cases rest with
    | nil => simpa [String.intercalate_singleton, listSegments] using hcut
    | cons next rest =>
      let behind := (", ".intercalate ((next :: rest).map join)).toList
      have htext : (", ".intercalate ((item :: next :: rest).map join)).toList =
          (join item).toList ++ ',' :: ' ' :: behind := by
        simp [String.intercalate_cons_cons, behind]
      have hcomma : Segment.cut 0 (',' :: ' ' :: behind) =
          (⟨[','], .token .comma⟩ :: (Segment.cut 0 (' ' :: behind)).1,
            (Segment.cut 0 (' ' :: behind)).2) :=
        Segment.cut_of_ok rfl rfl
      have hbare : ∀ segment ∈ (Segment.cut 0 (join item).toList).1, segment.isBare = true := by
        rw [hcut]
        exact isBare_segments
      have hclosed : (Segment.cut 0 (join item).toList).2 = none := by rw [hcut]
      rw [htext, Segment.cut_append_of_bare (by decide) (by decide) hclosed hbare, hcomma,
        cut_blank, ih hrest, hcut]
      rfl

/-- The lexemes of rows with commas between them are cut into rows with the same texts. -/
theorem commaGroups_listSegments (h : ∀ item ∈ items, Rewritable item) (hitems : Items 0 items)
    (hne : items ≠ []) (position : Position) (newlines : Nat) (pending : List Trivia) :
    (commaGroups 0 (Lexed.ofSegments position newlines pending (listSegments items)).lexemes).map
      join = items.map join := by
  induction items generalizing position newlines pending with
  | nil => exact absurd rfl hne
  | cons item rest ih =>
    obtain ⟨⟨⟨cs, hread⟩, hplain, hrow⟩, hrest⟩ := List.forall_mem_cons.mp h
    cases rest with
    | nil =>
      obtain ⟨again, finish, hagain, hsegments⟩ :=
        exists_again hread hplain hrow position newlines pending []
      have hdepth : ∃ behind, Token.itemDepth 0 (tokens again) = some behind := by
        rw [hagain.tokens]
        cases hitems with
        | last hitem => exact ⟨_, hitem⟩
        | cons hitem _ => exact ⟨_, hitem⟩
      obtain ⟨behind, hdepth⟩ := hdepth
      rw [List.append_nil] at hsegments
      have hlexemes : (Lexed.ofSegments position newlines pending (listSegments [item])).lexemes =
          again := by
        rw [listSegments, hsegments]
        exact List.append_nil again
      rw [hlexemes, commaGroups_of_itemDepth hdepth, List.map_singleton, List.map_singleton,
        hagain.text]
    | cons next rest =>
      let more := listSegments (next :: rest)
      obtain ⟨again, finish, hagain, hsegments⟩ := exists_again hread hplain hrow position newlines
        pending (⟨[','], .token .comma⟩ :: ⟨[' '], .blank⟩ :: more)
      let behind := (Lexed.ofSegments ((finish.after [',']).after [' ']) 0 [] more).lexemes
      have hlexemes : (Lexed.ofSegments position newlines pending
          (listSegments (item :: next :: rest))).lexemes =
            again ++ ⟨.comma, finish, []⟩ :: behind := by
        rw [listSegments, hsegments]
        rfl
      have hcomma : commaGroups 0 (⟨.comma, finish, []⟩ :: behind) =
          [] :: commaGroups 0 behind := by
        rw [commaGroups, if_pos ⟨rfl, rfl⟩]
      cases hitems with
      | cons hitem hlist =>
        rw [← hagain.tokens] at hitem
        rw [hlexemes, commaGroups_append hitem hcomma, List.append_nil, List.map_cons, hagain.text,
          ih hrest hlist (List.cons_ne_nil _ _)]
        rfl

/-! ## Arguments -/

/-- The arguments of a row, written with commas between them, are read as the same arguments, unless
there is a directive in one of them. They are read without comments and directives. -/
theorem ofText_arguments {row : List Lexeme} (h : Legible row)
    (hplain : ∀ argument ∈ arguments row, WithoutDirective argument) :
    ∃ read, Lexed.ofText (", ".intercalate (arguments row)) = .ok read ∧
      arguments read.lexemes = arguments row ∧
      ∀ segment ∈ (Segment.cut 0 (", ".intercalate (arguments row)).toList).1,
        segment.isBare = true := by
  let written : List Lexeme → Bool := fun item => !(join item).isEmpty
  let items := (commaGroups 0 row).filter written
  have harguments : arguments row = items.map join := by
    rw [arguments, List.filter_map]
    rfl
  have hitems : Items 0 items := (items_commaGroups 0 row).filter written
  have hrewritable : ∀ item ∈ items, Rewritable item := by
    intro item hitem
    obtain ⟨hgroup, hwritten⟩ := List.mem_filter.mp hitem
    have hlegible := h.part (infix_of_mem_commaGroups hgroup)
    have hdirective : WithoutDirective (join item) := by
      refine hplain _ ?_
      rw [harguments]
      exact List.mem_map_of_mem hitem
    refine ⟨hlegible, tokensOnly_of_withoutDirective hlegible hdirective, ?_⟩
    rintro rfl
    cases hwritten
  have hcut := cut_intercalate hrewritable
  rw [harguments]
  refine ⟨Lexed.ofSegments .start 0 [] (listSegments items), ?_, ?_, ?_⟩
  · unfold Lexed.ofText Lexed.ofChars
    rw [hcut]
  · by_cases hne : items = []
    · rw [hne]
      rfl
    · have hall : ∀ text ∈ items.map join, (!text.isEmpty) = true := by
        intro text htext
        obtain ⟨item, hitem, rfl⟩ := List.mem_map.mp htext
        exact (List.mem_filter.mp hitem).2
      rw [arguments, commaGroups_listSegments hrewritable hitems hne, List.filter_eq_self.mpr hall]
  · rw [hcut]
    exact isBare_listSegments

end Lexeme

end RemoteCalls
