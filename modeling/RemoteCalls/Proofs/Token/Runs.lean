import RemoteCalls.Proofs.Outline.BodyStatements
import RemoteCalls.Proofs.Token.Relisting

/-!
# Runs between commas

A comma separates arguments if it stands outside of all groups, and the runs of a row are what lies
between these commas. Where the groups of a row are properly nested its arguments are its runs: each
is the text of one run, and is read as the tokens of that run; only empty runs have no argument.
-/

namespace RemoteCalls

namespace Token

variable {row front behind : List Token} {t : Token} {i : Nat}

/-! ## Deciding whether groups are nested -/

/-- The delimiters that are missing behind a row of tokens, the next one first; `closers` are the
ones in front of it. Nothing if a delimiter does not close the group that is open. -/
def missing : (closers : List Token) → List Token → Option (List Token)
  | closers, [] => some closers
  | closers, t :: ts =>
    match t.closer? with
    | some closer => missing (closer :: closers) ts
    | none =>
      if t.isCloser then
        if closers.head? = some t then missing closers.tail ts else none
      else missing closers ts

/-- A row closes some groups that are open in front of it, one after the other, and is properly
nested between their delimiters. -/
def Closes : (closers : List Token) → List Token → Prop
  | [], ts => Nested ts
  | closer :: closers, ts =>
    ∃ inner rest, ts = inner ++ closer :: rest ∧ Nested inner ∧ Closes closers rest

theorem closer?_eq_none_iff : t.closer? = none ↔ t.isOpener = false := by
  cases t <;> simp [closer?, isOpener]

theorem Closes.plain {closers ts : List Token} (hopener : t.isOpener = false)
    (hcloser : t.isCloser = false) (h : Closes closers ts) : Closes closers (t :: ts) := by
  cases closers with
  | nil => exact Nested.plain hopener hcloser h
  | cons closer closers =>
    obtain ⟨inner, rest, rfl, hinner, hrest⟩ := h
    exact ⟨t :: inner, rest, rfl, .plain hopener hcloser hinner, hrest⟩

theorem Closes.group {opener closer : Token} {closers ts : List Token}
    (hcloses : opener.closer? = some closer) (h : Closes (closer :: closers) ts) :
    Closes closers (opener :: ts) := by
  obtain ⟨inner, rest, rfl, hinner, hrest⟩ := h
  cases closers with
  | nil => exact Nested.group hcloses hinner hrest
  | cons next closers =>
    obtain ⟨inner', rest, rfl, hinner', hrest⟩ := hrest
    exact ⟨opener :: (inner ++ closer :: inner'), rest, by simp, .group hcloses hinner hinner',
      hrest⟩

/-- A row behind which nothing is missing closes the groups in front of it. -/
theorem closes_of_missing {closers ts : List Token} (h : missing closers ts = some []) :
    Closes closers ts := by
  induction ts generalizing closers with
  | nil =>
    obtain rfl : closers = [] := Option.some.inj h
    exact .nil
  | cons t ts ih =>
    unfold missing at h
    split at h
    · next closer hcloses => exact (ih h).group hcloses
    next hopener =>
    split at h
    · next hcloser =>
      split at h
      · next hhead =>
        cases closers with
        | nil => cases hhead
        | cons closer closers =>
          obtain rfl : closer = t := Option.some.inj hhead
          exact ⟨[], ts, rfl, .nil, ih h⟩
      · cases h
    · next hcloser =>
      exact (ih h).plain (closer?_eq_none_iff.mp hopener) (Bool.eq_false_iff.mpr hcloser)

/-- Properly nested groups leave the delimiters that are missing as they are. -/
theorem Nested.missing_append (h : Nested front) (closers behind : List Token) :
    missing closers (front ++ behind) = missing closers behind := by
  induction h generalizing closers behind with
  | nil => rfl
  | @plain t ts hopener hcloser _ ih =>
    rw [List.cons_append, missing, closer?_eq_none_iff.mpr hopener, hcloser]
    exact ih closers behind
  | @group opener closer inner ts hcloses _ _ hinner hrest =>
    have hcloser := (isOpener_of_closer? hcloses).2
    have hnone := closer?_eq_none_iff.mpr (isOpener_of_isCloser hcloser)
    rw [List.cons_append, List.append_assoc, List.cons_append, missing, hcloses]
    simp only [hinner, missing, hnone, hcloser, List.head?_cons, List.tail_cons, if_true]
    exact hrest closers behind

theorem nested_iff : Nested row ↔ missing [] row = some [] := by
  constructor
  · intro h
    simpa [missing] using h.missing_append [] []
  · exact closes_of_missing

instance (row : List Token) : Decidable (Nested row) :=
  decidable_of_iff _ nested_iff.symm

/-! ## Places inside of groups -/

/-- The place `i` of a row lies between the delimiters of a properly nested group. -/
def InGroup (row : List Token) (i : Nat) : Prop :=
  ∃ first < i, ∃ last < row.length, i < last ∧ row[first]?.bind closer? = row[last]? ∧
    Nested ((row.take last).drop (first + 1))

/-- At the place `i` of a row stands a comma that is outside of all groups. -/
def Separates (row : List Token) (i : Nat) : Prop :=
  row[i]? = some .comma ∧ ¬InGroup row i

instance (row : List Token) (i : Nat) : Decidable (InGroup row i) :=
  inferInstanceAs (Decidable (∃ first < i, ∃ last < row.length, i < last ∧
    row[first]?.bind closer? = row[last]? ∧ Nested ((row.take last).drop (first + 1))))

instance (row : List Token) (i : Nat) : Decidable (Separates row i) :=
  inferInstanceAs (Decidable (row[i]? = some .comma ∧ ¬InGroup row i))

/-- The runs of a row: what lies between the commas that are outside of all groups. -/
def runs (row : List Token) : List (List Token) :=
  (row.zipIdx.splitOnP fun place => Separates row place.2).map (·.map Prod.fst)

/-- A place between the delimiters of a group is in it. -/
theorem inGroup_append (outer : List Token) {inner rest : List Token} {opener closer : Token}
    (hcloses : opener.closer? = some closer) (hinner : Nested inner) (hfirst : outer.length < i)
    (hlast : i ≤ outer.length + inner.length) :
    InGroup (outer ++ opener :: (inner ++ closer :: rest)) i := by
  have hrow : outer ++ opener :: (inner ++ closer :: rest) =
      (outer ++ opener :: inner) ++ closer :: rest := by simp
  have hlength : (outer ++ opener :: inner).length = outer.length + inner.length + 1 := by
    simp
    omega
  refine ⟨outer.length, hfirst, outer.length + inner.length + 1, ?_, by omega, ?_, ?_⟩
  · rw [hrow, List.length_append, hlength, List.length_cons]
    omega
  · have hopener : (outer ++ opener :: (inner ++ closer :: rest))[outer.length]? = some opener := by
      simp
    rw [hopener, hrow, ← hlength, List.getElem?_append_right (Nat.le_refl _), Nat.sub_self]
    exact hcloses
  · rw [hrow, ← hlength, List.take_left]
    simpa using hinner

/-- What stands at a place of a row divides the row there. -/
theorem exists_append_of_getElem? (h : row[i]? = some t) :
    ∃ front behind, row = front ++ t :: behind ∧ i = front.length := by
  obtain ⟨hlength, hget⟩ := List.getElem?_eq_some_iff.mp h
  refine ⟨row.take i, row.drop (i + 1), ?_, ?_⟩
  · rw [← hget, List.getElem_cons_drop, List.take_append_drop]
  · rw [List.length_take]
    omega

/-- A place in a group stands between the delimiters of one. -/
theorem InGroup.exists_group (h : InGroup row i) : ∃ outer opener inner closer rest,
    row = outer ++ opener :: (inner ++ closer :: rest) ∧ opener.closer? = some closer ∧
      Nested inner ∧ outer.length < i ∧ i ≤ outer.length + inner.length := by
  obtain ⟨first, hfirst, last, hlast, hlt, hcloses, hinner⟩ := h
  obtain ⟨closer, hcloser⟩ : ∃ closer, row[last]? = some closer :=
    ⟨_, List.getElem?_eq_getElem hlast⟩
  rw [hcloser, Option.bind_eq_some_iff] at hcloses
  obtain ⟨opener, hopener, hcloses⟩ := hcloses
  obtain ⟨group, rest, rfl, rfl⟩ := exists_append_of_getElem? hcloser
  rw [List.take_left] at hinner
  rw [List.getElem?_append_left (Nat.lt_trans hfirst hlt)] at hopener
  obtain ⟨outer, inner, rfl, rfl⟩ := exists_append_of_getElem? hopener
  rw [List.length_append, List.length_cons] at hlt
  exact ⟨outer, opener, inner, closer, rest, by simp, hcloses, by simpa using hinner, hfirst,
    by omega⟩

theorem InGroup.append_left (h : InGroup row i) (front : List Token) :
    InGroup (front ++ row) (front.length + i) := by
  obtain ⟨outer, opener, inner, closer, rest, rfl, hcloses, hinner, hfirst, hlast⟩ :=
    h.exists_group
  rw [← List.append_assoc]
  refine inGroup_append _ hcloses hinner ?_ ?_
  · rw [List.length_append]
    omega
  · rw [List.length_append]
    omega

/-- A token of a properly nested row is in a group if one is open in front of it. -/
theorem Nested.inGroup (h : Nested row) (hrow : row = front ++ t :: behind)
    (hopener : t.isOpener = false) (hcloser : t.isCloser = false) (hfront : ¬Balanced front) :
    InGroup row front.length := by
  induction h generalizing front with
  | nil => cases front <;> cases hrow
  | @plain u ts hopens hcloses _ ih =>
    cases front with
    | nil => exact absurd Balanced.nil hfront
    | cons v front =>
      obtain ⟨rfl, hts⟩ := List.cons.inj hrow
      have hinner := ih hts fun hbalanced => hfront (hbalanced.cons hopens hcloses)
      simpa [Nat.add_comm] using hinner.append_left [u]
  | @group opener closer inner ts hcloses hinner _ _ ih =>
    obtain ⟨hopens, hends⟩ := isOpener_of_closer? hcloses
    cases front with
    | nil => exact absurd Balanced.nil hfront
    | cons v front =>
      obtain ⟨rfl, htail⟩ := List.cons.inj hrow
      -- The token stands behind the group, or in it.
      rcases List.append_eq_append_iff.mp htail with ⟨more, rfl, hmore⟩ | ⟨more, rfl, hmore⟩
      · cases more with
        | nil =>
          obtain ⟨rfl, -⟩ := List.cons.inj hmore
          rw [hends] at hcloser
          cases hcloser
        | cons w more =>
          obtain ⟨rfl, hts⟩ := List.cons.inj hmore
          have hgroup := hinner.balanced.group hopens hends
          have hlater := ih hts fun hbalanced => hfront (by simpa using hgroup.append hbalanced)
          have hplace := hlater.append_left (opener :: (inner ++ [closer]))
          simpa [Nat.add_comm, Nat.add_left_comm] using hplace
      · cases more with
        | nil =>
          obtain ⟨rfl, -⟩ := List.cons.inj hmore
          rw [hends] at hcloser
          cases hcloser
        | cons w more => exact inGroup_append [] hcloses hinner (by simp) (by simp)

/-- In front of a place in a group a group is open. -/
theorem InGroup.not_balanced (h : InGroup (front ++ behind) front.length) : ¬Balanced front := by
  obtain ⟨outer, opener, inner, closer, rest, hrow, hcloses, hinner, hfirst, hlast⟩ :=
    h.exists_group
  have hwhole : outer ++ opener :: (inner ++ closer :: rest) =
      (outer ++ [opener]) ++ (inner ++ closer :: rest) := by simp
  rw [hwhole] at hrow
  obtain ⟨before, rfl⟩ : outer ++ [opener] <+: front :=
    List.prefix_of_prefix_length_le ⟨_, rfl⟩ ⟨_, hrow⟩ (by simp; omega)
  rw [List.append_assoc, List.append_cancel_left_eq] at hrow
  obtain ⟨after, rfl⟩ : before <+: inner :=
    List.prefix_of_prefix_length_le ⟨_, hrow⟩ ⟨_, rfl⟩ (by simp at hlast; omega)
  obtain ⟨inside, hbefore, -⟩ := nest_append_eq_some.mp hinner.balanced
  rw [Balanced, List.append_assoc, nest_append_eq_some]
  rintro ⟨depth, -, hopen⟩
  rw [List.singleton_append, nest, if_pos (isOpener_of_closer? hcloses).1] at hopen
  have hmore := nest_add hbefore (depth + 1)
  rw [Nat.zero_add, hopen] at hmore
  cases hmore

/-- The commas that separate are those in front of which all groups are closed. -/
theorem separates_iff (h : Nested (front ++ t :: behind)) {depth : Nat}
    (hdepth : nest 0 front = some depth) :
    Separates (front ++ t :: behind) front.length ↔ depth = 0 ∧ t = .comma := by
  have hget : (front ++ t :: behind)[front.length]? = some t := by simp
  rw [Separates, hget, Option.some.injEq]
  constructor
  · rintro ⟨rfl, hgroup⟩
    refine ⟨?_, rfl⟩
    by_contra hopen
    refine hgroup (h.inGroup rfl rfl rfl ?_)
    rw [Balanced, hdepth]
    exact fun hzero => hopen (Option.some.inj hzero)
  · rintro ⟨rfl, rfl⟩
    exact ⟨rfl, fun hgroup => hgroup.not_balanced hdepth⟩

/-- A row without commas outside of its groups leaves as many of them open as it does anyway. -/
theorem eq_of_itemDepth {depth inner behind : Nat} {ts : List Token}
    (h : itemDepth depth ts = some inner) (hnest : nest depth ts = some behind) :
    inner = behind := by
  induction ts generalizing depth with
  | nil => exact Option.some.inj (h.symm.trans hnest)
  | cons t ts ih => exact ih (itemDepth_cons h).2 (nest_cons_eq_some.mp hnest).2

/-- A row with a comma behind a front that closes its groups is more than one item. -/
theorem itemDepth_append_comma {depth : Nat} (h : nest depth front = some 0) :
    itemDepth depth (front ++ .comma :: behind) = none := by
  induction front generalizing depth with
  | nil =>
    obtain rfl : depth = 0 := Option.some.inj h
    exact if_pos ⟨rfl, rfl⟩
  | cons t front ih =>
    rw [List.cons_append, itemDepth]
    split
    · rfl
    · exact ih (nest_cons_eq_some.mp h).2

/-- No comma separates within an item. -/
theorem not_separates (h : Nested row) (hitem : itemDepth 0 row = some 0) (i : Nat) :
    ¬Separates row i := by
  intro hseparates
  obtain ⟨front, behind, rfl, rfl⟩ := exists_append_of_getElem? hseparates.1
  obtain ⟨depth, hdepth, -⟩ := nest_append_eq_some.mp h.balanced
  obtain ⟨rfl, -⟩ := (separates_iff h hdepth).mp hseparates
  rw [itemDepth_append_comma hdepth] at hitem
  cases hitem

end Token

namespace Lexeme

variable {row : List Lexeme}

/-! ## Runs and the groups between commas -/

/-- Behind a front with `depth` groups open a row is cut at the same commas into groups and runs. -/
theorem splitOnP_separates (front : List Token) {depth : Nat}
    (h : Token.Nested (front ++ tokens row)) (hdepth : Token.nest 0 front = some depth) :
    (((tokens row).zipIdx front.length).splitOnP fun place =>
      Token.Separates (front ++ tokens row) place.2).map (·.map Prod.fst) =
        (commaGroups depth row).map tokens := by
  induction row generalizing front depth with
  | nil => rfl
  | cons lexeme row ih =>
    change Token.Nested (front ++ lexeme.token :: tokens row) at h
    have hseparates := Token.separates_iff h hdepth
    have hwhole : front ++ lexeme.token :: tokens row =
        (front ++ [lexeme.token]) ++ tokens row := by simp
    have hnext : Token.nest 0 (front ++ [lexeme.token]) =
        some (depthBehind depth lexeme.token) := by
      obtain ⟨inside, hinside, hrest⟩ := Token.nest_append_eq_some.mp h.balanced
      obtain rfl : depth = inside := Option.some.inj (hdepth.symm.trans hinside)
      have hone : Token.nest depth [lexeme.token] = some (depthBehind depth lexeme.token) :=
        Token.nest_cons_eq_some.mpr ⟨(Token.nest_cons_eq_some.mp hrest).1, rfl⟩
      exact Token.nest_append_eq_some.mpr ⟨depth, hdepth, hone⟩
    have hrest := ih (front ++ [lexeme.token]) (hwhole ▸ h) hnext
    rw [← hwhole, List.length_append, List.length_singleton] at hrest
    change (((lexeme.token :: tokens row).zipIdx front.length).splitOnP fun place =>
      Token.Separates (front ++ lexeme.token :: tokens row) place.2).map (·.map Prod.fst) = _
    rw [List.zipIdx_cons, List.splitOnP_cons_eq_if_modifyHead, commaGroups]
    simp only [decide_eq_true_eq, hseparates]
    by_cases hcomma : depth = 0 ∧ lexeme.token = .comma
    · rw [if_pos hcomma, if_pos hcomma]
      have hclosed : depthBehind depth lexeme.token = 0 := by
        rw [hcomma.1, hcomma.2]
        rfl
      rw [hclosed] at hrest
      exact congrArg ([] :: ·) hrest
    · rw [if_neg hcomma, if_neg hcomma]
      obtain ⟨group, groups, hsplit, -⟩ := exists_commaGroups (depthBehind depth lexeme.token) row
      rw [hsplit] at hrest ⊢
      obtain ⟨run, others, hruns, hrun, hothers⟩ := List.map_eq_cons_iff.mp hrest
      rw [hruns, List.modifyHead_cons, List.map_cons, List.map_cons, List.map_cons, hrun, hothers]
      rfl

/-- The runs of a row with properly nested groups are its groups between commas. -/
theorem runs_tokens (h : Token.Nested (tokens row)) :
    Token.runs (tokens row) = (commaGroups 0 row).map tokens :=
  splitOnP_separates [] h rfl

/-- The groups between commas are all of a row but the commas between them. -/
theorem intercalate_commaGroups (depth : Nat) (row : List Lexeme) :
    [.comma].intercalate ((commaGroups depth row).map tokens) = tokens row := by
  induction row generalizing depth with
  | nil => rfl
  | cons lexeme row ih =>
    rw [commaGroups]
    split
    · next hcomma =>
      have hrest := ih 0
      obtain ⟨group, groups, hsplit, -⟩ := exists_commaGroups 0 row
      rw [hsplit, List.map_cons] at hrest
      rw [hsplit, List.map_cons, List.map_cons, List.intercalate_cons_cons, hrest, ← hcomma.2]
      rfl
    · have hrest := ih (depthBehind depth lexeme.token)
      obtain ⟨group, groups, hsplit, -⟩ := exists_commaGroups (depthBehind depth lexeme.token) row
      rw [hsplit] at hrest ⊢
      change _ = lexeme.token :: tokens row
      rw [← hrest]
      cases groups with
      | nil => simp [tokens]
      | cons next groups => simp [tokens, List.intercalate_cons_cons]

/-- What stands between the commas of a properly nested row is properly nested, and is one item. -/
theorem Items.nested {items : List (List Lexeme)} (hitems : Items 0 items)
    (h : Token.Nested ([.comma].intercalate (items.map tokens))) :
    ∀ item ∈ items, Token.Nested (tokens item) ∧ Token.itemDepth 0 (tokens item) = some 0 := by
  induction items with
  | nil => exact fun item hitem => absurd hitem List.not_mem_nil
  | cons item rest ih =>
    cases rest with
    | nil =>
      rw [List.map_singleton, List.intercalate_singleton] at h
      refine List.forall_mem_cons.mpr ⟨⟨h, ?_⟩, fun item hitem => absurd hitem List.not_mem_nil⟩
      cases hitems with
      | last hitem => rw [hitem, Token.eq_of_itemDepth hitem h.balanced]
      | cons hitem _ => exact hitem
    | cons next rest =>
      cases hitems with
      | cons hitem hrest =>
        rw [List.map_cons, List.map_cons, List.intercalate_cons_cons] at h
        obtain ⟨_, hcomma, -⟩ := Token.nest_append_eq_some.mp h.balanced
        obtain ⟨depth, hdepth, -⟩ := Token.nest_append_eq_some.mp hcomma
        obtain rfl := Token.eq_of_itemDepth hitem hdepth
        have hfront : Token.Balanced (tokens item ++ [.comma]) :=
          Token.Balanced.append hdepth (Token.Balanced.nil.cons rfl rfl)
        obtain ⟨hfirst, hbehind⟩ := h.of_append hfront
        have hnested := (hfirst.of_append hdepth).1
        exact List.forall_mem_cons.mpr ⟨⟨hnested, hitem⟩, ih hrest hbehind⟩

/-! ## Arguments -/

/-- The text of a row without include directives is read as the tokens of the row. -/
theorem map_ofText_join (h : Legible row) (hplain : TokensOnly row) :
    (Lexed.ofText (join row)).map (fun again => tokens again.lexemes) = .ok (tokens row) := by
  obtain ⟨again, hagain, htokens, -⟩ := ofText_join h hplain
  rw [hagain, ← htokens]
  rfl

/-- The text of a row without include directives is empty just if the row is. -/
theorem join_eq_empty_iff (h : Legible row) (hplain : TokensOnly row) :
    join row = "" ↔ tokens row = [] := by
  constructor
  · intro hempty
    have hread := map_ofText_join h hplain
    rw [hempty] at hread
    exact (Except.ok.inj hread).symm
  · intro hrow
    obtain rfl : row = [] := List.map_eq_nil_iff.mp hrow
    rfl

/-- The arguments of a properly nested stretch of what is read from a text are its runs: in order,
each argument is read as the tokens of a run, and only empty runs are left out. The stretch is its
runs with one comma between two of them. No argument is empty, and in none of them a comma stands
outside of groups. -/
theorem arguments_runs {text : String} {lexed : Lexed} (h : Lexed.ofText text = .ok lexed)
    (hrow : row <:+: lexed.lexemes) (hnested : Token.Nested (tokens row))
    (hplain : TokensOnly row) :
    ((arguments row).map fun argument =>
        (Lexed.ofText argument).map fun again => tokens again.lexemes) =
      ((Token.runs (tokens row)).filter (· ≠ [])).map .ok ∧
    [.comma].intercalate (Token.runs (tokens row)) = tokens row ∧
    ∀ argument ∈ arguments row, argument ≠ "" ∧ ∀ again, Lexed.ofText argument = .ok again →
      ∀ i, ¬Token.Separates (tokens again.lexemes) i := by
  have hlegible := (Lexed.legible_of_ofText h).part hrow
  have hjoined := intercalate_commaGroups 0 row
  have hgroups : ∀ group ∈ commaGroups 0 row, Legible group ∧ TokensOnly group := by
    intro group hgroup
    have hpart := infix_of_mem_commaGroups hgroup
    exact ⟨hlegible.part hpart, fun lexeme hmem => hplain lexeme (hpart.subset hmem)⟩
  have hread : ∀ group ∈ commaGroups 0 row,
      (Lexed.ofText (join group)).map (fun again => tokens again.lexemes) = .ok (tokens group) :=
    fun group hgroup => map_ofText_join (hgroups group hgroup).1 (hgroups group hgroup).2
  rw [runs_tokens hnested]
  refine ⟨?_, hjoined, ?_⟩
  · have hwritten : (commaGroups 0 row).filter ((fun text => !text.isEmpty) ∘ join) =
        (commaGroups 0 row).filter ((fun run => decide (run ≠ [])) ∘ tokens) := by
      refine List.filter_congr fun group hgroup => ?_
      have hempty := join_eq_empty_iff (hgroups group hgroup).1 (hgroups group hgroup).2
      rw [Bool.eq_iff_iff]
      simp [hempty]
    rw [arguments, List.filter_map, List.filter_map, List.map_map, List.map_map, hwritten]
    exact List.map_congr_left fun group hgroup => hread group (List.mem_filter.mp hgroup).1
  · intro argument hargument
    obtain ⟨hmem, hwritten⟩ := List.mem_filter.mp hargument
    obtain ⟨group, hgroup, rfl⟩ := List.mem_map.mp hmem
    obtain ⟨hnested', hitem⟩ :=
      (items_commaGroups 0 row).nested (hjoined.symm ▸ hnested) group hgroup
    refine ⟨by simpa using hwritten, fun again hagain => ?_⟩
    have hsame := hread group hgroup
    rw [hagain] at hsame
    have htokens : tokens again.lexemes = tokens group := Except.ok.inj hsame
    rw [htokens]
    exact Token.not_separates hnested' hitem

/-- An empty run is left out, and the commas in a call do not separate. -/
theorem arguments_runs_of_call :
    let row : List Lexeme := [⟨.identifier "a", ⟨1, 2⟩, []⟩, ⟨.comma, ⟨1, 3⟩, []⟩,
      ⟨.comma, ⟨1, 5⟩, []⟩, ⟨.identifier "f", ⟨1, 7⟩, []⟩, ⟨.openParen, ⟨1, 8⟩, []⟩,
      ⟨.identifier "b", ⟨1, 9⟩, []⟩, ⟨.comma, ⟨1, 10⟩, []⟩, ⟨.identifier "c", ⟨1, 12⟩, []⟩,
      ⟨.openBracket, ⟨1, 13⟩, []⟩, ⟨.number "1", ⟨1, 14⟩, []⟩, ⟨.closeBracket, ⟨1, 15⟩, []⟩,
      ⟨.closeParen, ⟨1, 16⟩, []⟩]
    (∃ lexed, Lexed.ofText "(a, , f(b, c[1]))" = .ok lexed ∧ row <:+: lexed.lexemes) ∧
      Token.Nested (tokens row) ∧ TokensOnly row ∧
      arguments row = ["a", "f(b, c[1])"] ∧
      Token.runs (tokens row) = [[.identifier "a"], [], [.identifier "f", .openParen,
        .identifier "b", .comma, .identifier "c", .openBracket, .number "1", .closeBracket,
        .closeParen]] ∧
      ((arguments row).map fun argument =>
          (Lexed.ofText argument).map fun again => tokens again.lexemes) =
        ((Token.runs (tokens row)).filter (· ≠ [])).map .ok ∧
      [.comma].intercalate (Token.runs (tokens row)) = tokens row ∧
      ∀ argument ∈ arguments row, argument ≠ "" ∧ ∀ again, Lexed.ofText argument = .ok again →
        ∀ i, ¬Token.Separates (tokens again.lexemes) i := by
  intro row
  have hnested : Token.Nested (tokens row) := by decide +kernel
  have hplain : TokensOnly row := by
    simp [TokensOnly, row]
  let lexed : Lexed := ⟨⟨.openParen, ⟨1, 1⟩, []⟩ :: (row ++ [⟨.closeParen, ⟨1, 17⟩, []⟩]),
    ⟨1, 18⟩, []⟩
  have hlexed : Lexed.ofText "(a, , f(b, c[1]))" = .ok lexed := by decide +kernel
  have hrow : row <:+: lexed.lexemes := ⟨[⟨.openParen, ⟨1, 1⟩, []⟩], _, rfl⟩
  exact ⟨⟨lexed, hlexed, hrow⟩, hnested, hplain, by decide +kernel, by decide +kernel,
    arguments_runs hlexed hrow hnested hplain⟩

end Lexeme

end RemoteCalls
