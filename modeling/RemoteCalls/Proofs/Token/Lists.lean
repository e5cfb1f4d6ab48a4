import RemoteCalls.Proofs.CType.Items
import RemoteCalls.Proofs.Text.Pieces

/-!
# Lists between commas

A row of items with commas between them is cut at these commas again. A list of names is the same
whether it is cut as a row of lexemes or as the text of that row, however the row is spaced.
-/

namespace RemoteCalls

/-! ## Texts -/

/-- A character of a word is no blank. -/
theorem Segment.isBlank_of_isWordChar {c : Char} (hc : isWordChar c = true) :
    Text.isBlank c = false := by
  have hrange : 48 ≤ c.toNat ∧ c.toNat ≤ 122 := by
    change (decide (c.val ≥ 'A'.val ∧ c.val ≤ 'Z'.val) || (c.val ≥ 'a'.val && c.val ≤ 'z'.val) ||
      (c.val ≥ '0'.val && c.val ≤ '9'.val) || c == '_') = true at hc
    simp only [Bool.or_eq_true, Bool.and_eq_true, decide_eq_true_eq, beq_iff_eq, ge_iff_le,
      UInt32.le_iff_toNat_le] at hc
    rcases hc with ((⟨hlow, hhigh⟩ | ⟨hlow, hhigh⟩) | ⟨hlow, hhigh⟩) | rfl
    · exact ⟨Nat.le_trans (by decide) hlow, Nat.le_trans hhigh (by decide)⟩
    · exact ⟨Nat.le_trans (by decide) hlow, hhigh⟩
    · exact ⟨hlow, Nat.le_trans hhigh (by decide)⟩
    · decide
  by_contra hblank
  simp only [Text.isBlank, Bool.not_eq_false, Bool.or_eq_true, Bool.and_eq_true, decide_eq_true_eq,
    beq_iff_eq] at hblank
  omega

section

variable {name : String}

theorem toList_ne_nil_of_isIdentifier (h : Configuration.isIdentifier name = true) :
    name.toList ≠ [] := by
  obtain ⟨c, tail, hchars, -⟩ := exists_chars_of_isIdentifier h
  rw [hchars]
  exact List.cons_ne_nil c tail

theorem isEmpty_of_isIdentifier (h : Configuration.isIdentifier name = true) :
    name.isEmpty = false := by
  rw [← Bool.not_eq_true, String.isEmpty_iff, ← String.toList_eq_nil_iff]
  exact toList_ne_nil_of_isIdentifier h

theorem isBlank_of_isIdentifier (h : Configuration.isIdentifier name = true) :
    ∀ c ∈ name.toList, Text.isBlank c = false :=
  fun c hc => Segment.isBlank_of_isWordChar (isWordChar_of_isIdentifier h c hc)

theorem isAllBlank_of_isIdentifier (h : Configuration.isIdentifier name = true) :
    Text.isAllBlank name = false := by
  obtain ⟨c, tail, hchars, hc, -⟩ := exists_chars_of_isIdentifier h
  unfold Text.isAllBlank
  rw [hchars, List.all_cons, Segment.isBlank_of_isWordChar (Segment.isWordChar_of_isWordStart hc)]
  rfl

variable {before after : List Char}

theorem trimmed_of_isIdentifier (h : Configuration.isIdentifier name = true)
    (hbefore : ∀ c ∈ before, Text.isBlank c = true)
    (hafter : ∀ c ∈ after, Text.isBlank c = true) :
    Text.Trimmed (before ++ (name.toList ++ after)) name.toList where
  around := ⟨before, after, rfl, hbefore, hafter⟩
  first c hc := isBlank_of_isIdentifier h c (List.mem_of_mem_head? hc)
  last c hc := isBlank_of_isIdentifier h c (List.mem_of_mem_getLast? hc)

/-- A name with blanks around it is one piece. -/
theorem commaPieces_of_isIdentifier (h : Configuration.isIdentifier name = true)
    (hbefore : ∀ c ∈ before, Text.isBlank c = true)
    (hafter : ∀ c ∈ after, Text.isBlank c = true) :
    Text.commaPieces (before ++ (name.toList ++ after)) = [name] := by
  have htrimmed := trimmed_of_isIdentifier h hbefore hafter
  have hmark : ',' ∉ before ++ (name.toList ++ after) := by
    intro hmem
    have hword := isWordChar_of_isIdentifier h ',' (htrimmed.mem (by decide) hmem)
    exact absurd hword (by decide)
  have hkept : [name.toList].filter (· ≠ []) = [name.toList] :=
    List.filter_cons_of_pos (by simpa using toList_ne_nil_of_isIdentifier h)
  rw [Text.commaPieces_eq, List.splitOn_eq_singleton hmark, List.map_singleton,
    htrimmed.trim_eq, hkept, List.map_singleton,
    String.ofList_toList]

end

/-! ## Rows -/

/-- Names with commas between them. -/
def Token.names (names : List String) : List Token :=
  [.comma].intercalate (names.map fun name => [.identifier name])

theorem Token.names_cons_cons (name next : String) (rest : List String) :
    names (name :: next :: rest) = .identifier name :: .comma :: names (next :: rest) := rfl

/-- How many groups are open behind a row of tokens, unless a comma stands outside of groups. -/
def Token.itemDepth : (depth : Nat) → List Token → Option Nat
  | depth, [] => some depth
  | depth, t :: ts =>
    if depth = 0 ∧ t = .comma then none else itemDepth (Lexeme.depthBehind depth t) ts

theorem Token.itemDepth_cons {depth behind : Nat} {t : Token} {ts : List Token}
    (h : itemDepth depth (t :: ts) = some behind) :
    ¬ (depth = 0 ∧ t = .comma) ∧ itemDepth (Lexeme.depthBehind depth t) ts = some behind := by
  rw [itemDepth] at h
  split at h
  · cases h
  · next hcomma => exact ⟨hcomma, h⟩

/-- No comma stands outside of the groups of an expression, which closes them all. -/
theorem Token.IsExpression.itemDepth {depth : Nat} {ts : List Token} (h : IsExpression depth ts) :
    Token.itemDepth depth ts = some 0 := by
  induction ts generalizing depth with
  | nil => exact congrArg some h
  | cons t ts ih =>
    have hcomma : ¬ (depth = 0 ∧ t = .comma) := by
      rintro ⟨hdepth, rfl⟩
      have hends := h.1 hdepth
      cases hends
    rw [Token.itemDepth, if_neg hcomma, ih h.2]

namespace Lexeme

/-- Behind the first lexeme the text of a row goes on with the text of the others, with or without
a gap between. -/
theorem exists_join_cons (lexeme : Lexeme) (rest : List Lexeme) :
    ∃ gap : List Char, (∀ c ∈ gap, Text.isBlank c = true) ∧
      (join (lexeme :: rest)).toList = lexeme.token.text.toList ++ (gap ++ (join rest).toList) := by
  cases rest with
  | nil => exact ⟨[], by simp, by simp [join]⟩
  | cons next rest =>
    refine ⟨if lexeme.touches next then [] else [' '], ?_, ?_⟩
    · split
      · simp
      · simp [Text.isBlank]
    · rw [join]
      split <;> simp

/-- The pieces of the text of a list of names are the names. -/
theorem exists_join_names {names : List String}
    (hnames : ∀ name ∈ names, Configuration.isIdentifier name = true) (hne : names ≠ [])
    {row : List Lexeme} (hrow : tokens row = Token.names names)
    (behind : List Lexeme) {gap : List Char} (hgap : ∀ c ∈ gap, Text.isBlank c = true) :
    ∃ inner, (join (row ++ behind)).toList = inner ++ (join behind).toList ∧
      Text.commaPieces (gap ++ inner) = names := by
  induction names generalizing row gap with
  | nil => exact absurd rfl hne
  | cons name rest ih =>
    obtain ⟨hname, hrest⟩ := List.forall_mem_cons.mp hnames
    cases rest with
    | nil =>
      obtain ⟨word, none, rfl, hword, hnone⟩ := List.map_eq_cons_iff.mp hrow
      obtain rfl : none = [] := List.map_eq_nil_iff.mp hnone
      obtain ⟨after, hafter, hjoin⟩ := exists_join_cons word behind
      refine ⟨name.toList ++ after, ?_, commaPieces_of_isIdentifier hname hgap hafter⟩
      rw [List.singleton_append, hjoin, hword, List.append_assoc]
      rfl
    | cons next rest =>
      rw [Token.names_cons_cons] at hrow
      obtain ⟨word, _, rfl, hword, htail⟩ := List.map_eq_cons_iff.mp hrow
      obtain ⟨comma, row, rfl, hcomma, hrow⟩ := List.map_eq_cons_iff.mp htail
      obtain ⟨after, hafter, hjoin⟩ := exists_join_cons word (comma :: (row ++ behind))
      obtain ⟨gap', hgap', hjoin'⟩ := exists_join_cons comma (row ++ behind)
      obtain ⟨inner, hinner, hpieces⟩ := ih hrest (List.cons_ne_nil _ _) hrow hgap'
      have hfirst := commaPieces_of_isIdentifier hname hgap hafter
      refine ⟨name.toList ++ after ++ ',' :: (gap' ++ inner), ?_, ?_⟩
      · rw [List.cons_append, List.cons_append, hjoin, hjoin', hword, hcomma, hinner]
        simp [Token.text]
      · rw [← List.append_assoc, Text.commaPieces_append, hfirst, hpieces]
        rfl

variable {row : List Lexeme}

/-- The parts of a row with a word and a group in parentheses in front. -/
theorem exists_call {name : String} {inner more : List Token}
    (h : tokens row = .identifier name :: .openParen :: (inner ++ .closeParen :: more)) :
    ∃ word opener inside closer rest, row = word :: opener :: (inside ++ closer :: rest) ∧
      word.token = .identifier name ∧ opener.token = .openParen ∧ tokens inside = inner ∧
      closer.token = .closeParen ∧ tokens rest = more := by
  obtain ⟨word, _, rfl, hword, htail⟩ := List.map_eq_cons_iff.mp h
  obtain ⟨opener, _, rfl, hopener, hgroup⟩ := List.map_eq_cons_iff.mp htail
  obtain ⟨inside, _, rfl, hinside, hclose⟩ := List.map_eq_append_iff.mp hgroup
  obtain ⟨closer, rest, rfl, hcloser, hrest⟩ := List.map_eq_cons_iff.mp hclose
  exact ⟨word, opener, inside, closer, rest, rfl, hword, hopener, hinside, hcloser, hrest⟩

/-- A row without commas outside of its groups belongs to the first group between commas. -/
theorem commaGroups_append {depth : Nat} {front : List Lexeme}
    (h : Token.itemDepth depth (tokens front) = some 0) {behind group : List Lexeme}
    {groups : List (List Lexeme)} (hbehind : commaGroups 0 behind = group :: groups) :
    commaGroups depth (front ++ behind) = (front ++ group) :: groups := by
  induction front generalizing depth with
  | nil =>
    obtain rfl : depth = 0 := Option.some.inj h
    exact hbehind
  | cons lexeme front ih =>
    obtain ⟨hcomma, hrest⟩ := Token.itemDepth_cons h
    rw [List.cons_append, commaGroups, if_neg hcomma, ih hrest]
    rfl

/-- A row without commas outside of its groups is one group between commas. -/
theorem commaGroups_of_itemDepth {depth behind : Nat} {row : List Lexeme}
    (h : Token.itemDepth depth (tokens row) = some behind) : commaGroups depth row = [row] := by
  induction row generalizing depth with
  | nil => rfl
  | cons lexeme row ih =>
    obtain ⟨hcomma, hrest⟩ := Token.itemDepth_cons h
    rw [commaGroups, if_neg hcomma, ih hrest]

/-- A row of items with commas between them is cut into these items. -/
theorem forall₂_commaGroups {items : List (List Token)}
    (hitems : ∀ item ∈ items, Token.IsExpression 0 item) (hne : items ≠ [])
    (hrow : tokens row = [.comma].intercalate items) :
    List.Forall₂ (fun group item => tokens group = item) (commaGroups 0 row) items := by
  induction items generalizing row with
  | nil => exact absurd rfl hne
  | cons item rest ih =>
    obtain ⟨hitem, hrest⟩ := List.forall_mem_cons.mp hitems
    cases rest with
    | nil =>
      rw [List.intercalate_singleton] at hrow
      rw [← hrow] at hitem
      rw [commaGroups_of_itemDepth hitem.itemDepth]
      exact .cons hrow .nil
    | cons next rest =>
      rw [List.intercalate_cons_cons, List.append_assoc] at hrow
      obtain ⟨front, _, rfl, hfront, htail⟩ := List.map_eq_append_iff.mp hrow
      obtain ⟨comma, behind, rfl, hcomma, hbehind⟩ := List.map_eq_cons_iff.mp htail
      change tokens front = item at hfront
      rw [← hfront] at hitem
      have hgroups : commaGroups 0 (comma :: behind) = [] :: commaGroups 0 behind := by
        rw [commaGroups, if_pos ⟨rfl, hcomma⟩]
      rw [commaGroups_append hitem.itemDepth hgroups, List.append_nil]
      exact .cons hfront (ih hrest (List.cons_ne_nil _ _) hbehind)

/-- The arguments of a row of items with commas between them are the texts of the items, if none of
them is empty. -/
theorem forall₂_arguments {items : List (List Token)}
    (hitems : ∀ item ∈ items, Token.IsExpression 0 item) (hne : items ≠ [])
    (htexts : ∀ group, tokens group ∈ items → (join group).isEmpty = false)
    (hrow : tokens row = [.comma].intercalate items) :
    List.Forall₂ (fun text item => ∃ group, tokens group = item ∧ join group = text)
      (arguments row) items := by
  have hgroups := forall₂_commaGroups hitems hne hrow
  unfold arguments
  generalize commaGroups 0 row = groups at hgroups
  clear hitems hne hrow
  induction hgroups with
  | nil => exact .nil
  | @cons group item groups items hgroup _ ih =>
    have htext := htexts group (hgroup ▸ List.mem_cons_self ..)
    rw [List.map_cons, List.filter_cons_of_pos (by simp [htext])]
    exact .cons ⟨group, hgroup, rfl⟩ (ih fun group hmem => htexts group (List.mem_cons_of_mem _ hmem))

theorem join_of_word {name : String} (h : tokens row = [.identifier name]) : join row = name := by
  obtain ⟨word, none, rfl, hword, hnone⟩ := List.map_eq_cons_iff.mp h
  obtain rfl : none = [] := List.map_eq_nil_iff.mp hnone
  rw [join, hword]
  rfl

/-- The arguments of a list of names are the names. -/
theorem arguments_of_names {names : List String}
    (hnames : ∀ name ∈ names, Configuration.isIdentifier name = true)
    (hne : names ≠ []) (hrow : tokens row = Token.names names) : arguments row = names := by
  have hitems : ∀ item ∈ names.map fun name => [Token.identifier name],
      Token.IsExpression 0 item := by
    intro item hitem
    obtain ⟨name, -, rfl⟩ := List.mem_map.mp hitem
    exact ⟨fun _ => rfl, rfl⟩
  have htexts : ∀ group, (tokens group ∈ names.map fun name => [Token.identifier name]) →
      (join group).isEmpty = false := by
    intro group hgroup
    obtain ⟨name, hname, hword⟩ := List.mem_map.mp hgroup
    rw [join_of_word hword.symm, isEmpty_of_isIdentifier (hnames name hname)]
  have hwords := forall₂_arguments hitems (by simpa using hne) htexts hrow
  rw [List.forall₂_map_right_iff] at hwords
  have hsame : List.Forall₂ (· = ·) (arguments row) names := hwords.imp fun text name hword => by
    obtain ⟨group, hgroup, rfl⟩ := hword
    exact join_of_word hgroup
  rwa [List.forall₂_eq_eq_eq] at hsame

end Lexeme
end RemoteCalls
