import RemoteCalls.Proofs.Outline.NoteForms
import RemoteCalls.Proofs.Outline.Statements
import RemoteCalls.Proofs.Remote.Directives

/-!
# Directives as they are written

A directive is written as its word, with its arguments in parentheses behind it if it has any. A list
of directives stands between the parentheses of a marker, in front of a function or in a statement of
its body. A statement with one directive that has arguments is the note of that directive; every other
list becomes the arguments of the marker's own note, and these are read again as texts. Either way the
notes bring just the directives that are written, in their order.
-/

namespace RemoteCalls

namespace Token

/-- The tokens between the parentheses of a list of names close no group around them. -/
theorem isExpression_names (names : List String) :
    IsExpression 1 (Token.names names ++ [.closeParen]) := by
  induction names with
  | nil => exact ⟨nofun, rfl⟩
  | cons name rest ih =>
    cases rest with
    | nil => exact ⟨nofun, nofun, rfl⟩
    | cons next rest =>
      rw [names_cons_cons]
      exact ⟨nofun, nofun, ih⟩

theorem Nested.append {ts us : List Token} (h : Nested ts) (hmore : Nested us) :
    Nested (ts ++ us) := by
  induction h with
  | nil => exact hmore
  | plain hopener hcloser _ ih => exact .plain hopener hcloser ih
  | @group opener closer inner ts hcloses hinner _ _ ih =>
    have hgroup := Nested.group hcloses hinner ih
    simpa using hgroup

/-- Properly nested items are properly nested with commas between them. -/
theorem Nested.intercalate {items : List (List Token)} (h : ∀ item ∈ items, Nested item) :
    Nested ([.comma].intercalate items) := by
  induction items with
  | nil => exact .nil
  | cons item rest ih =>
    obtain ⟨hitem, hrest⟩ := List.forall_mem_cons.mp h
    cases rest with
    | nil => simpa using hitem
    | cons next rest =>
      rw [List.intercalate_cons_cons, List.append_assoc]
      exact hitem.append (.plain rfl rfl (ih hrest))

theorem nested_names (names : List String) : Nested (Token.names names) := by
  refine .intercalate fun item hitem => ?_
  obtain ⟨name, -, rfl⟩ := List.mem_map.mp hitem
  exact .plain rfl rfl .nil

end Token

theorem DirectiveKind.isIdentifier_text (kind : DirectiveKind) :
    Configuration.isIdentifier kind.text = true := by
  cases kind <;> decide

namespace Directive

/-- The tokens of a directive. -/
def tokens (directive : Directive) : List Token :=
  .identifier directive.kind.text ::
    if directive.arguments = [] then []
    else .openParen :: (Token.names directive.arguments ++ [.closeParen])

/-- The tokens of some directives with commas between them. -/
def listed (directives : List Directive) : List Token :=
  [.comma].intercalate (directives.map tokens)

theorem listed_singleton (directive : Directive) : listed [directive] = directive.tokens :=
  List.intercalate_singleton

theorem listed_cons_cons (directive next : Directive) (rest : List Directive) :
    listed (directive :: next :: rest) = directive.tokens ++ .comma :: listed (next :: rest) := by
  rw [listed, List.map_cons, List.map_cons, List.intercalate_cons_cons, List.append_assoc]
  rfl

/-- The arguments of a directive are names. -/
def TakesNames (directive : Directive) : Prop :=
  ∀ argument ∈ directive.arguments, Configuration.isIdentifier argument = true

instance (directive : Directive) : Decidable directive.TakesNames :=
  inferInstanceAs
    (Decidable (∀ argument ∈ directive.arguments, Configuration.isIdentifier argument = true))

variable {directive : Directive} {row : List Lexeme}

theorem tokens_of_nil (h : directive.arguments = []) :
    directive.tokens = [.identifier directive.kind.text] := by
  rw [tokens, if_pos h]

theorem tokens_of_ne_nil (h : directive.arguments ≠ []) : directive.tokens =
    .identifier directive.kind.text ::
      .openParen :: (Token.names directive.arguments ++ [.closeParen]) := by
  rw [tokens, if_neg h]

theorem isExpression_tokens (directive : Directive) : Token.IsExpression 0 directive.tokens := by
  by_cases h : directive.arguments = []
  · rw [tokens_of_nil h]
    exact ⟨fun _ => rfl, rfl⟩
  · rw [tokens_of_ne_nil h]
    exact ⟨fun _ => rfl, fun _ => rfl, Token.isExpression_names directive.arguments⟩

theorem nested_listed (directives : List Directive) : Token.Nested (listed directives) := by
  refine .intercalate fun item hitem => ?_
  obtain ⟨directive, -, rfl⟩ := List.mem_map.mp hitem
  by_cases h : directive.arguments = []
  · rw [tokens_of_nil h]
    exact .plain rfl rfl .nil
  · rw [tokens_of_ne_nil h]
    exact .plain rfl rfl (.group rfl (Token.nested_names directive.arguments) .nil)

/-! ## Texts of directives -/

/-- A word with a group in parentheses behind it has no blanks at its ends. -/
theorem trimmed_call {kind : DirectiveKind} {gap inner : List Char} :
    Text.Trimmed (kind.text.toList ++ (gap ++ '(' :: (inner ++ [')'])))
      ((kind.text.toList ++ gap) ++ '(' :: (inner ++ [')'])) := by
  have hword := kind.isIdentifier_text
  rw [← List.append_assoc]
  refine .refl ?_ ?_
  · intro c hc
    rw [List.append_assoc, List.head?_append_of_ne_nil _ (toList_ne_nil_of_isIdentifier hword)] at hc
    exact isBlank_of_isIdentifier hword c (List.mem_of_mem_head? hc)
  · intro c hc
    rw [← List.cons_append, ← List.append_assoc, List.getLast?_concat] at hc
    cases hc
    decide

/-- The text of a directive is read as the directive. -/
theorem ofText?_join (hnames : directive.TakesNames) (hrow : Lexeme.tokens row = directive.tokens) :
    ofText? (Lexeme.join row) = some directive := by
  obtain ⟨kind, arguments⟩ := directive
  by_cases hempty : arguments = []
  · subst hempty
    rw [tokens_of_nil rfl] at hrow
    obtain ⟨word, none, rfl, hword, hnone⟩ := List.map_eq_cons_iff.mp hrow
    obtain rfl : none = [] := List.map_eq_nil_iff.mp hnone
    rw [Lexeme.join, hword, ofText?_eq_some_iff]
    have hkind := kind.isIdentifier_text
    exact .word (.refl (fun c hc => isBlank_of_isIdentifier hkind c (List.mem_of_mem_head? hc))
      fun c hc => isBlank_of_isIdentifier hkind c (List.mem_of_mem_getLast? hc))
  · rw [tokens_of_ne_nil hempty] at hrow
    obtain ⟨word, opener, inside, closer, none, rfl, hword, hopener, hinside, hcloser, hnone⟩ :=
      Lexeme.exists_call hrow
    obtain rfl : none = [] := List.map_eq_nil_iff.mp hnone
    obtain ⟨gap, hgap, hjoin⟩ := Lexeme.exists_join_cons word (opener :: (inside ++ [closer]))
    obtain ⟨gap', hgap', hjoin'⟩ := Lexeme.exists_join_cons opener (inside ++ [closer])
    obtain ⟨inner, hinner, hpieces⟩ := Lexeme.exists_join_names hnames hempty hinside [closer] hgap'
    have htext : (Lexeme.join (word :: opener :: (inside ++ [closer]))).toList =
        kind.text.toList ++ (gap ++ '(' :: (gap' ++ inner ++ [')'])) := by
      rw [hjoin, hjoin', hinner, hword, hopener, Lexeme.join, hcloser]
      simp [Token.text]
    obtain ⟨pieces, cut, hcut⟩ := exists_commaPieces (gap' ++ inner)
    rw [ofText?_eq_some_iff, ← show _ = arguments from hpieces, hcut]
    refine .call (htext ▸ trimmed_call) ?_ cut
    simpa using trimmed_of_isIdentifier kind.isIdentifier_text (List.forall_mem_nil _) hgap

theorem isEmpty_join (hrow : Lexeme.tokens row = directive.tokens) :
    (Lexeme.join row).isEmpty = false := by
  obtain ⟨word, behind, rfl, hword, -⟩ := List.map_eq_cons_iff.mp hrow
  obtain ⟨gap, -, hjoin⟩ := Lexeme.exists_join_cons word behind
  rw [← Bool.not_eq_true, String.isEmpty_iff, ← String.toList_eq_nil_iff, hjoin, hword]
  have hne := toList_ne_nil_of_isIdentifier directive.kind.isIdentifier_text
  simp [Token.text, hne]

/-- The arguments of a list of directives are read as these directives. -/
theorem filterMap_arguments {directives : List Directive} (hne : directives ≠ [])
    (hnames : ∀ directive ∈ directives, directive.TakesNames)
    (hrow : Lexeme.tokens row = listed directives) :
    (Lexeme.arguments row).filterMap ofText? = directives := by
  have hitems : ∀ item ∈ directives.map tokens, Token.IsExpression 0 item := by
    intro item hitem
    obtain ⟨directive, -, rfl⟩ := List.mem_map.mp hitem
    exact isExpression_tokens directive
  have htexts : ∀ group, Lexeme.tokens group ∈ directives.map tokens →
      (Lexeme.join group).isEmpty = false := by
    intro group hgroup
    obtain ⟨directive, -, htokens⟩ := List.mem_map.mp hgroup
    exact isEmpty_join htokens.symm
  have hwritten := Lexeme.forall₂_arguments hitems (by simpa using hne) htexts hrow
  rw [List.forall₂_map_right_iff] at hwritten
  generalize Lexeme.arguments row = texts at hwritten
  clear hne hrow hitems htexts
  induction hwritten with
  | nil => rfl
  | @cons text directive texts directives hdirective _ ih =>
    obtain ⟨hfirst, hrest⟩ := List.forall_mem_cons.mp hnames
    obtain ⟨group, hgroup, rfl⟩ := hdirective
    rw [List.filterMap_cons_some (ofText?_join hfirst hgroup), ih hrest]

end Directive

/-! ## Notes of directives -/

namespace Note

open Directive (listed)

variable {marker : String} {directives : List Directive} {row : List Lexeme}

/-- The note of a marker with a list of directives as its arguments. -/
theorem exists_of?_listed (hmarker : Configuration.isIdentifier marker = true)
    (hother : DirectiveKind.of? marker = none) (hne : directives ≠ [])
    (hnames : ∀ directive ∈ directives, directive.TakesNames)
    (hrow : Lexeme.tokens row = listed directives) :
    ∃ note, of? marker (Lexeme.arguments row) = some note ∧ Directive.ofNote note = directives := by
  obtain ⟨note, hnote, hname, harguments⟩ :=
    exists_of_isIdentifier hmarker (Lexeme.arguments row)
  refine ⟨note, hnote, ?_⟩
  rw [Directive.ofNote, hname, hother, harguments]
  exact Directive.filterMap_arguments hne hnames hrow

/-- The note of a statement with one directive that has arguments is that of the directive. -/
theorem exists_ofMarker_call {directive : Directive} (harguments : directive.arguments ≠ [])
    (hnames : directive.TakesNames) (hrow : Lexeme.tokens row = directive.tokens) :
    ∃ note, ofMarker marker row = some note ∧ Directive.ofNote note = [directive] := by
  have hword := directive.kind.isIdentifier_text
  rw [Directive.tokens_of_ne_nil harguments] at hrow
  obtain ⟨word, opener, inside, closer, none, rfl, hidentifier, hopener, hinside, hcloser, hnone⟩ :=
    Lexeme.exists_call hrow
  obtain rfl : none = [] := List.map_eq_nil_iff.mp hnone
  obtain ⟨_, position, trivia⟩ := word
  obtain ⟨_, position', trivia'⟩ := opener
  cases hidentifier
  cases hopener
  obtain ⟨note, hnote, hname, hwritten⟩ :=
    exists_of_isIdentifier hword (Lexeme.arguments inside)
  have hlast : ((inside ++ [closer]).getLast?.map (·.token)) = some .closeParen := by
    rw [List.getLast?_concat, Option.map_some, hcloser]
  have hmatch : Lexeme.parensMatch 0 inside = true := by
    refine Lexeme.parensMatch_eq_true ?_
    rw [hinside]
    exact Token.nested_names directive.arguments
  refine ⟨note, ?_, ?_⟩
  · rw [ofMarker, List.dropLast_concat]
    exact (if_pos ⟨hlast, hmatch⟩).trans hnote
  · rw [Directive.ofNote, hname, DirectiveKind.of?_text, hwritten,
      Lexeme.arguments_of_names hnames harguments hinside]

/-- A list of directives with more than one of them, or with one that has no arguments, is no single
call. -/
theorem ofMarker_of_listed {directive : Directive} {rest : List Directive}
    (hrow : Lexeme.tokens row = listed (directive :: rest))
    (hother : rest ≠ [] ∨ directive.arguments = []) :
    ofMarker marker row = of? marker (Lexeme.arguments row) := by
  unfold ofMarker
  split
  · next name position trivia position' trivia' behind =>
    refine if_neg ?_
    rintro ⟨-, hmatch⟩
    by_cases harguments : directive.arguments = []
    · -- A comma stands behind the word, or nothing.
      cases rest with
      | nil =>
        rw [Directive.listed_singleton, Directive.tokens_of_nil harguments] at hrow
        cases (List.cons.inj hrow).2
      | cons next rest =>
        rw [Directive.listed_cons_cons, Directive.tokens_of_nil harguments] at hrow
        cases (List.cons.inj (List.cons.inj hrow).2).1
    · -- The parenthesis of the first directive is closed before the end.
      obtain ⟨next, rest, rfl⟩ := List.exists_cons_of_ne_nil (hother.resolve_right harguments)
      have hbehind : Lexeme.tokens behind = Token.names directive.arguments ++
          .closeParen :: .comma :: listed (next :: rest) := by
        have htokens : listed (directive :: next :: rest) =
            .identifier directive.kind.text :: .openParen :: (Token.names directive.arguments ++
              .closeParen :: .comma :: listed (next :: rest)) := by
          rw [Directive.listed_cons_cons, Directive.tokens_of_ne_nil harguments]
          simp
        rw [htokens] at hrow
        exact (List.cons.inj (List.cons.inj hrow).2).2
      obtain ⟨inside, _, rfl, hinside, hclose⟩ := List.map_eq_append_iff.mp hbehind
      obtain ⟨closer, later, rfl, hcloser, hlater⟩ := List.map_eq_cons_iff.mp hclose
      have hnested : Token.Nested (Lexeme.tokens inside) := by
        rw [show Lexeme.tokens inside = Token.names directive.arguments from hinside]
        exact Token.nested_names directive.arguments
      have hne : later ≠ [] := by
        rintro rfl
        cases hlater
      rw [List.dropLast_append_of_ne_nil (List.cons_ne_nil _ _), List.dropLast_cons_of_ne_nil hne,
        Lexeme.parensMatch_of_nested hnested] at hmatch
      simp [Lexeme.parensMatch, hcloser] at hmatch
  · rfl

/-- The note of a statement with a list of directives brings these. -/
theorem exists_ofMarker_listed (hmarker : Configuration.isIdentifier marker = true)
    (hother : DirectiveKind.of? marker = none) (hne : directives ≠ [])
    (hnames : ∀ directive ∈ directives, directive.TakesNames)
    (hrow : Lexeme.tokens row = listed directives) :
    ∃ note, ofMarker marker row = some note ∧ Directive.ofNote note = directives := by
  obtain ⟨directive, rest, rfl⟩ := List.exists_cons_of_ne_nil hne
  by_cases hcall : rest ≠ [] ∨ directive.arguments = []
  · rw [ofMarker_of_listed hrow hcall]
    exact exists_of?_listed hmarker hother hne hnames hrow
  · obtain ⟨hrest, harguments⟩ := not_or.mp hcall
    obtain rfl : rest = [] := not_not.mp hrest
    rw [Directive.listed_singleton] at hrow
    exact exists_ofMarker_call harguments (hnames directive (List.mem_cons_self ..)) hrow

/-! ## Statements -/

variable {rules : NoteRules}

/-- The tokens of the statement of a marker with a list of directives. -/
def statementTokens (marker : String) (directives : List Directive) : List Token :=
  .identifier marker :: .openParen :: (listed directives ++ [.closeParen, .semicolon])

/-- A statement in front of a body brings its note in front of the notes of the body. -/
theorem statements_of_statement (hmarker : rules.isMarker marker = true)
    (hrow : Lexeme.tokens row = statementTokens marker directives) (body : List Lexeme) :
    ∃ inner, Lexeme.tokens inner = listed directives ∧
      statements rules true 0 (row ++ body) =
        (ofMarker marker inner).toList ++ statements rules true 0 body := by
  obtain ⟨word, opener, inner, closer, _, rfl, hword, hopener, hinner, hcloser, hend⟩ :=
    Lexeme.exists_call hrow
  obtain ⟨semicolon, none, rfl, hsemicolon, hnone⟩ := List.map_eq_cons_iff.mp hend
  obtain rfl : none = [] := List.map_eq_nil_iff.mp hnone
  obtain ⟨_, position, trivia⟩ := word
  obtain ⟨_, position', trivia'⟩ := opener
  cases hword
  cases hopener
  refine ⟨inner, hinner, ?_⟩
  have hmatch : Lexeme.parensMatch 0 inner = true := by
    refine Lexeme.parensMatch_eq_true ?_
    rw [hinner]
    exact Directive.nested_listed directives
  have hsplit := Lexeme.splitParens_of_parensMatch hmatch hcloser (semicolon :: body)
  let front : List Lexeme := ⟨.openParen, position', trivia'⟩ :: inner
  have hbegins : statement? rules (⟨.identifier marker, position, trivia⟩ ::
      (front ++ closer :: semicolon :: body)) =
        some (ofMarker marker inner, front.length + 1) := by
    rw [List.cons_append, statement?, if_pos hmarker]
    dsimp only
    rw [hsplit]
    rfl
  have hrest : statements rules (beginsStatement closer.token) 0 (semicolon :: body) =
      statements rules true 0 body := by
    rw [hcloser, statements, hsemicolon]
    rfl
  have htaken := statements_of_statement? hbegins
  rw [hrest] at htaken
  simpa [front] using htaken

end Note

end RemoteCalls
