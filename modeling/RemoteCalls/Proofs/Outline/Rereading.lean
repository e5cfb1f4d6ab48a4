import RemoteCalls.Proofs.Outline.Isolation
import RemoteCalls.Proofs.Outline.Signature

/-!
# Files that are written from declarations

A text that is written from the items of declarations is read in as many steps as there are
declarations, and in each step just one of them is found. Comments between the items add no notes,
so that none waits at the end.
-/

namespace RemoteCalls

/-- In a text without an at sign there are no notes. -/
theorem Note.ofComment_of_not_mem (rules : NoteRules) {cs : List Char} (h : '@' ∉ cs)
    (afterWord : Bool) : ofComment rules afterWord 0 cs = [] := by
  induction cs generalizing afterWord with
  | nil => simp [ofComment]
  | cons c cs ih =>
    rw [List.mem_cons, not_or] at h
    rw [ofComment, if_neg fun hnote => h.1 hnote.1.symm]
    exact ih h.2 _

/-- Where no note waits, quiet trivia bring none. -/
theorem PendingNote.absorb_of_quiet (rules : NoteRules) {trivia : List Trivia} (h : Quiet trivia) :
    absorb rules [] trivia = [] := by
  induction trivia with
  | nil => rfl
  | cons first trivia ih =>
    have htail : Quiet trivia := fun body position hmem =>
      h body position (List.mem_cons_of_mem _ hmem)
    cases first with
    | blankLine position => exact ih htail
    | comment body position =>
      rw [absorb, Note.ofComment_of_not_mem rules (h body position (List.mem_cons_self ..))]
      exact ih htail

namespace Outline

open Reader (headToken external)

variable {setting : Setting} {items more : List Item} {Q R : List Finding → Prop}

/-- Whether a token can begin a declaration and nothing else, unless it is a name. -/
def beginsDeclaration : Token → Bool
  | .identifier _ | .builtin _ | .qualifier _ | .struct | .union | .enum => true
  | _ => false

/-- A name begins a declaration if it is no marker, and if a star follows the parenthesis behind
it. -/
theorem Front.of_declaration {rules : NoteRules} {row : List Lexeme}
    (hfirst : beginsDeclaration (headToken row) = true)
    (hname : ∀ name, headToken row = .identifier name → rules.isMarker name = false ∧
      (headToken row.tail = .openParen → headToken row.tail.tail = .star)) :
    Front.of rules row = .declaration := by
  unfold Front.of
  generalize headToken row = first at hfirst hname ⊢
  generalize headToken row.tail = second at hname ⊢
  generalize headToken row.tail.tail = third at hname ⊢
  cases first with
  | identifier name =>
    obtain ⟨hmarker, hstar⟩ := hname name rfl
    have hbegins := beginsMarker_of_not_marker (fun name hfirst => (hname name hfirst).1) second
    have hmacro : beginsMacro (.identifier name) second third = false := by
      unfold beginsMacro
      split
      · simp [hstar rfl]
      · rfl
    simp [ofTokens, beginsLinkage, hbegins, hmacro]
  | builtin word => rfl
  | qualifier word => rfl
  | struct => rfl
  | union => rfl
  | enum => rfl
  | _ => cases hfirst

/-- A name that is no marker begins a macro call in front of a parenthesis with no star behind it.
-/
theorem Front.of_macroCall {rules : NoteRules} {row : List Lexeme} {name : String}
    (hfirst : headToken row = .identifier name) (hname : rules.isMarker name = false)
    (hsecond : headToken row.tail = .openParen) (hthird : headToken row.tail.tail ≠ .star) :
    Front.of rules row = .macroCall := by
  have hmarker : Reader.beginsMarker rules (.identifier name) .openParen = false :=
    beginsMarker_of_not_marker (fun _ h => Token.identifier.inj h ▸ hname) _
  simp [Front.of, hfirst, hsecond, ofTokens, beginsLinkage, hmarker, beginsMacro, hthird]

/-- Some items stand for one thing at file scope: a step takes them, and nothing behind them. What
it finds satisfies `Q`. -/
structure StandsFor (setting : Setting) (items : List Item) (Q : List Finding → Prop) : Prop where
  nonempty : items ≠ []
  step : ∀ row behind linkage, Spells items row → (∀ lexeme ∈ row, Quiet lexeme.trivia) →
    ∃ found, Q found ∧
      Outline.step setting ⟨row ++ behind, [], linkage⟩ = (found, ⟨behind, [], linkage⟩)

theorem StandsFor.mono (h : StandsFor setting items Q) (hQ : ∀ found, Q found → R found) :
    StandsFor setting items R := by
  refine ⟨h.nonempty, fun row behind linkage hrow hquiet => ?_⟩
  obtain ⟨found, hfound, hstep⟩ := h.step row behind linkage hrow hquiet
  exact ⟨found, hQ found hfound, hstep⟩

/-- A row that spells some items has a lexeme. -/
theorem row_ne_nil (hitems : items ≠ []) {row : List Lexeme} (hrow : Spells items row) :
    row ≠ [] := by
  cases hrow with
  | nil => exact absurd rfl hitems
  | token _ => exact List.cons_ne_nil _ _
  | dimension _ _ _ _ _ _ => exact List.cons_ne_nil _ _
  | width _ _ _ _ => exact List.cons_ne_nil _ _

/-- Where a declaration begins, and no note waits or is brought, a step reads the declaration. -/
theorem step_of_declaration {row : List Lexeme} (hne : row ≠ [])
    (hquiet : ∀ lexeme ∈ row, Quiet lexeme.trivia) {behind : List Lexeme}
    (hfront : Front.of setting.rules (row ++ behind) = .declaration) (linkage : Nat) :
    step setting ⟨row ++ behind, [], linkage⟩ =
      stepDeclaration setting ⟨row ++ behind, [], linkage⟩ := by
  obtain ⟨lexeme, rest, rfl⟩ := List.exists_cons_of_ne_nil hne
  have hpending := PendingNote.absorb_of_quiet setting.rules
    (hquiet lexeme (List.mem_cons_self ..))
  simp only [step, List.cons_append, hpending, stepAt] at hfront ⊢
  rw [hfront]

/-- Items that a declaration takes stand for what it declares. -/
theorem standsFor_declaration {P : List Declaration → Prop} (hitems : items ≠ [])
    (htakes : ∀ steps, Reader.Takes setting [] (external steps) items (fun _ => True)
      fun declared _ => P declared)
    (hfront : ∀ row behind, Spells items row → Front.of setting.rules (row ++ behind) = .declaration) :
    StandsFor setting items fun found =>
      ∃ declared, P declared ∧ found = declared.map fun d => .declaration (d.annotate []) := by
  refine ⟨hitems, fun row behind linkage hrow hquiet => ?_⟩
  have hread := htakes (Reader.stepsFor (row ++ behind).length) row behind .variable hrow trivial
  have houtcome := Reader.readExternal_outcome setting (row ++ behind) []
  unfold Reader.readExternal at houtcome
  rw [step_of_declaration (row_ne_nil hitems hrow) hquiet (hfront row behind hrow)]
  unfold stepDeclaration Reader.readExternal
  cases hrun : external (Reader.stepsFor (row ++ behind).length) setting
      ⟨row ++ behind, .variable, []⟩ with
  | error failure =>
    -- There are always enough steps to read a declaration.
    rw [hrun] at hread houtcome
    cases failure with
    | outOfSteps => exact houtcome.elim
    | malformed diagnostic => cases hread
    | fatal diagnostic => cases hread
  | ok result =>
    obtain ⟨declared, cursor⟩ := result
    rw [hrun] at hread
    obtain ⟨hrest, hP⟩ := hread
    refine ⟨_, ⟨declared, hP, rfl⟩, ?_⟩
    simp [declarations, hrest]

/-- A macro call is taken with the semicolon behind it. -/
theorem macroCall_takes (setting : Setting) {name : String} {arguments : List Item}
    (harguments : Token.Balanced (arguments.flatMap Item.tokens)) :
    Reader.Gives setting [] macroCall (.token (.identifier name) :: .token .openParen ::
      (arguments ++ [.token .closeParen, .token .semicolon])) (fun _ => True) () := by
  unfold macroCall
  refine .advance ?_
  rw [Reader.discard_eq, bind_assoc]
  refine .enclosed rfl harguments fun row => ?_
  unfold Reader.endStatement Reader.accept
  rw [pure_bind, Reader.discard_eq, bind_assoc, bind_assoc]
  refine .token fun t _ => ?_
  simp only [Item.front, if_true, bind_assoc, pure_bind]
  exact .advance (.pure ⟨trivial, rfl⟩)

/-- A macro call stands for nothing. A star behind its parenthesis would make it a declarator. -/
theorem standsFor_macroCall {name : String} {arguments : List Item}
    (hname : setting.rules.isMarker name = false)
    (hstar : ∀ t, Item.front t (arguments ++ [.token .closeParen, .token .semicolon]) ≠ .star)
    (harguments : Token.Balanced (arguments.flatMap Item.tokens)) :
    StandsFor setting (.token (.identifier name) :: .token .openParen ::
      (arguments ++ [.token .closeParen, .token .semicolon])) (· = []) := by
  refine ⟨List.cons_ne_nil _ _, fun row behind linkage hrow hquiet => ?_⟩
  have hread := macroCall_takes setting harguments row behind .variable hrow trivial
  have houtcome := macroCall_reads setting ⟨row ++ behind, .variable, []⟩
    (Cursor.consistent_of_tags_nil rfl) rfl
  have hrun : ∃ cursor, macroCall setting ⟨row ++ behind, .variable, []⟩ = .ok ((), cursor) ∧
      cursor.rest = behind := by
    cases hcall : macroCall setting ⟨row ++ behind, .variable, []⟩ with
    | error failure =>
      rw [hcall] at hread houtcome
      cases hread
      exact houtcome.elim
    | ok result =>
      rw [hcall] at hread
      exact ⟨result.2, rfl, hread.1⟩
  obtain ⟨cursor, hrun, rfl⟩ := hrun
  obtain ⟨lexeme, rest, rfl, hrest⟩ := hrow.exists_cons
  obtain ⟨opener, inner, rfl, hinner⟩ := hrest.exists_cons
  have hfront : Front.of setting.rules (lexeme :: opener :: inner ++ cursor.rest) = .macroCall :=
    Front.of_macroCall (hrow.headToken cursor.rest) hname (hrest.headToken cursor.rest)
      (hinner.headToken cursor.rest ▸ hstar _)
  have hpending := PendingNote.absorb_of_quiet setting.rules
    (hquiet lexeme (List.mem_cons_self ..))
  refine ⟨[], rfl, ?_⟩
  simp only [List.cons_append] at hfront hrun
  simp only [Outline.step, List.cons_append, hpending, stepAt, hfront, stepMacro, run, hrun]

/-- Reading some items at file scope finds something, and then what is behind them. No note waits
between. -/
def Yields (setting : Setting) (items : List Item) (Q : List Finding → Prop) : Prop :=
  ∀ row behind linkage, Spells items row → (∀ lexeme ∈ row, Quiet lexeme.trivia) →
    ∃ found, Q found ∧ scan setting ⟨row ++ behind, [], linkage⟩ =
      (found ++ (scan setting ⟨behind, [], linkage⟩).1, (scan setting ⟨behind, [], linkage⟩).2)

theorem yields_nil : Yields setting [] (· = []) := by
  intro row behind linkage hrow _
  cases hrow
  exact ⟨[], rfl, rfl⟩

/-- One step reads the items of one thing. -/
theorem StandsFor.yields (h : StandsFor setting items Q) : Yields setting items Q := by
  intro row behind linkage hrow hquiet
  obtain ⟨found, hQ, hstep⟩ := h.step row behind linkage hrow hquiet
  have hne : (⟨row ++ behind, [], linkage⟩ : Outline).rest ≠ [] :=
    List.append_ne_nil_of_left_ne_nil (row_ne_nil h.nonempty hrow) _
  refine ⟨found, hQ, ?_⟩
  rw [scan_of_ne_nil hne, hstep]

/-- What two rows of items yield is found in order. -/
theorem Yields.append (h : Yields setting items Q) (hmore : Yields setting more R) :
    Yields setting (items ++ more) fun found =>
      ∃ first rest, found = first ++ rest ∧ Q first ∧ R rest := by
  intro row behind linkage hrow hquiet
  obtain ⟨front, back, rfl, hfront, hback⟩ := hrow.of_append
  obtain ⟨first, hQ, hfirst⟩ := h front (back ++ behind) linkage hfront fun lexeme hlexeme =>
    hquiet lexeme (List.mem_append_left _ hlexeme)
  obtain ⟨rest, hR, hrest⟩ := hmore back behind linkage hback fun lexeme hlexeme =>
    hquiet lexeme (List.mem_append_right _ hlexeme)
  refine ⟨first ++ rest, ⟨first, rest, rfl, hQ, hR⟩, ?_⟩
  rw [List.append_assoc, hfirst, hrest, List.append_assoc]

theorem Yields.mono (h : Yields setting items Q) (hQ : ∀ found, Q found → R found) :
    Yields setting items R := by
  intro row behind linkage hrow hquiet
  obtain ⟨found, hfound, hscan⟩ := h row behind linkage hrow hquiet
  exact ⟨found, hQ found hfound, hscan⟩

/-- A text that is written from some items is read from a quiet row that spells them. -/
theorem exists_scan_of_written {text : String} (h : Written text.toList items []) (rules : NoteRules)
    (file : Path) (origin : Origin) : ∃ finish row closing, Spells items row ∧
      (∀ lexeme ∈ row, Quiet lexeme.trivia) ∧ Quiet closing ∧
      let setting : Setting := ⟨rules, file, origin, finish⟩
      let last := (scan setting ⟨row, [], 0⟩).2
      ofText rules file origin text = (scan setting ⟨row, [], 0⟩).1 ++
        PendingNote.dangling setting (PendingNote.absorb rules last.pending closing) := by
  obtain ⟨lexed, hlexed, hspells, hquiet, hclosing⟩ := h.ofChars
  refine ⟨lexed.finish, lexed.lexemes, lexed.closing, hspells, hquiet, hclosing, ?_⟩
  unfold ofText Lexed.ofText
  rw [hlexed]
  exact ofLexed_eq ..

/-- A text that is written from some items is read into what they yield, and nothing else. -/
theorem ofText_of_written {rules : NoteRules} {file : Path} {origin : Origin} {text : String}
    (h : Written text.toList items [])
    (hyields : ∀ finish, Yields ⟨rules, file, origin, finish⟩ items Q) :
    Q (ofText rules file origin text) := by
  obtain ⟨finish, row, closing, hspells, hquiet, hclosing, htext⟩ :=
    exists_scan_of_written h rules file origin
  obtain ⟨found, hQ, hscan⟩ := hyields finish row [] 0 hspells hquiet
  have hend : scan ⟨rules, file, origin, finish⟩ ⟨[], [], 0⟩ = ([], ⟨[], [], 0⟩) := scan_of_nil rfl
  rw [hend, List.append_nil, List.append_nil] at hscan
  have hdangling : PendingNote.dangling ⟨rules, file, origin, finish⟩ [] = [] := by
    unfold PendingNote.dangling
    split <;> rfl
  rw [htext, hscan, PendingNote.absorb_of_quiet rules hclosing, hdangling, List.append_nil]
  exact hQ

end Outline

end RemoteCalls
