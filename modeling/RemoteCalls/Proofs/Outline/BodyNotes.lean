import RemoteCalls.Proofs.Outline.Association
import RemoteCalls.Proofs.Outline.BodyStatements
import RemoteCalls.Proofs.Outline.Statements

/-!
# The notes of a body and its statements

The notes of a body are meant to be those of its marker statements, which are simple statements of
the forms `MARKER;` and `MARKER(...);`. What is found in a body is decided by the token in front of
a name and the one behind it. It is what is meant if no marker statement stands right behind a word
of control or a directive, and if no other place looks like the beginning of one.
-/

namespace RemoteCalls.Body

/-- The note of a simple statement if it is a marker statement: the name of a marker, and its
arguments in parentheses if there are any. -/
def marked? (rules : NoteRules) : List Lexeme → Option (Option Note)
  | [⟨.identifier name, _, _⟩] => if rules.isMarker name then some (Note.of? name []) else none
  | ⟨.identifier name, _, _⟩ :: ⟨.openParen, _, _⟩ :: rest =>
    if rules.isMarker name ∧ rest.getLast?.map (·.token) = some .closeParen ∧
        Lexeme.parensMatch 0 rest.dropLast then
      some (Note.ofMarker name rest.dropLast)
    else none
  | _ => none

/-- The notes of the marker statements of a body, at any depth, in the order in which they are
written. -/
def written (rules : NoteRules) : Body → List Note
  | done | unfinished _ => []
  | simple row _ rest => (marked? rules row).join.toList ++ rest.written rules
  | leading _ rest => rest.written rules
  | block _ _ inner _ rest => inner.written rules ++ rest.written rules

/-- The notes that are found in a body, where `fresh` says whether a statement can begin at its
front. A marker statement is found where one can begin; in all other rows those are found that look
like one. -/
def found (rules : NoteRules) : (fresh : Bool) → Body → List Note
  | _, done => []
  | fresh, simple row semicolon rest =>
    (if fresh ∧ (marked? rules row).isSome then (marked? rules row).join.toList
      else Note.statements rules fresh 0 (row ++ [semicolon])) ++ rest.found rules true
  | fresh, unfinished row => Note.statements rules fresh 0 row
  | fresh, leading row rest =>
    Note.statements rules fresh 0 row ++ rest.found rules (Note.freshBehind fresh row)
  | fresh, block head _ inner closer rest =>
    Note.statements rules fresh 0 head ++ inner.found rules true ++
      rest.found rules (Note.beginsStatement closer.token)

/-- Whether a row has a place that looks like the beginning of a marker statement: a statement can
begin there, and the name of a marker with a parenthesis or a semicolon behind it stands there. -/
def hasDecoy (rules : NoteRules) : (fresh : Bool) → List Lexeme → Bool
  | _, [] => false
  | fresh, word :: rest =>
    (fresh && Reader.beginsMarker rules word.token (Reader.headToken rest)) ||
      hasDecoy rules (Note.beginsStatement word.token) rest

/-- The parentheses of each row of a body match. -/
def ParensMatch : Body → Prop
  | done => True
  | simple row _ rest => Lexeme.parensMatch 0 row = true ∧ rest.ParensMatch
  | unfinished row => Lexeme.parensMatch 0 row = true
  | leading row rest => Lexeme.parensMatch 0 row = true ∧ rest.ParensMatch
  | block head _ inner _ rest =>
    Lexeme.parensMatch 0 head = true ∧ inner.ParensMatch ∧ rest.ParensMatch

/-- In a body each marker statement stands where a statement can begin, and no other row has a place
that looks like one. -/
def Quiet (rules : NoteRules) : (fresh : Bool) → Body → Prop
  | _, done => True
  | fresh, simple row semicolon rest =>
    (if (marked? rules row).isSome then fresh = true
      else hasDecoy rules fresh (row ++ [semicolon]) = false) ∧ rest.Quiet rules true
  | fresh, unfinished row => hasDecoy rules fresh row = false
  | fresh, leading row rest =>
    hasDecoy rules fresh row = false ∧ rest.Quiet rules (Note.freshBehind fresh row)
  | fresh, block head _ inner closer rest =>
    hasDecoy rules fresh head = false ∧ inner.Quiet rules true ∧
      rest.Quiet rules (Note.beginsStatement closer.token)

variable {rules : NoteRules} {row behind : List Lexeme}

/-! ## What is found in a row -/

/-- In a row that has no place that looks like a marker statement nothing is found. -/
theorem statements_eq_nil {fresh : Bool} (h : hasDecoy rules fresh row = false) :
    Note.statements rules fresh 0 row = [] := by
  induction row generalizing fresh with
  | nil => rfl
  | cons lexeme rest ih =>
    rw [hasDecoy, Bool.or_eq_false_iff, Bool.and_eq_false_iff] at h
    have hnone : (if fresh then Note.statement? rules (lexeme :: rest) else none) = none := by
      rcases h.1 with rfl | hbegins
      · rfl
      · rw [Note.statement?_eq_none hbegins, ite_self]
    rw [Note.statements, hnone]
    exact ih h.2

/-- Where a statement can begin the note of a marker statement is found, and nothing else in it. -/
theorem statements_of_marked {semicolon : Lexeme} {note : Option Note}
    (h : marked? rules row = some note) (hsemicolon : semicolon.token = .semicolon) :
    Note.statements rules true 0 (row ++ [semicolon]) = note.toList := by
  obtain ⟨token, position, trivia⟩ := semicolon
  cases hsemicolon
  unfold marked? at h
  split at h
  · next name place blanks =>
    obtain ⟨hmarker, hnote⟩ := Option.ite_none_right_eq_some.mp h
    obtain rfl := Option.some.inj hnote
    have hread : Note.statement? rules (⟨.identifier name, place, blanks⟩ ::
        ([] ++ ⟨.semicolon, position, trivia⟩ :: [])) = some (Note.of? name [], 0 + 1) := by
      simp [Note.statement?, hmarker]
    simpa [Note.statements] using Note.statements_of_statement? hread
  · next name place blanks place' blanks' rest =>
    obtain ⟨⟨hmarker, hlast, hmatch⟩, hnote⟩ := Option.ite_none_right_eq_some.mp h
    obtain rfl := Option.some.inj hnote
    obtain ⟨closer, hcloser, htoken⟩ := Option.map_eq_some_iff.mp hlast
    have hrest : rest = rest.dropLast ++ [closer] :=
      (List.dropLast_append_getLast? closer hcloser).symm
    generalize rest.dropLast = inner at hrest hmatch ⊢
    subst hrest
    have hsplit := Lexeme.splitParens_of_parensMatch hmatch htoken
      [⟨.semicolon, position, trivia⟩]
    have hread : Note.statement? rules (⟨.identifier name, place, blanks⟩ ::
        ((⟨.openParen, place', blanks'⟩ :: inner) ++ closer ::
          [⟨.semicolon, position, trivia⟩])) =
        some (Note.ofMarker name inner, (⟨.openParen, place', blanks'⟩ :: inner).length + 1) := by
      simp [Note.statement?, hmarker, hsplit]
    have hfound := Note.statements_of_statement? hread
    simpa [Note.statements, Note.statement?] using hfound
  · cases h

/-- Only a name begins a marker statement. -/
theorem beginsMarker_of_ne_identifier {token : Token} (h : ∀ name, token ≠ .identifier name)
    (next : Token) : Reader.beginsMarker rules token next = false :=
  Outline.beginsMarker_of_not_marker (fun name hname => absurd hname (h name)) next

/-- In front of a brace, a closing delimiter or the end no marker statement begins. -/
theorem beginsMarker_of_next {next : Token} (hopen : next ≠ .openParen)
    (hsemicolon : next ≠ .semicolon) (token : Token) :
    Reader.beginsMarker rules token next = false := by
  unfold Reader.beginsMarker
  split
  · exact absurd rfl hopen
  · exact absurd rfl hsemicolon
  · rfl

/-- Closing delimiters are no names. -/
theorem ne_identifier_of_isCloser {token : Token} (h : token.isCloser = true) (name : String) :
    token ≠ .identifier name := by
  rintro rfl
  cases h

/-- In front of the end of a block no marker statement begins. -/
theorem beginsMarker_of_end (hbehind : behind = [] ∨ (Reader.headToken behind).isCloser = true)
    (token : Token) : Reader.beginsMarker rules token (Reader.headToken behind) = false := by
  refine beginsMarker_of_next ?_ ?_ token
  · intro hopen
    rcases hbehind with rfl | hcloser
    · cases hopen
    · rw [hopen] at hcloser
      cases hcloser
  · intro hsemicolon
    rcases hbehind with rfl | hcloser
    · cases hsemicolon
    · rw [hsemicolon] at hcloser
      cases hcloser

/-- What leads to a statement ends with no marker. -/
theorem Leads.exists_last (h : Leads rules row) : ∃ front last, row = front ++ [last] ∧
    ∀ name, last.token = .identifier name → rules.isMarker name = false := by
  cases h with
  | @label name colon _ _ _ hcolon =>
    exact ⟨[name], colon, rfl, fun _ hname => by rw [hcolon] at hname; cases hname⟩
  | @case name colon value _ _ _ _ hcolon =>
    exact ⟨name :: value, colon, rfl, fun _ hname => by rw [hcolon] at hname; cases hname⟩
  | @group name opener closer inner _ _ _ _ _ _ hcloser =>
    exact ⟨name :: opener :: inner, closer, rfl,
      fun word hname => absurd hname (ne_identifier_of_isCloser hcloser word)⟩
  | @word name word hname hword _ =>
    refine ⟨[], name, rfl, fun other hother => ?_⟩
    obtain rfl := Token.identifier.inj (hname.symm.trans hother)
    simp only [isControl, Bool.and_eq_true, Bool.not_eq_true'] at hword
    exact hword.2
  | @inclusion lexeme _ hlexeme =>
    exact ⟨[], lexeme, rfl, fun _ hname => by rw [hlexeme] at hname; cases hname⟩

/-! ## What is found in a body -/

/-- Behind a row whose parentheses match only the parentheses there count. -/
theorem parensMatch_append {depth : Nat} (h : Lexeme.parensMatch depth row = true) :
    Lexeme.parensMatch depth (row ++ behind) = Lexeme.parensMatch 0 behind := by
  induction row generalizing depth with
  | nil =>
    obtain rfl : depth = 0 := beq_iff_eq.mp h
    rfl
  | cons lexeme row ih =>
    rw [List.cons_append]
    by_cases hopen : lexeme.token = .openParen
    · have hrow : Lexeme.parensMatch (depth + 1) row = true := by
        simpa [Lexeme.parensMatch, hopen] using h
      simpa [Lexeme.parensMatch, hopen] using ih hrow
    by_cases hclose : lexeme.token = .closeParen
    · cases depth with
      | zero => simp [Lexeme.parensMatch, hclose] at h
      | succ depth =>
        have hrow : Lexeme.parensMatch depth row = true := by
          simpa [Lexeme.parensMatch, hclose] using h
        simpa [Lexeme.parensMatch, hclose] using ih hrow
    · rw [Lexeme.parensMatch_of_other hopen hclose] at h ⊢
      exact ih h

/-- A statement of a marker does not begin with what is no name. -/
theorem statements_cons_of_ne_identifier {lexeme : Lexeme} (h : ∀ name, lexeme.token ≠ .identifier name)
    (fresh : Bool) (rest : List Lexeme) : Note.statements rules fresh 0 (lexeme :: rest) =
      Note.statements rules (Note.beginsStatement lexeme.token) 0 rest := by
  have hnone : Note.statement? rules (lexeme :: rest) = none :=
    Note.statement?_eq_none (beginsMarker_of_ne_identifier h _)
  simp [Note.statements, hnone]

/-- At the end of a body it does not matter whether a statement can begin. -/
theorem statements_of_end (hbehind : behind = [] ∨ (Reader.headToken behind).isCloser = true)
    (fresh other : Bool) :
    Note.statements rules fresh 0 behind = Note.statements rules other 0 behind := by
  cases behind with
  | nil => rfl
  | cons closer rest =>
    have hcloser : closer.token.isCloser = true := hbehind.resolve_left (List.cons_ne_nil _ _)
    have hname := ne_identifier_of_isCloser hcloser
    rw [statements_cons_of_ne_identifier hname fresh, statements_cons_of_ne_identifier hname other]

/-- The notes of a simple statement are those that are found in it, and a statement can begin
behind it. -/
theorem statements_simple {semicolon : Lexeme} (hsemicolon : semicolon.token = .semicolon)
    (hmatch : Lexeme.parensMatch 0 row = true) (fresh : Bool) (behind : List Lexeme) :
    Note.statements rules fresh 0 (row ++ [semicolon] ++ behind) =
      (if fresh ∧ (marked? rules row).isSome then (marked? rules row).join.toList
        else Note.statements rules fresh 0 (row ++ [semicolon])) ++
        Note.statements rules true 0 behind := by
  have hparens : Lexeme.parensMatch 0 (row ++ [semicolon]) = true := by
    rw [parensMatch_append hmatch]
    simp [Lexeme.parensMatch, hsemicolon]
  have hlast : ∀ last ∈ (row ++ [semicolon]).getLast?, Reader.beginsMarker rules last.token
      (Reader.headToken behind) = false := by
    intro last hlast
    obtain rfl : semicolon = last := by simpa using hlast
    rw [hsemicolon]
    rfl
  have hfresh : Note.freshBehind fresh (row ++ [semicolon]) = true := by
    rw [Note.freshBehind_concat, hsemicolon]
    rfl
  rw [Note.statements_append_of_parensMatch hparens hlast (Nat.zero_le _), hfresh]
  congr 1
  split
  · next hfound =>
    obtain ⟨rfl, hsome⟩ := hfound
    obtain ⟨note, hmarked⟩ := Option.isSome_iff_exists.mp hsome
    rw [statements_of_marked hmarked hsemicolon, hmarked]
    rfl
  · rfl

/-- The walk through a body finds what is found in its statements, one behind the other. -/
theorem statements_row {b : Body} (h : b.WellFormed rules) (hmatch : b.ParensMatch) (fresh : Bool)
    (hbehind : behind = [] ∨ (Reader.headToken behind).isCloser = true) :
    Note.statements rules fresh 0 (b.row ++ behind) =
      b.found rules fresh ++ Note.statements rules true 0 behind := by
  induction b generalizing fresh behind with
  | done => exact statements_of_end hbehind fresh true
  | simple row semicolon rest ih =>
    obtain ⟨-, hsemicolon, hrest⟩ := h
    have hrow : (simple row semicolon rest).row ++ behind =
        row ++ [semicolon] ++ (rest.row ++ behind) := by simp [Body.row]
    rw [hrow, statements_simple hsemicolon hmatch.1, ih hrest hmatch.2 true hbehind,
      ← List.append_assoc]
    rfl
  | unfinished row =>
    have hlast : ∀ last ∈ row.getLast?,
        Reader.beginsMarker rules last.token (Reader.headToken behind) = false :=
      fun last _ => beginsMarker_of_end hbehind last.token
    rw [Body.row, Note.statements_append_of_parensMatch hmatch hlast (Nat.zero_le _),
      statements_of_end hbehind _ true]
    rfl
  | leading row rest ih =>
    obtain ⟨hleads, hrest⟩ := h
    have hlast : ∀ last ∈ row.getLast?, Reader.beginsMarker rules last.token
        (Reader.headToken (rest.row ++ behind)) = false := by
      obtain ⟨front, end_, rfl, hend⟩ := hleads.exists_last
      intro last hlast
      obtain rfl : end_ = last := by simpa using hlast
      exact Outline.beginsMarker_of_not_marker hend _
    rw [Body.row, List.append_assoc,
      Note.statements_append_of_parensMatch hmatch.1 hlast (Nat.zero_le _),
      ih hrest hmatch.2 _ hbehind, ← List.append_assoc]
    rfl
  | block head opener inner closer rest ihinner ihrest =>
    obtain ⟨-, hopener, hinner, hcloser, hrest⟩ := h
    obtain ⟨hhead, hmatchInner, hmatchRest⟩ := hmatch
    have hlast : ∀ last ∈ head.getLast?, Reader.beginsMarker rules last.token
        opener.token = false := by
      intro last _
      exact beginsMarker_of_next (by rw [hopener]; decide) (by rw [hopener]; decide) last.token
    have hopen : Note.beginsStatement opener.token = true := by
      rw [hopener]
      rfl
    have hname : ∀ name, opener.token ≠ .identifier name := fun _ hname => by
      rw [hopener] at hname
      cases hname
    have hend : closer :: (rest.row ++ behind) = [] ∨
        (Reader.headToken (closer :: (rest.row ++ behind))).isCloser = true := .inr hcloser
    have hrow : (block head opener inner closer rest).row ++ behind =
        head ++ opener :: (inner.row ++ closer :: (rest.row ++ behind)) := by simp [Body.row]
    rw [hrow, Note.statements_append_of_parensMatch hhead hlast (Nat.zero_le _),
      statements_cons_of_ne_identifier hname, hopen, ihinner hinner hmatchInner true hend,
      statements_cons_of_ne_identifier (ne_identifier_of_isCloser hcloser),
      ihrest hrest hmatchRest _ hbehind]
    simp [found]

/-- In a quiet body just the notes of the marker statements are found. -/
theorem found_eq_written {b : Body} {fresh : Bool} (h : b.Quiet rules fresh) :
    b.found rules fresh = b.written rules := by
  induction b generalizing fresh with
  | done => rfl
  | simple row semicolon rest ih =>
    have hrow := h.1
    rw [found, written, ih h.2]
    congr 1
    split at hrow
    · next hmarked => rw [if_pos ⟨hrow, hmarked⟩]
    · next hmarked =>
      have hnone : marked? rules row = none := by simpa using hmarked
      rw [if_neg fun hfound => hmarked hfound.2, statements_eq_nil hrow, hnone]
      rfl
  | unfinished row => exact statements_eq_nil h
  | leading row rest ih => rw [found, written, statements_eq_nil h.1, ih h.2, List.nil_append]
  | block head opener inner closer rest ihinner ihrest =>
    rw [found, written, statements_eq_nil h.1, ihinner h.2.1, ihrest h.2.2, List.nil_append]

/-! ## Bodies whose groups are properly nested -/

/-- A nested row is nested on both sides of a place outside of its groups. -/
theorem nested_of_append {front behind : List Lexeme}
    (h : Token.Nested (Lexeme.tokens (front ++ behind)))
    (hfront : Token.Balanced (Lexeme.tokens front)) :
    Token.Nested (Lexeme.tokens front) ∧ Token.Nested (Lexeme.tokens behind) := by
  rw [Lexeme.tokens, List.map_append] at h
  exact h.of_append hfront

/-- In a body whose groups are properly nested the parentheses of each statement match. -/
theorem WellFormed.parensMatch {b : Body} (h : b.WellFormed rules)
    (hnested : Token.Nested (Lexeme.tokens b.row)) : b.ParensMatch := by
  induction b with
  | done => trivial
  | simple row semicolon rest ih =>
    obtain ⟨hrow, hsemicolon, hrest⟩ := h
    obtain ⟨hfront, hbehind⟩ := nested_of_append hnested hrow.whole.nest
    have hlast : Token.Balanced (Lexeme.tokens [semicolon]) := by
      simp [Token.Balanced, Lexeme.tokens, Token.nest, hsemicolon, Token.isOpener, Token.isCloser]
    obtain ⟨-, hmore⟩ := @nested_of_append [semicolon] rest.row hbehind hlast
    exact ⟨Lexeme.parensMatch_eq_true hfront, ih hrest hmore⟩
  | unfinished row => exact Lexeme.parensMatch_eq_true hnested
  | leading row rest ih =>
    obtain ⟨hfront, hbehind⟩ := nested_of_append hnested h.1.isStatement.nest
    exact ⟨Lexeme.parensMatch_eq_true hfront, ih h.2 hbehind⟩
  | block head opener inner closer rest ihinner ihrest =>
    obtain ⟨hhead, hopener, hinner, hcloser, hrest⟩ := h
    obtain ⟨hfront, hbehind⟩ := nested_of_append hnested hhead.isStatement.nest
    have hopens : opener.token.isOpener = true := by
      rw [hopener]
      rfl
    rw [Lexeme.tokens, List.map_cons, List.map_append, List.map_cons] at hbehind
    obtain ⟨-, hinside, hafter⟩ := hbehind.of_group hopens hinner.balanced hcloser
    exact ⟨Lexeme.parensMatch_eq_true hfront, ihinner hinner hinside, ihrest hrest hafter⟩

/-! ## Marker statements -/

/-- A marker is no word of control. -/
theorem isControl_of_isMarker {name : String} (hmarker : rules.isMarker name = true) :
    isControl rules name = false := by
  simp [isControl, hmarker]

/-- The name of a marker is a simple statement. -/
theorem Simple.of_marker {word : Lexeme} {name : String} (hname : word.token = .identifier name)
    (hmarker : rules.isMarker name = true) : Simple rules [word] := by
  have hcontrol := isControl_of_isMarker hmarker
  refine ⟨?_, ?_, ?_⟩
  · refine isStatement_cons ?_ ?_ ?_ isStatement_nil <;>
      simp [hname, Token.isOpener, Token.isCloser]
  · rintro ⟨front, behind, heq, hfront⟩
    cases hfront <;> simp only [List.cons_append, List.cons.injEq] at heq <;>
      obtain ⟨rfl, heq⟩ := heq <;> simp_all
  · rintro ⟨head, opener, behind, heq, hhead, hopener⟩
    cases hhead <;> simp only [List.cons_append, List.nil_append, List.cons.injEq] at heq <;>
      obtain ⟨rfl, heq⟩ := heq <;> simp_all

/-- The name of a marker with its arguments is a simple statement. -/
theorem Simple.of_markerCall {word opener closer : Lexeme} {inner : List Lexeme} {name : String}
    (hname : word.token = .identifier name) (hmarker : rules.isMarker name = true)
    (hopener : opener.token = .openParen) (hinner : Token.Balanced (Lexeme.tokens inner))
    (hcloser : closer.token.isCloser = true) :
    Simple rules (word :: opener :: (inner ++ [closer])) := by
  have hcontrol := isControl_of_isMarker hmarker
  refine ⟨isStatement_of_group hname hopener hinner hcloser, ?_, ?_⟩
  · rintro ⟨front, behind, heq, hfront⟩
    cases hfront <;> simp only [List.cons_append, List.cons.injEq] at heq <;>
      obtain ⟨rfl, heq⟩ := heq <;> simp_all
  · rintro ⟨head, brace, behind, heq, hhead, hbrace⟩
    cases hhead <;> simp only [List.cons_append, List.nil_append, List.cons.injEq] at heq <;>
      obtain ⟨rfl, heq⟩ := heq <;> simp_all
    case call hinner' hcloser' _ =>
      obtain ⟨-, -, hnil⟩ := eq_of_group hinner hcloser hinner' hcloser' heq.2
      cases hnil

/-- A body is cut into its statements in just one way. If its parentheses match in each of them, its
notes are those that are found in the statements, each once; and they are those of its marker
statements if the body is quiet. -/
theorem ofBody_eq_written (rules : NoteRules) {inner : List Lexeme}
    (hinner : Token.Balanced (Lexeme.tokens inner)) :
    ∃ b : Body, b.WellFormed rules ∧ b.row = inner ∧
      (∀ other : Body, other.WellFormed rules → other.row = inner → other = b) ∧
      (Token.Nested (Lexeme.tokens inner) → b.ParensMatch) ∧
      (b.ParensMatch → Note.ofBody rules true 0 [] inner = (b.found rules true).eraseDups ∧
        (b.Quiet rules true →
          Note.ofBody rules true 0 [] inner = (b.written rules).eraseDups)) := by
  obtain ⟨b, hb, rfl⟩ := exists_of_balanced rules hinner
  refine ⟨b, hb, rfl, fun other hother hrow => eq_of_row_eq hother hb hrow, hb.parensMatch, ?_⟩
  intro hmatch
  have hwalk := statements_row hb hmatch true (.inl rfl)
  have hfound : Note.ofBody rules true 0 [] b.row = (b.found rules true).eraseDups := by
    rw [List.append_nil, Note.statements, List.append_nil] at hwalk
    rw [Note.ofBody_eq, hwalk, Note.union_eq_append]
    simp [List.removeAll]
  exact ⟨hfound, fun hquiet => by rw [hfound, found_eq_written hquiet]⟩

/-- Marker statements behind a label and in a block, and the name of the marker in a condition. -/
theorem ofBody_eq_written_of_block :
    let rules : NoteRules := ⟨["rpc"], .attach⟩
    let lexeme : Token → Lexeme := fun token => ⟨token, .start, []⟩
    let name := lexeme (.identifier "rpc")
    let call := name :: lexeme .openParen :: ([lexeme (.number "1")] ++ [lexeme .closeParen])
    let condition :=
      lexeme (.identifier "if") :: lexeme .openParen :: ([name] ++ [lexeme .closeParen])
    let inner : Body := .simple [name] (lexeme .semicolon) .done
    let b : Body := .leading [name, lexeme .colon] (.simple call (lexeme .semicolon)
      (.leading condition (.block [] (lexeme .openBrace) inner (lexeme .closeBrace) .done)))
    b.WellFormed rules ∧ b.ParensMatch ∧ b.Quiet rules true ∧
      (b.written rules).map (·.text) = ["@rpc(1)", "@rpc"] ∧
      Note.ofBody rules true 0 [] b.row = (b.written rules).eraseDups := by
  intro rules lexeme name call condition inner b
  have hmarker : rules.isMarker "rpc" = true := rfl
  have hb : b.WellFormed rules := by
    refine ⟨.label rfl rfl rfl, .of_markerCall rfl hmarker rfl (by decide) rfl, rfl,
      .group rfl rfl (by decide) rfl (by decide) rfl, .nil, rfl, ?_, rfl, trivial⟩
    exact ⟨.of_marker rfl hmarker, rfl, trivial⟩
  have hmatch : b.ParensMatch := ⟨rfl, rfl, rfl, rfl, ⟨rfl, trivial⟩, trivial⟩
  have hquiet : b.Quiet rules true := ⟨rfl, ⟨rfl, rfl, rfl, ⟨rfl, trivial⟩, trivial⟩⟩
  obtain ⟨other, -, -, honly, -, hnotes⟩ := ofBody_eq_written rules hb.balanced
  obtain rfl := honly b hb rfl
  exact ⟨hb, hmatch, hquiet, by decide, (hnotes hmatch).2 hquiet⟩

/-- The element of an initializer is found, though there is no marker statement. -/
theorem not_ofBody_eq_written_of_initializer : ¬ ∀ (rules : NoteRules) (b : Body),
    b.WellFormed rules → b.ParensMatch →
      Note.ofBody rules true 0 [] b.row = (b.written rules).eraseDups := by
  intro h
  let lexeme : Token → Lexeme := fun token => ⟨token, .start, []⟩
  let row := [.builtin "int", .identifier "x", .openBracket, .closeBracket, .equals, .openBrace,
    .identifier "rpc", .openParen, .number "1", .closeParen, .comma, .number "2",
    .closeBrace].map lexeme
  have hsimple : Simple ⟨["rpc"], .attach⟩ row := by
    refine ⟨?_, ?_, ?_⟩
    · simp [row, lexeme, Lexeme.tokens, Token.IsStatement, Lexeme.depthBehind, Token.isOpener,
        Token.isCloser]
    · rintro ⟨front, behind, heq, hfront⟩
      cases hfront <;> simp only [List.cons_append, List.cons.injEq, row, List.map_cons] at heq <;>
        obtain ⟨rfl, heq⟩ := heq <;> simp_all [lexeme]
    · rintro ⟨head, opener, behind, heq, hhead, hopener⟩
      cases hhead <;>
        simp only [List.cons_append, List.nil_append, List.cons.injEq, row,
          List.map_cons] at heq <;>
        obtain ⟨rfl, heq⟩ := heq <;> simp_all [lexeme]
  have hclaim := h _ (.simple row (lexeme .semicolon) .done) ⟨hsimple, rfl, trivial⟩
    ⟨by decide, trivial⟩
  revert hclaim
  decide +kernel

end RemoteCalls.Body
