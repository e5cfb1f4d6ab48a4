import RemoteCalls.Proofs.Outline.NoteSources
import RemoteCalls.Proofs.Outline.Recovery
import RemoteCalls.Proofs.Outline.Statements
import RemoteCalls.Proofs.Token.Indexed

/-!
# Notes and failures by index

Arguments, bodies and comments are looked through by index, and so are the lexemes behind a failure.
All steps of these loops are allowed: no index and no slice leaves its row, and no counter falls
below zero.
-/

namespace RemoteCalls.Indexed

variable {α : Type}

/-! ### Arguments -/

/-- A turn of the cut at the commas. The state is the counter of open groups, the index where the
argument begins, and the arguments in front of it. The counter stays at zero where it is zero. -/
def commaTurn (row : List Lexeme) (i : Nat) (state : Nat × Nat × List (List Lexeme)) :
    Option Lexeme → Option (Turn (Nat × Nat × List (List Lexeme)) (List (List Lexeme)))
  | none => do
    return .stop (state.2.2 ++ [← slice? row state.2.1 row.length])
  | some lexeme =>
    if lexeme.token.isOpener then some (.go (i + 1) (state.1 + 1, state.2))
    else if lexeme.token.isCloser then some (.go (i + 1) (state.1 - 1, state.2))
    else if state.1 = 0 ∧ lexeme.token = .comma then do
      return .go (i + 1) (0, i + 1, state.2.2 ++ [← slice? row state.2.1 i])
    else some (.go (i + 1) state)

/-- The arguments in a row of lexemes. -/
def arguments? (row : List Lexeme) : Option (List String) := do
  let groups ← loop (commaTurn row) row 0 (0, 0, [])
  return (groups.map Lexeme.join).filter fun text => !text.isEmpty

/-- A lexeme belongs to the argument unless it is a comma outside of groups. -/
theorem commaTurn_of_inside {row : List Lexeme} {depth : Nat} {lexeme : Lexeme}
    (h : ¬ (depth = 0 ∧ lexeme.token = .comma)) (i : Nat) (state : Nat × List (List Lexeme)) :
    commaTurn row i (depth, state) (some lexeme) =
      some (.go (i + 1) (Lexeme.depthBehind depth lexeme.token, state)) := by
  simp only [commaTurn, Lexeme.depthBehind]
  by_cases hopener : lexeme.token.isOpener = true
  · rw [if_pos hopener, if_pos hopener]
  · rw [if_neg hopener, if_neg hopener]
    by_cases hcloser : lexeme.token.isCloser = true
    · rw [if_pos hcloser, if_pos hcloser]
    · rw [if_neg hcloser, if_neg hcloser, if_neg h]

theorem commaGroups_cons (depth : Nat) (lexeme : Lexeme) (rest : List Lexeme) :
    Lexeme.commaGroups depth (lexeme :: rest) =
      if depth = 0 ∧ lexeme.token = .comma then [] :: Lexeme.commaGroups 0 rest
      else
        match Lexeme.commaGroups (Lexeme.depthBehind depth lexeme.token) rest with
        | [] => [[lexeme]]
        | group :: groups => (lexeme :: group) :: groups :=
  rfl

theorem commaGroups_ne_nil (depth : Nat) (row : List Lexeme) :
    Lexeme.commaGroups depth row ≠ [] := by
  cases row with
  | nil => exact List.cons_ne_nil _ _
  | cons lexeme rest =>
    rw [commaGroups_cons]
    split
    · exact List.cons_ne_nil _ _
    · split <;> exact List.cons_ne_nil _ _

theorem loop_commaTurn (row : List Lexeme) {start i : Nat} (hstart : start ≤ i)
    (hi : i ≤ row.length) (depth : Nat) (groups : List (List Lexeme)) :
    loop (commaTurn row) row i (depth, start, groups) =
      some (groups ++
        (Lexeme.commaGroups depth (row.drop i)).modifyHead (row.extract start i ++ ·)) := by
  induction hrow : row.drop i generalizing start i depth groups with
  | nil =>
    have hend : i = row.length := by
      have := List.drop_eq_nil_iff.mp hrow
      omega
    subst hend
    refine loop_of_stop hi ?_
    rw [hrow, List.head?_nil, commaTurn, slice?, if_pos ⟨hstart, hi⟩]
    simp only [Lexeme.commaGroups, List.modifyHead_cons, List.append_nil]
    rfl
  | cons lexeme rest ih =>
    have hlt := length_lt_of_drop hrow
    have hrest := drop_succ_of_drop hrow
    rw [commaGroups_cons]
    by_cases hcomma : depth = 0 ∧ lexeme.token = .comma
    · obtain ⟨rfl, htoken⟩ := hcomma
      have hturn : commaTurn row i (0, start, groups) (some lexeme) =
          some (.go (i + 1) (0, i + 1, groups ++ [row.extract start i])) := by
        simp only [commaTurn, htoken, slice?, if_pos (And.intro hstart hi)]
        rfl
      rw [loop_of_go hrow hturn (Nat.lt_succ_self i), ih (Nat.le_refl _) hlt _ _ hrest,
        if_pos ⟨rfl, htoken⟩]
      cases hgroups : Lexeme.commaGroups 0 rest with
      | nil => exact absurd hgroups (commaGroups_ne_nil 0 rest)
      | cons group more => simp
    · rw [loop_of_go hrow (commaTurn_of_inside hcomma i (start, groups)) (Nat.lt_succ_self i),
        ih (Nat.le_succ_of_le hstart) hlt _ _ hrest, if_neg hcomma]
      cases hgroups : Lexeme.commaGroups (Lexeme.depthBehind depth lexeme.token) rest with
      | nil => exact absurd hgroups (commaGroups_ne_nil _ rest)
      | cons group more =>
        have hextract : row.extract start (i + 1) = row.extract start i ++ [lexeme] := by
          have hlexeme : row[i] = lexeme := by
            rw [List.drop_eq_getElem_cons hlt] at hrow
            exact (List.cons.inj hrow).1
          rw [List.extract_eq_take_drop, List.extract_eq_take_drop, Nat.succ_sub hstart,
            List.take_succ_eq_append_getElem (by rw [List.length_drop]; omega), List.getElem_drop]
          simp only [Nat.add_sub_cancel' hstart, hlexeme]
        simp only [List.modifyHead_cons, hextract, List.append_assoc, List.singleton_append]

/-- Arguments are found by index. -/
theorem arguments?_eq (row : List Lexeme) : arguments? row = some (Lexeme.arguments row) := by
  have hloop := loop_commaTurn row (Nat.le_refl 0) (Nat.zero_le _) 0 []
  rw [List.drop_zero] at hloop
  rw [arguments?, hloop, Lexeme.arguments]
  cases Lexeme.commaGroups 0 row <;> rfl

/-! ### Parentheses -/

/-- A turn of the search for the parenthesis that closes another one. -/
def parenTurn (i depth : Nat) : Option Lexeme → Option (Turn Nat (Option Nat))
  | none => some (.stop none)
  | some lexeme =>
    match lexeme.token with
    | .openParen => some (.go (i + 1) (depth + 1))
    | .closeParen => do
      let depth ← depth.ppred
      return if depth = 0 then .stop (some i) else .go (i + 1) depth
    | _ => some (.go (i + 1) depth)

/-- A turn of the test whether parentheses match. Its counter is signed, and the test ends where the
counter is negative. -/
def matchTurn (i : Nat) (depth : Int) : Option Lexeme → Option (Turn Int Bool)
  | none => some (.stop (depth == 0))
  | some lexeme =>
    match lexeme.token with
    | .openParen => some (.go (i + 1) (depth + 1))
    | .closeParen => some (if depth - 1 < 0 then .stop false else .go (i + 1) (depth - 1))
    | _ => some (.go (i + 1) depth)

theorem splitParens_cons (depth : Nat) (lexeme : Lexeme) (rest : List Lexeme) :
    Lexeme.splitParens depth (lexeme :: rest) =
      if depth = 0 ∧ lexeme.token = .closeParen then some ([], rest)
      else
        (Lexeme.splitParens (if lexeme.token = .openParen then depth + 1
          else if lexeme.token = .closeParen then depth - 1 else depth) rest).map fun split =>
            (lexeme :: split.1, split.2) := by
  rw [Lexeme.splitParens]
  refine if_congr Iff.rfl rfl ?_
  dsimp only
  cases Lexeme.splitParens _ rest <;> rfl

theorem parenTurn_of_inside {depth : Nat} {lexeme : Lexeme}
    (h : ¬ (depth = 0 ∧ lexeme.token = .closeParen)) (i : Nat) :
    parenTurn i (depth + 1) (some lexeme) =
      some (.go (i + 1) ((if lexeme.token = .openParen then depth + 1
        else if lexeme.token = .closeParen then depth - 1 else depth) + 1)) := by
  obtain ⟨token, position, trivia⟩ := lexeme
  cases token with
  | closeParen =>
    cases depth with
    | zero => exact absurd ⟨rfl, rfl⟩ h
    | succ depth => rfl
  | _ => rfl

theorem loop_parenTurn (row : List Lexeme) {i : Nat} (hi : i ≤ row.length) (depth : Nat) :
    loop parenTurn row i (depth + 1) =
      some ((Lexeme.splitParens depth (row.drop i)).map fun split => i + split.1.length) := by
  induction hrow : row.drop i generalizing i depth with
  | nil =>
    refine loop_of_stop hi ?_
    rw [hrow]
    rfl
  | cons lexeme rest ih =>
    rw [splitParens_cons]
    by_cases hends : depth = 0 ∧ lexeme.token = .closeParen
    · rw [if_pos hends]
      refine loop_of_stop hi ?_
      obtain ⟨rfl, hclose⟩ := hends
      rw [hrow, List.head?_cons]
      simp only [parenTurn, hclose]
      rfl
    · rw [if_neg hends, loop_of_go hrow (parenTurn_of_inside hends i) (Nat.lt_succ_self i),
        ih (length_lt_of_drop hrow) _ (drop_succ_of_drop hrow)]
      cases Lexeme.splitParens _ rest with
      | none => rfl
      | some split =>
        simp only [Option.map_some, List.length_cons]
        congr 2
        omega

/-- The test of parentheses comes to the same by index. -/
theorem loop_matchTurn (row : List Lexeme) {i : Nat} (hi : i ≤ row.length) (depth : Nat) :
    loop matchTurn row i depth = some (Lexeme.parensMatch depth (row.drop i)) := by
  induction hrow : row.drop i generalizing i depth with
  | nil =>
    refine loop_of_stop hi ?_
    rw [hrow]
    cases depth <;> rfl
  | cons lexeme rest ih =>
    have hgo : ∀ {depth' : Nat}, matchTurn i depth (some lexeme) = some (.go (i + 1) depth') →
        loop matchTurn row i depth = some (Lexeme.parensMatch depth' rest) := by
      intro depth' hturn
      rw [loop_of_go hrow hturn (Nat.lt_succ_self i),
        ih (length_lt_of_drop hrow) _ (drop_succ_of_drop hrow)]
    by_cases hopen : lexeme.token = .openParen
    · have hmatch : Lexeme.parensMatch depth (lexeme :: rest) =
          Lexeme.parensMatch (depth + 1) rest := by
        simp only [Lexeme.parensMatch, hopen]
      rw [hmatch]
      refine hgo ?_
      simp only [matchTurn, hopen, Int.natCast_succ]
    by_cases hclose : lexeme.token = .closeParen
    · cases depth with
      | zero =>
        have hmatch : Lexeme.parensMatch 0 (lexeme :: rest) = false := by
          simp only [Lexeme.parensMatch, hclose]
        rw [hmatch]
        refine loop_of_stop hi ?_
        rw [hrow, List.head?_cons]
        simp only [matchTurn, hclose]
        rfl
      | succ depth =>
        have hmatch : Lexeme.parensMatch (depth + 1) (lexeme :: rest) =
            Lexeme.parensMatch depth rest := by
          simp only [Lexeme.parensMatch, hclose]
        rw [hmatch]
        refine hgo ?_
        simp only [matchTurn, hclose, Int.natCast_succ, Int.add_sub_cancel]
        rw [if_neg (by omega)]
    · rw [Lexeme.parensMatch_of_other hopen hclose]
      refine hgo ?_
      obtain ⟨token, position, trivia⟩ := lexeme
      cases token with
      | openParen => exact absurd rfl hopen
      | closeParen => exact absurd rfl hclose
      | _ => rfl

/-! ### The statements of a body -/

/-- Whether a statement can begin at an index: at the front, and behind some tokens. -/
def fresh? (row : List Lexeme) (i : Nat) : Option Bool :=
  if i = 0 then some true
  else do return Note.beginsStatement (← before? row i).token

/-- The marker statement at an index: its note, and the index behind it. -/
def statementAt? (rules : NoteRules) (row : List Lexeme) (i : Nat) (name : String) :
    Option (Option (Option Note × Nat)) :=
  if rules.isMarker name then
    match row[i + 1]?.map Lexeme.token with
    | some .openParen => do
      match ← loop parenTurn row (i + 1) 0 with
      | some close => return some (Note.ofMarker name (← slice? row (i + 2) close), close + 1)
      | none => return none
    | some .semicolon => some (some (Note.of? name [], i + 2))
    | _ => some none
  else some none

/-- A turn of the search for marker statements. The state is the notes that are found. -/
def statementTurn (rules : NoteRules) (row : List Lexeme) (i : Nat) (found : List Note) :
    Option Lexeme → Option (Turn (List Note) (List Note))
  | none => some (.stop found)
  | some lexeme => do
    let fresh ← fresh? row i
    let statement ←
      match fresh, lexeme.token with
      | true, .identifier name => statementAt? rules row i name
      | _, _ => some none
    match statement with
    | some (note, next) => return .go next (Note.union found note.toList)
    | none => return .go (i + 1) found

/-- The notes in the body of a function. -/
def body? (rules : NoteRules) (row : List Lexeme) : Option (List Note) :=
  loop (statementTurn rules row) row 0 []

/-- The marker statement at an index is the one in front of the rest of the row. -/
theorem statementAt?_eq (rules : NoteRules) {row rest : List Lexeme} {i : Nat} {name : String}
    {position : Position} {trivia : List Trivia}
    (hrow : row.drop i = ⟨.identifier name, position, trivia⟩ :: rest) :
    statementAt? rules row i name =
      some ((Note.statement? rules (⟨.identifier name, position, trivia⟩ :: rest)).map fun read =>
        (read.1, i + 1 + read.2)) := by
  have hi := length_lt_of_drop hrow
  have hrest := drop_succ_of_drop hrow
  have hnext : row[i + 1]? = rest.head? := by rw [← hrest, List.head?_drop]
  rw [statementAt?, hnext]
  unfold Note.statement?
  dsimp only
  by_cases hmarker : rules.isMarker name = true
  · rw [if_pos hmarker, if_pos hmarker]
    cases rest with
    | nil => rfl
    | cons second behind =>
      obtain ⟨token, position', trivia'⟩ := second
      cases token with
      | semicolon => rfl
      | openParen =>
        have hi' := length_lt_of_drop hrest
        have hopen : loop parenTurn row (i + 1) 0 = loop parenTurn row (i + 1 + 1) 1 :=
          loop_of_go hrest rfl (Nat.lt_succ_self _)
        have hbehind := drop_succ_of_drop hrest
        change (loop parenTurn row (i + 1) 0).bind _ = _
        rw [hopen, loop_parenTurn row hi' 0, hbehind]
        change _ = some (((Lexeme.splitParens 0 behind).map _).map _)
        cases hsplit : Lexeme.splitParens 0 behind with
        | none => rfl
        | some split =>
          obtain ⟨inner, after⟩ := split
          obtain ⟨closer, hbehind', -, -⟩ := Lexeme.parensMatch_of_splitParens hsplit
          rw [hbehind'] at hbehind
          change (slice? row (i + 2) (i + 1 + 1 + inner.length)).bind _ = _
          have hnext : i + 1 + 1 + inner.length + 1 = i + 1 + (inner.length + 2) := by omega
          rw [slice?_of_drop hi' hbehind]
          simp only [Option.map_some, ← hnext]
          rfl
      | _ => rfl
  · rw [if_neg hmarker, if_neg hmarker]
    rfl

/-- Behind the front, the lexeme at the index before decides. -/
theorem fresh?_succ {row rest : List Lexeme} {last : Lexeme} {i : Nat}
    (hrow : row.drop i = last :: rest) :
    fresh? row (i + 1) = some (Note.beginsStatement last.token) := by
  rw [fresh?, if_neg (Nat.succ_ne_zero i), before?_succ hrow]
  rfl

theorem loop_statementTurn (rules : NoteRules) (row : List Lexeme) {i : Nat}
    (hi : i ≤ row.length) {fresh : Bool} (hfresh : fresh? row i = some fresh)
    (found : List Note) :
    loop (statementTurn rules row) row i found =
      some (Note.union found (Note.statements rules fresh 0 (row.drop i))) := by
  induction hn : row.length - i using Nat.strongRecOn generalizing i fresh found with
  | ind n ih =>
    cases hrow : row.drop i with
    | nil =>
      refine loop_of_stop hi ?_
      rw [hrow]
      rfl
    | cons lexeme rest =>
      have hlt := length_lt_of_drop hrow
      have hrest := drop_succ_of_drop hrow
      -- A statement is there just if one can begin there.
      have hturn : statementTurn rules row i found (some lexeme) =
          some (match if fresh then Note.statement? rules (lexeme :: rest) else none with
            | some (note, taken) => .go (i + 1 + taken) (Note.union found note.toList)
            | none => .go (i + 1) found) := by
        simp only [statementTurn, hfresh]
        cases fresh with
        | false => rfl
        | true =>
          obtain ⟨token, position, trivia⟩ := lexeme
          cases token with
          | identifier name =>
            change (statementAt? rules row i name).bind _ = _
            rw [statementAt?_eq rules hrow]
            cases Note.statement? rules (⟨.identifier name, position, trivia⟩ :: rest) <;> rfl
          | _ => rfl
      rw [Note.statements]
      cases hread : if fresh then Note.statement? rules (lexeme :: rest) else none with
      | none =>
        rw [hread] at hturn
        rw [loop_of_go hrow hturn (Nat.lt_succ_self i),
          ih _ (by omega) hlt (fresh?_succ hrow) _ rfl, hrest]
      | some read =>
        obtain ⟨note, taken⟩ := read
        rw [hread] at hturn
        have hstatement : Note.statement? rules (lexeme :: rest) = some (note, taken) := by
          split at hread
          · exact hread
          · cases hread
        obtain ⟨hpos, hle⟩ := Note.taken_of_statement? hstatement
        -- The statement ends with a lexeme of its own.
        obtain ⟨front, last, behind, rfl, rfl⟩ : ∃ front last behind,
            rest = front ++ last :: behind ∧ taken = front.length + 1 := by
          obtain ⟨less, rfl⟩ := Nat.exists_eq_add_of_le' hpos
          refine ⟨rest.take less, rest[less], rest.drop (less + 1), ?_, ?_⟩
          · rw [← List.drop_eq_getElem_cons, List.take_append_drop]
          · rw [List.length_take, Nat.min_eq_left (Nat.le_of_succ_le hle)]
        have hlast : row.drop (i + 1 + front.length) = last :: behind := by
          rw [← List.drop_drop, hrest, List.drop_left]
        have hlength := length_lt_of_drop hlast
        rw [loop_of_go hrow hturn (by omega), ← Nat.add_assoc,
          ih _ (by omega) hlength (fresh?_succ hlast) _ rfl, drop_succ_of_drop hlast,
          ← Note.union_append]
        simp only [Note.statements_of_skipped]

/-- The notes of a body are found by index. -/
theorem body?_eq (rules : NoteRules) (row : List Lexeme) :
    body? rules row = some (Note.ofBody rules true 0 [] row) := by
  rw [body?, loop_statementTurn rules row (Nat.zero_le _) rfl, List.drop_zero, Note.ofBody_eq]

/-! ### The text of a comment -/

/-- A turn of the search for the parenthesis that closes another one in a text. The state is the
counter of open parentheses, the quote of an open literal, and whether a backslash stands in front
inside of it. -/
def closeTurn (i : Nat) (state : Nat × Option Char × Bool) :
    Option Char → Option (Turn (Nat × Option Char × Bool) (Option Nat))
  | none => some (.stop none)
  | some c =>
    match state with
    | (depth, some quote, escaped) =>
      if escaped then some (.go (i + 1) (depth, some quote, false))
      else if c = '\\' then some (.go (i + 1) (depth, some quote, true))
      else if c = quote then some (.go (i + 1) (depth, none, false))
      else some (.go (i + 1) (depth, some quote, false))
    | (depth, none, _) =>
      if c = '"' ∨ c = '\'' then some (.go (i + 1) (depth, some c, false))
      else if c = '(' then some (.go (i + 1) (depth + 1, none, false))
      else if c = ')' then do
        let depth ← depth.ppred
        return if depth = 0 then .stop (some i) else .go (i + 1) (depth, none, false)
      else some (.go (i + 1) (depth, none, false))

/-- Inside of a literal only its quote counts, and a backslash keeps the character behind it from
being one. -/
theorem closeTurn_of_quote {quote : Char} (hquote : quote ≠ '\\') (i depth : Nat) (escaped : Bool)
    (c : Char) :
    closeTurn i (depth, some quote, escaped) (some c) =
      some (.go (i + 1) (depth, if !escaped && c == quote then none else some quote,
        !escaped && c == '\\')) := by
  cases escaped with
  | true => rfl
  | false =>
    by_cases hback : c = '\\'
    · have hne : (c == quote) = false := by
        rw [hback]
        exact beq_false_of_ne hquote.symm
      rw [hne, hback]
      rfl
    · by_cases hc : c = quote
      · simp [closeTurn, hc, hquote]
      · simp [closeTurn, hc, hback]

/-- Outside of literals, only a parenthesis that closes the first one ends the search. -/
theorem closeTurn_of_inside {depth : Nat} {c : Char} (h : ¬ (c = ')' ∧ depth = 0)) (i : Nat)
    (escaped : Bool) :
    closeTurn i (depth + 1, none, escaped) (some c) =
      some (.go (i + 1)
        ((if c = '(' then depth + 1 else if c = ')' then depth - 1 else depth) + 1,
          if c = '"' ∨ c = '\'' then some c else none, false)) := by
  by_cases hquote : c = '"' ∨ c = '\''
  · have hopen : c ≠ '(' := by rcases hquote with rfl | rfl <;> decide
    have hclose : c ≠ ')' := by rcases hquote with rfl | rfl <;> decide
    simp only [closeTurn, if_pos hquote, if_neg hopen, if_neg hclose]
  · by_cases hopen : c = '('
    · simp only [closeTurn, if_neg hquote, if_pos hopen]
    · by_cases hclose : c = ')'
      · cases depth with
        | zero => exact absurd ⟨hclose, rfl⟩ h
        | succ depth =>
          simp only [closeTurn, if_neg hquote, if_neg hopen, if_pos hclose]
          rfl
      · simp only [closeTurn, if_neg hquote, if_neg hopen, if_neg hclose]

theorem loop_closeTurn (cs : List Char) {i : Nat} (hi : i ≤ cs.length) (depth : Nat)
    {quote : Option Char} (hquote : ∀ q ∈ quote, q ≠ '\\') (escaped : Bool) :
    loop closeTurn cs i (depth + 1, quote, escaped) =
      some ((Note.closedText depth quote escaped (cs.drop i)).map fun inner =>
        i + inner.length) := by
  induction hrow : cs.drop i generalizing i depth quote escaped with
  | nil =>
    have hnone : Note.closedText depth quote escaped [] = none := by cases quote <;> rfl
    rw [hnone]
    refine loop_of_stop hi ?_
    rw [hrow]
    rfl
  | cons c rest ih =>
    have hgo : ∀ {depth' quote' escaped'}, (∀ q ∈ quote', q ≠ '\\') →
        closeTurn i (depth + 1, quote, escaped) (some c) =
          some (.go (i + 1) (depth' + 1, quote', escaped')) →
        loop closeTurn cs i (depth + 1, quote, escaped) =
          some (((Note.closedText depth' quote' escaped' rest).map (c :: ·)).map fun inner =>
            i + inner.length) := by
      intro depth' quote' escaped' hquote' hturn
      rw [loop_of_go hrow hturn (Nat.lt_succ_self i),
        ih (length_lt_of_drop hrow) _ hquote' _ (drop_succ_of_drop hrow), Option.map_map]
      refine congrArg (fun f => some (Option.map f _)) (funext fun inner => ?_)
      change i + 1 + inner.length = i + (inner.length + 1)
      omega
    cases quote with
    | some quote =>
      have hquote' : ∀ q ∈ (if !escaped && c == quote then none else some quote), q ≠ '\\' := by
        intro q hq
        split at hq
        · cases hq
        · exact hquote q hq
      exact hgo hquote' (closeTurn_of_quote (hquote quote rfl) i _ escaped c)
    | none =>
      rw [Note.closedText]
      by_cases hends : c = ')' ∧ depth = 0
      · rw [if_pos hends]
        obtain ⟨rfl, rfl⟩ := hends
        refine loop_of_stop hi ?_
        rw [hrow]
        rfl
      · rw [if_neg hends]
        refine hgo ?_ (closeTurn_of_inside hends i escaped)
        intro q hq
        split at hq
        · next hmark =>
          obtain rfl := Option.some.inj hq
          rcases hmark with rfl | rfl <;> decide
        · cases hq

/-- Whether a character of a word stands in front of an index. -/
def afterWord? (cs : List Char) (i : Nat) : Option Bool :=
  if i = 0 then some false
  else do return Segment.isWordChar (← before? cs i)

/-- The note with a name that ends at an index, with the arguments behind it if there are any, and
the index behind it. -/
def noteAt? (name : String) (cs : List Char) (stop : Nat) : Option (Option Note × Nat) :=
  match cs[stop]? with
  | some '(' => do
    match ← loop closeTurn cs stop (0, none, false) with
    | some close =>
      return (Note.of? name (Note.textArguments (← slice? cs (stop + 1) close)), close + 1)
    | none => return (Note.of? name [], stop)
  | _ => some (Note.of? name [], stop)

/-- A turn of the search for notes in a comment. The state is the notes that are found. -/
def commentTurn (rules : NoteRules) (cs : List Char) (i : Nat) (found : List Note) :
    Option Char → Option (Turn (List Note) (List Note))
  | none => some (.stop found)
  | some c =>
    if c = '@' then do
      if ← afterWord? cs i then return .go (i + 1) found
      else
        let stop ← loop (runTurn Segment.isWordChar) cs (i + 1) ()
        let name := String.ofList (← slice? cs (i + 1) stop)
        if rules.isMarker name then
          let (note, next) ← noteAt? name cs stop
          return .go next (found ++ note.toList)
        else return .go stop found
    else some (.go (i + 1) found)

/-- The notes in a comment. -/
def comment? (rules : NoteRules) (cs : List Char) : Option (List Note) :=
  loop (commentTurn rules cs) cs 0 []

theorem afterWord?_succ {cs rest : List Char} {c : Char} {i : Nat} (hrow : cs.drop i = c :: rest) :
    afterWord? cs (i + 1) = some (Segment.isWordChar c) := by
  rw [afterWord?, if_neg (Nat.succ_ne_zero i), before?_succ hrow]
  rfl

theorem afterWord?_add {cs front behind : List Char} {i : Nat} {afterWord : Bool}
    (hword : afterWord? cs i = some afterWord) (hrow : cs.drop i = front ++ behind) :
    afterWord? cs (i + front.length) = some (Note.endsInWord afterWord front) := by
  induction front generalizing i afterWord with
  | nil => exact hword
  | cons c front ih =>
    have hrest := drop_succ_of_drop hrow
    rw [List.length_cons, Nat.add_comm front.length, ← Nat.add_assoc]
    exact ih (afterWord?_succ hrow) hrest

/-- The note with a name is the one with the text in the parentheses behind it. -/
theorem noteAt?_eq (name : String) {cs rest : List Char} {stop : Nat}
    (hrow : cs.drop stop = rest) :
    noteAt? name cs stop =
      some (match Note.parenthesized? rest with
        | some inner => (Note.of? name (Note.textArguments inner), stop + (inner.length + 2))
        | none => (Note.of? name [], stop)) := by
  have hnext : cs[stop]? = rest.head? := by rw [← hrow, List.head?_drop]
  rw [noteAt?, hnext]
  cases rest with
  | nil => rfl
  | cons c behind =>
    by_cases hopen : c = '('
    · subst hopen
      have hlt := length_lt_of_drop hrow
      have hbehind := drop_succ_of_drop hrow
      change (loop closeTurn cs stop (0, none, false)).bind _ = _
      rw [loop_of_go hrow rfl (Nat.lt_succ_self stop),
        loop_closeTurn cs hlt 0 (fun q hq => by cases hq) false, hbehind]
      change _ = some (match Note.closedText 0 none false behind with
        | some inner => _
        | none => _)
      cases hinner : Note.closedText 0 none false behind with
      | none => rfl
      | some inner =>
        obtain ⟨after, rfl⟩ := Note.closedText_eq_some hinner
        change (slice? cs (stop + 1) (stop + 1 + inner.length)).bind _ = _
        rw [slice?_of_drop hlt hbehind]
        refine congrArg (fun next => some (_, next)) ?_
        change stop + 1 + inner.length + 1 = stop + (inner.length + 2)
        omega
    · have hnone : Note.parenthesized? (c :: behind) = none := by
        unfold Note.parenthesized?
        split
        · next h => exact absurd (List.cons.inj h).1 hopen
        · rfl
      rw [hnone]
      simp only [List.head?_cons]
      split
      · next h => exact absurd (Option.some.inj h) hopen
      · rfl

/-- What begins behind an at sign ends inside of the text. -/
theorem begun_le (rules : NoteRules) (cs : List Char) : (Note.begun rules cs).2 ≤ cs.length := by
  have hname := (List.takeWhile_prefix Segment.isWordChar (l := cs)).length_le
  unfold Note.begun
  dsimp only
  split
  · split
    · next inner hinner =>
      unfold Note.parenthesized? at hinner
      split at hinner
      · next behind hrest =>
        obtain ⟨after, rfl⟩ := Note.closedText_eq_some hinner
        have hlength := congrArg List.length hrest
        simp only [List.length_drop, List.length_cons, List.length_append] at hlength
        dsimp only
        omega
      · cases hinner
    · exact hname
  · exact hname

/-- An at sign that is not behind a word begins what it begins in the rest of the text. -/
theorem commentTurn_of_atSign (rules : NoteRules) {cs rest : List Char} {i : Nat}
    (hrow : cs.drop i = '@' :: rest) (hword : afterWord? cs i = some false) (found : List Note) :
    commentTurn rules cs i found (some '@') =
      some (.go (i + 1 + (Note.begun rules rest).2)
        (found ++ (Note.begun rules rest).1.toList)) := by
  have hlt := length_lt_of_drop hrow
  have hrest := drop_succ_of_drop hrow
  have hname : (rest.takeWhile Segment.isWordChar).length ≤ rest.length :=
    (List.takeWhile_prefix _).length_le
  have hsplit : cs.drop (i + 1) = rest.takeWhile Segment.isWordChar ++
      rest.dropWhile Segment.isWordChar := by
    rw [hrest, List.takeWhile_append_dropWhile]
  have hlength := congrArg List.length hrest
  rw [List.length_drop] at hlength
  have hafter : cs.drop (i + 1 + (rest.takeWhile Segment.isWordChar).length) =
      rest.drop (rest.takeWhile Segment.isWordChar).length := by
    rw [← List.drop_drop, hrest]
  simp only [commentTurn, hword, loop_runTurn _ cs hlt, hrest, slice?_of_drop hlt hsplit,
    if_true, Option.bind_eq_bind, Option.bind_some, Bool.false_eq_true, if_false,
    noteAt?_eq _ hafter, Note.begun]
  by_cases hmarker : rules.isMarker (String.ofList (rest.takeWhile Segment.isWordChar)) = true
  · rw [if_pos hmarker, if_pos hmarker]
    cases Note.parenthesized? (rest.drop (rest.takeWhile Segment.isWordChar).length) with
    | none => rfl
    | some inner =>
      refine congrArg (fun next => some (Turn.go next _)) ?_
      dsimp only
      omega
  · rw [if_neg hmarker, if_neg hmarker]
    simp only [Option.toList_none, List.append_nil]
    rfl

theorem loop_commentTurn (rules : NoteRules) (cs : List Char) {i : Nat} (hi : i ≤ cs.length)
    {afterWord : Bool} (hword : afterWord? cs i = some afterWord) (found : List Note) :
    loop (commentTurn rules cs) cs i found =
      some (found ++ Note.ofComment rules afterWord 0 (cs.drop i)) := by
  induction hn : cs.length - i using Nat.strongRecOn generalizing i afterWord found with
  | ind n ih =>
    cases hrow : cs.drop i with
    | nil =>
      rw [Note.ofComment, List.append_nil]
      refine loop_of_stop hi ?_
      rw [hrow]
      rfl
    | cons c rest =>
      have hlt := length_lt_of_drop hrow
      have hrest := drop_succ_of_drop hrow
      by_cases hsign : c = '@' ∧ afterWord = false
      · obtain ⟨rfl, rfl⟩ := hsign
        have hlength := congrArg List.length hrest
        rw [List.length_drop] at hlength
        have hle := begun_le rules rest
        have hsplit : cs.drop (i + 1) = rest.take (Note.begun rules rest).2 ++
            rest.drop (Note.begun rules rest).2 := by
          rw [hrest, List.take_append_drop]
        have htake : (rest.take (Note.begun rules rest).2).length = (Note.begun rules rest).2 := by
          rw [List.length_take, Nat.min_eq_left hle]
        have hnext := afterWord?_add (afterWord?_succ hrow) hsplit
        have hskipped := @Note.ofComment_of_skipped rules false
          (rest.take (Note.begun rules rest).2) (rest.drop (Note.begun rules rest).2)
        rw [List.take_append_drop, htake] at hskipped
        rw [htake] at hnext
        rw [loop_of_go hrow (commentTurn_of_atSign rules hrow hword found) (by omega),
          ih _ (by omega) (by omega) hnext _ rfl, ← List.drop_drop, hrest,
          Note.ofComment_of_atSign, hskipped, List.append_assoc]
        rfl
      · have hturn : commentTurn rules cs i found (some c) = some (.go (i + 1) found) := by
          by_cases hc : c = '@'
          · have hafter : afterWord = true := by
              cases afterWord with
              | true => rfl
              | false => exact absurd ⟨hc, rfl⟩ hsign
            rw [hafter] at hword
            simp only [commentTurn, if_pos hc, hword]
            rfl
          · simp only [commentTurn, if_neg hc]
        rw [loop_of_go hrow hturn (Nat.lt_succ_self i),
          ih _ (by omega) hlt (afterWord?_succ hrow) _ rfl, hrest, Note.ofComment, if_neg hsign]

/-- The notes of a comment are found by index. -/
theorem comment?_eq (rules : NoteRules) (cs : List Char) :
    comment? rules cs = some (Note.ofComment rules false 0 cs) := by
  rw [comment?, loop_commentTurn rules cs (Nat.zero_le _) rfl, List.drop_zero, List.nil_append]

/-! ### The end of a declaration that fails -/

/-- What the search behind a failure knows: how many groups are open, where the outermost one of
them begins, and whether it is the body of a function. -/
structure Search where
  depth : Nat
  opened : Position
  body : Bool

/-- Whether a closing parenthesis stands in front of an index, in a search that begins at `start`. -/
def behindParen? (row : List Lexeme) (start i : Nat) : Option Bool :=
  if start < i then (before? row i).map fun lexeme => lexeme.token = .closeParen else some false

/-- A turn of the search for the end of a declaration that fails, from its first lexeme at `start`
on. The counter stays at zero where it is zero. -/
def failureTurn (row : List Lexeme) (start i : Nat) (search : Search) :
    Option Lexeme → Option (Turn Search (Except Position Nat))
  | none => some (.stop (if 0 < search.depth then .error search.opened else .ok i))
  | some lexeme =>
    if lexeme.token.isOpener then
      if search.depth = 0 then do
        let behindParen ← behindParen? row start i
        return .go (i + 1) ⟨1, lexeme.position, lexeme.token = .openBrace && behindParen⟩
      else some (.go (i + 1) { search with depth := search.depth + 1 })
    else if lexeme.token.isCloser then
      if search.depth = 1 ∧ lexeme.token = .closeBrace ∧ search.body then some (.stop (.ok (i + 1)))
      else if search.depth - 1 = 0 ∧ i + 1 = start + 1 then some (.stop (.ok (i + 1)))
      else some (.go (i + 1) { search with depth := search.depth - 1 })
    else if search.depth = 0 ∧ lexeme.token = .semicolon then some (.stop (.ok (i + 1)))
    else some (.go (i + 1) search)

/-- The index behind a declaration that fails. -/
def behindFailure? (row : List Lexeme) (start : Nat) (opened : Position) :
    Option (Except Position Nat) :=
  loop (failureTurn row start) row start ⟨0, opened, false⟩

/-- The token in front of an index in a search. There is none where the search begins, and no group
is open there. -/
def LastToken (row : List Lexeme) (start i depth : Nat) (last : Option Token) : Prop :=
  (i = start ∧ depth = 0 ∧ last = none) ∨
    (start < i ∧ ∃ lexeme, before? row i = some lexeme ∧ last = some lexeme.token)

theorem behindParen?_eq {row : List Lexeme} {start i depth : Nat} {last : Option Token}
    (h : LastToken row start i depth last) :
    behindParen? row start i = some (decide (last = some .closeParen)) := by
  rcases h with ⟨rfl, -, rfl⟩ | ⟨hlt, lexeme, hbefore, rfl⟩
  · rw [behindParen?, if_neg (Nat.lt_irrefl i)]
    rfl
  · rw [behindParen?, if_pos hlt, hbefore]
    simp only [Option.map_some, Option.some.injEq]

theorem lastToken_succ {row rest : List Lexeme} {lexeme : Lexeme} {start i : Nat}
    (hstart : start ≤ i) (hrow : row.drop i = lexeme :: rest) (depth : Nat) :
    LastToken row start (i + 1) depth (some lexeme.token) :=
  .inr ⟨Nat.lt_succ_of_le hstart, lexeme, before?_succ hrow, rfl⟩

/-- The search from an index finds the end that is expected, by its index. This is not in front of
the index where the search begins, and is behind it if there is a lexeme. -/
def FindsEnd (row : List Lexeme) (start i : Nat) (search : Search)
    (expected : Except Position (List Lexeme)) : Prop :=
  ∃ found, loop (failureTurn row start) row i search = some found ∧
    found.map row.drop = expected ∧
    ∀ next, found = .ok next → i ≤ next ∧ next ≤ row.length ∧ (i < row.length → i < next)

namespace FindsEnd

variable {row rest : List Lexeme} {lexeme : Lexeme} {start i : Nat} {search : Search}

/-- The search ends behind a lexeme. -/
theorem stop (hrow : row.drop i = lexeme :: rest)
    (hturn : failureTurn row start i search (some lexeme) = some (.stop (.ok (i + 1)))) :
    FindsEnd row start i search (.ok rest) := by
  have hlt := length_lt_of_drop hrow
  refine ⟨.ok (i + 1), ?_, congrArg Except.ok (drop_succ_of_drop hrow), ?_⟩
  · refine loop_of_stop (Nat.le_of_lt hlt) ?_
    rw [hrow]
    exact hturn
  · intro next hnext
    obtain rfl := Except.ok.inj hnext
    exact ⟨Nat.le_succ i, hlt, fun _ => Nat.lt_succ_self i⟩

/-- The search goes on with the next lexeme. -/
theorem go {expected : Except Position (List Lexeme)} {more : Search}
    (hrow : row.drop i = lexeme :: rest)
    (hturn : failureTurn row start i search (some lexeme) = some (.go (i + 1) more))
    (h : FindsEnd row start (i + 1) more expected) : FindsEnd row start i search expected := by
  obtain ⟨found, hfound, hmap, hbound⟩ := h
  refine ⟨found, ?_, hmap, ?_⟩
  · rw [loop_of_go hrow hturn (Nat.lt_succ_self i), hfound]
  · intro next hnext
    obtain ⟨hle, hlength, -⟩ := hbound next hnext
    exact ⟨Nat.le_of_succ_le hle, hlength, fun _ => hle⟩

end FindsEnd

theorem findsEnd_failureTurn (row : List Lexeme) {start i : Nat} (hstart : start ≤ i)
    (hi : i ≤ row.length) {depth : Nat} {last : Option Token}
    (hlast : LastToken row start i depth last) (opened : Position) (body : Bool) :
    FindsEnd row start i ⟨depth, opened, body⟩
      (Outline.behindFailure last depth opened body (row.drop i)) := by
  induction hrow : row.drop i generalizing i depth last opened body with
  | nil =>
    have hend : i = row.length := by
      have := List.drop_eq_nil_iff.mp hrow
      omega
    have hturn : failureTurn row start i ⟨depth, opened, body⟩ (row.drop i).head? =
        some (.stop (if 0 < depth then .error opened else .ok i)) := by
      rw [hrow]
      rfl
    refine ⟨_, loop_of_stop hi hturn, ?_, ?_⟩
    · cases depth with
      | zero => exact congrArg Except.ok hrow
      | succ depth => rfl
    · intro next hnext
      split at hnext
      · cases hnext
      · obtain rfl := Except.ok.inj hnext
        exact ⟨Nat.le_refl i, hi, fun hlt => absurd hend (Nat.ne_of_lt hlt)⟩
  | cons lexeme rest ih =>
    rw [Outline.behindFailure_cons]
    have hgo : ∀ {depth' opened' body'},
        failureTurn row start i ⟨depth, opened, body⟩ (some lexeme) =
          some (.go (i + 1) ⟨depth', opened', body'⟩) →
        FindsEnd row start i ⟨depth, opened, body⟩
          (Outline.behindFailure lexeme.token depth' opened' body' rest) :=
      fun hturn => .go hrow hturn (ih (Nat.le_succ_of_le hstart) (length_lt_of_drop hrow)
        (lastToken_succ hstart hrow _) _ _ (drop_succ_of_drop hrow))
    by_cases hopener : lexeme.token.isOpener = true
    · rw [if_pos hopener]
      by_cases hdepth : depth = 0
      · rw [if_pos hdepth]
        refine hgo ?_
        simp only [failureTurn, if_pos hopener, if_pos hdepth, behindParen?_eq hlast,
          Option.bind_eq_bind, Option.bind_some, Bool.decide_and]
        rfl
      · rw [if_neg hdepth]
        refine hgo ?_
        simp only [failureTurn, if_pos hopener, if_neg hdepth]
    · rw [if_neg hopener]
      by_cases hcloser : lexeme.token.isCloser = true
      · rw [if_pos hcloser]
        by_cases hbody : depth = 1 ∧ lexeme.token = .closeBrace ∧ body = true
        · rw [if_pos hbody]
          refine .stop hrow ?_
          simp only [failureTurn, if_neg hopener, if_pos hcloser, if_pos hbody]
        · rw [if_neg hbody]
          -- The counter is at zero where the search begins.
          rcases hlast with ⟨rfl, rfl, rfl⟩ | ⟨hbefore, before, -, rfl⟩
          · refine .stop hrow ?_
            simp only [failureTurn, if_neg hopener, if_pos hcloser, if_neg hbody]
            rfl
          · refine hgo ?_
            have hfirst : ¬ (depth - 1 = 0 ∧ i + 1 = start + 1) := by omega
            simp only [failureTurn, if_neg hopener, if_pos hcloser, if_neg hbody, if_neg hfirst]
      · rw [if_neg hcloser]
        by_cases hend : depth = 0 ∧ lexeme.token = .semicolon
        · rw [if_pos hend]
          refine .stop hrow ?_
          simp only [failureTurn, if_neg hopener, if_neg hcloser, if_pos hend]
        · rw [if_neg hend]
          refine hgo ?_
          simp only [failureTurn, if_neg hopener, if_neg hcloser, if_neg hend]

/-- The end of a declaration that fails is found by index where it is found in the row, and it is
behind the first lexeme of the declaration. -/
theorem behindFailure?_eq {row : List Lexeme} {start : Nat} (hstart : start < row.length)
    (opened : Position) :
    ∃ found, behindFailure? row start opened = some found ∧
      found.map row.drop = Outline.behindFailure none 0 opened false (row.drop start) ∧
      ∀ next, found = .ok next → start < next ∧ next ≤ row.length := by
  obtain ⟨found, hfound, hmap, hbound⟩ := findsEnd_failureTurn row (Nat.le_refl start)
    (Nat.le_of_lt hstart) (.inl ⟨rfl, rfl, rfl⟩) opened false
  refine ⟨found, hfound, hmap, fun next hnext => ?_⟩
  obtain ⟨-, hlength, hless⟩ := hbound next hnext
  exact ⟨hless hstart, hlength⟩

end RemoteCalls.Indexed
