import RemoteCalls.Proofs.Outline.Bodies
import RemoteCalls.Proofs.Token.Alike
import RemoteCalls.Proofs.Token.Arguments

/-!
# Marker statements

A marker statement in front of a body is read up to its closing parenthesis, and the notes behind it
are those of the rest of the body. A body that is put together where a statement can begin has the
notes of its parts. What notes a body makes depends on its tokens and on where they touch each other,
and not on where the body stands.
-/

namespace RemoteCalls

namespace Lexeme

variable {depth : Nat} {row : List Lexeme}

/-- The parentheses of a properly nested row match. -/
theorem parensMatch_eq_true (h : Token.Nested (tokens row)) : parensMatch 0 row = true := by
  rw [← List.append_nil row, parensMatch_of_nested h]
  rfl

/-- A row whose parentheses match ends at the parenthesis behind it. -/
theorem splitParens_of_parensMatch (h : parensMatch depth row = true) {closer : Lexeme}
    (hcloser : closer.token = .closeParen) (behind : List Lexeme) :
    splitParens depth (row ++ closer :: behind) = some (row, behind) := by
  induction row generalizing depth with
  | nil =>
    obtain rfl : depth = 0 := beq_iff_eq.mp h
    exact if_pos ⟨rfl, hcloser⟩
  | cons lexeme row ih =>
    rw [List.cons_append, splitParens]
    by_cases hopen : lexeme.token = .openParen
    · have hrow : parensMatch (depth + 1) row = true := by
        simpa [parensMatch, hopen] using h
      simp [hopen, ih hrow]
    by_cases hclose : lexeme.token = .closeParen
    · cases depth with
      | zero => simp [parensMatch, hclose] at h
      | succ depth =>
        have hrow : parensMatch depth row = true := by
          simpa [parensMatch, hclose] using h
        simp [hclose, ih hrow]
    · rw [parensMatch_of_other hopen hclose] at h
      simp [hopen, hclose, ih h]

/-- A split at a parenthesis takes the row apart around it, and the parentheses in front of it
match. -/
theorem parensMatch_of_splitParens {inner behind : List Lexeme}
    (h : splitParens depth row = some (inner, behind)) :
    ∃ closer, row = inner ++ closer :: behind ∧ closer.token = .closeParen ∧
      parensMatch depth inner = true := by
  induction row generalizing depth inner with
  | nil => cases h
  | cons lexeme row ih =>
    rw [splitParens] at h
    split at h
    · next hends =>
      cases h
      exact ⟨lexeme, rfl, hends.2, beq_iff_eq.mpr hends.1⟩
    next hends =>
    dsimp only at h
    split at h
    · cases h
    next inner' behind' hsplit =>
    cases h
    obtain ⟨closer, rfl, hcloser, hmatch⟩ := ih hsplit
    refine ⟨closer, rfl, hcloser, ?_⟩
    by_cases hopen : lexeme.token = .openParen
    · rw [if_pos hopen] at hmatch
      simpa [parensMatch, hopen] using hmatch
    rw [if_neg hopen] at hmatch
    by_cases hclose : lexeme.token = .closeParen
    · cases depth with
      | zero => exact absurd ⟨rfl, hclose⟩ hends
      | succ depth =>
        rw [if_pos hclose] at hmatch
        simpa [parensMatch, hclose] using hmatch
    · rw [if_neg hclose] at hmatch
      rw [parensMatch_of_other hopen hclose, hmatch]

/-- Rows that are alike end a group in parentheses at the same place. -/
theorem Alike.exists_splitParens {other inner behind : List Lexeme} (h : Alike row other)
    (hsplit : splitParens depth row = some (inner, behind)) :
    ∃ inner' behind', splitParens depth other = some (inner', behind') ∧ Alike inner inner' := by
  obtain ⟨closer, rfl, hcloser, hmatch⟩ := parensMatch_of_splitParens hsplit
  obtain ⟨inner', _, rfl, hinner, htail⟩ := h.exists_of_append
  obtain ⟨position, trivia, behind', rfl, -⟩ := htail.exists_of_cons
  have hcloser' : (⟨closer.token, position, trivia⟩ : Lexeme).token = .closeParen := hcloser
  rw [hinner.parensMatch_eq] at hmatch
  exact ⟨inner', behind', splitParens_of_parensMatch hmatch hcloser' behind', hinner⟩

/-- A row that closes more parentheses than it opens has the end of the group around it. -/
theorem exists_splitParens {outer : Nat} (h : parensMatch (outer + depth + 1) row = true) :
    ∃ inner behind, splitParens outer row = some (inner, behind) := by
  induction row generalizing outer with
  | nil => cases beq_iff_eq.mp h
  | cons lexeme rest ih =>
    rw [splitParens]
    by_cases hopen : lexeme.token = .openParen
    · have hrest : parensMatch (outer + 1 + depth + 1) rest = true := by
        rw [Nat.add_right_comm outer 1 depth]
        simpa [parensMatch, hopen] using h
      obtain ⟨inner, behind, hsplit⟩ := ih hrest
      exact ⟨lexeme :: inner, behind, by simp [hopen, hsplit]⟩
    by_cases hclose : lexeme.token = .closeParen
    · cases outer with
      | zero => exact ⟨[], rest, if_pos ⟨rfl, hclose⟩⟩
      | succ outer =>
        have hrest : parensMatch (outer + depth + 1) rest = true := by
          rw [Nat.add_right_comm outer depth 1]
          simpa [parensMatch, hclose] using h
        obtain ⟨inner, behind, hsplit⟩ := ih hrest
        exact ⟨lexeme :: inner, behind, by simp [hclose, hsplit]⟩
    · rw [parensMatch_of_other hopen hclose] at h
      obtain ⟨inner, behind, hsplit⟩ := ih h
      exact ⟨lexeme :: inner, behind, by simp [hopen, hclose, hsplit]⟩

theorem exists_parensMatch_of_cons {lexeme : Lexeme}
    (h : parensMatch depth (lexeme :: row) = true) : ∃ depth, parensMatch depth row = true := by
  unfold parensMatch at h
  split at h
  · exact ⟨_, h⟩
  · cases h
  · exact ⟨_, h⟩
  · exact ⟨_, h⟩

end Lexeme

namespace Note

open Lexeme (Alike)

variable {rules : NoteRules} {fresh : Bool} {row other : List Lexeme}

/-! ## Bodies that begin with a statement -/

/-- The lexemes of a statement that is read already have no notes. -/
theorem statements_of_skipped (front : List Lexeme) (last : Lexeme) (behind : List Lexeme) :
    statements rules fresh (front.length + 1) (front ++ last :: behind) =
      statements rules (beginsStatement last.token) 0 behind := by
  induction front generalizing fresh with
  | nil => rfl
  | cons lexeme front ih => exact ih

/-- A statement that is read brings its note, and the lexemes behind it bring theirs. -/
theorem statements_of_statement? {lexeme last : Lexeme} {front behind : List Lexeme}
    {note : Option Note}
    (h : statement? rules (lexeme :: (front ++ last :: behind)) = some (note, front.length + 1)) :
    statements rules true 0 (lexeme :: (front ++ last :: behind)) =
      note.toList ++ statements rules (beginsStatement last.token) 0 behind := by
  rw [statements, if_pos rfl, h]
  exact congrArg (note.toList ++ ·) (statements_of_skipped front last behind)

/-! ## Bodies one behind the other -/

/-- A row of lexemes behind which a statement can begin: none of its parentheses is open there, and
its last lexeme ends what is in front of a statement. -/
structure EndsStatement (row : List Lexeme) : Prop where
  parens : Lexeme.parensMatch 0 row = true
  last : ∀ lexeme ∈ row.getLast?, beginsStatement lexeme.token = true

theorem endsStatement_nil : EndsStatement [] :=
  ⟨rfl, fun _ hlast => absurd hlast (Option.not_mem_none _)⟩

/-- A marker statement takes some of the lexemes behind its name. -/
theorem taken_of_statement? {lexeme : Lexeme} {rest : List Lexeme} {note : Option Note}
    {taken : Nat} (h : statement? rules (lexeme :: rest) = some (note, taken)) :
    0 < taken ∧ taken ≤ rest.length := by
  obtain ⟨token, position, trivia⟩ := lexeme
  cases token with
  | identifier name =>
    unfold statement? at h
    dsimp only at h
    split at h
    · split at h
      · cases h
        exact ⟨Nat.one_pos, by simp⟩
      · obtain ⟨⟨inner, behind⟩, hsplit, hsame⟩ := Option.map_eq_some_iff.mp h
        cases hsame
        obtain ⟨closer, rfl, -, -⟩ := Lexeme.parensMatch_of_splitParens hsplit
        simp only [List.length_cons, List.length_append]
        omega
      · cases h
    · cases h
  | _ => cases h

/-- The note of a marker statement is written in it. -/
theorem writtenIn_of_statement? {taken : Nat} {a : Note}
    (h : statement? rules row = some (some a, taken)) : a.WrittenIn row := by
  unfold statement? at h
  split at h
  · next name _ _ rest =>
    split at h
    · split at h
      · exact writtenIn_of_nil (congrArg Prod.fst (Option.some.inj h)) _
      · obtain ⟨⟨inner, behind⟩, hsplit, hsame⟩ := Option.map_eq_some_iff.mp h
        obtain ⟨closer, rfl, -, -⟩ := Lexeme.parensMatch_of_splitParens hsplit
        refine (writtenIn_ofMarker (congrArg Prod.fst hsame)).mono ?_
        exact ((List.prefix_append inner _).isInfix.trans (List.suffix_cons _ _).isInfix).trans
          (List.suffix_cons _ _).isInfix
      · cases h
    · cases h
  · cases h

/-- The notes of the marker statements in a row are written in it. -/
theorem writtenIn_of_mem_statements {skip : Nat} {a : Note}
    (h : a ∈ statements rules fresh skip row) : a.WrittenIn row := by
  induction row generalizing fresh skip with
  | nil => cases h
  | cons lexeme rest ih =>
    have hrest : ∀ {fresh skip}, a ∈ statements rules fresh skip rest →
        a.WrittenIn (lexeme :: rest) :=
      fun hmem => (ih hmem).mono (List.suffix_cons lexeme rest).isInfix
    cases skip with
    | succ skip => exact hrest h
    | zero =>
      unfold statements at h
      cases hread : if fresh then statement? rules (lexeme :: rest) else none with
      | none =>
        rw [hread] at h
        exact hrest h
      | some read =>
        obtain ⟨note, taken⟩ := read
        rw [hread] at h
        rcases List.mem_append.mp h with hnote | hmem
        · obtain rfl : note = some a := Option.mem_toList.mp hnote
          split at hread
          · exact writtenIn_of_statement? hread
          · cases hread
        · exact hrest hmem

/-- Where no marker statement begins there is none. -/
theorem statement?_eq_none {lexeme : Lexeme} {rest : List Lexeme}
    (h : Reader.beginsMarker rules lexeme.token (Reader.headToken rest) = false) :
    statement? rules (lexeme :: rest) = none := by
  obtain ⟨token, position, trivia⟩ := lexeme
  cases token with
  | identifier name =>
    unfold statement?
    dsimp only
    split
    · next hmarker =>
      cases rest with
      | nil => rfl
      | cons next rest =>
        obtain ⟨token, position', trivia'⟩ := next
        cases token with
        | openParen | semicolon =>
          rw [show rules.isMarker name = false from h] at hmarker
          cases hmarker
        | _ => rfl
    · rfl
  | _ => rfl

/-- The marker statement in front of a row is there as well when more lexemes come behind the row,
unless the row ends with a name that begins one there. -/
theorem statement?_append {depth : Nat} {lexeme : Lexeme} {rest behind : List Lexeme}
    (hmatch : Lexeme.parensMatch depth (lexeme :: rest) = true)
    (hlast : ∀ last ∈ (lexeme :: rest).getLast?,
      Reader.beginsMarker rules last.token (Reader.headToken behind) = false) :
    statement? rules (lexeme :: (rest ++ behind)) = statement? rules (lexeme :: rest) := by
  cases rest with
  | nil =>
    have hend : Reader.beginsMarker rules lexeme.token .endOfFile = false := by
      cases lexeme.token <;> rfl
    rw [List.nil_append, statement?_eq_none (hlast lexeme rfl), statement?_eq_none hend]
  | cons next rest =>
    obtain ⟨token, position, trivia⟩ := lexeme
    cases token with
    | identifier name =>
      simp only [statement?]
      obtain ⟨token, position', trivia'⟩ := next
      cases token with
      | openParen =>
        have hinside : Lexeme.parensMatch (0 + depth + 1) rest = true := by
          rw [Nat.zero_add]
          exact hmatch
        obtain ⟨inner, _, hsplit⟩ := Lexeme.exists_splitParens hinside
        obtain ⟨closer, rfl, hcloser, hinner⟩ := Lexeme.parensMatch_of_splitParens hsplit
        have hmore := Lexeme.splitParens_of_parensMatch hinner hcloser
        dsimp only [List.cons_append]
        rw [List.append_assoc, List.cons_append, hmore, hmore]
        rfl
      | _ => rfl
    | _ => rfl

/-- Whether a statement can begin behind a row, if `fresh` says whether one can begin in front of
it. -/
def freshBehind (fresh : Bool) (row : List Lexeme) : Bool :=
  (row.getLast?.map fun last => beginsStatement last.token).getD fresh

@[simp] theorem freshBehind_nil (fresh : Bool) : freshBehind fresh [] = fresh := rfl

@[simp] theorem freshBehind_concat (fresh : Bool) (row : List Lexeme) (last : Lexeme) :
    freshBehind fresh (row ++ [last]) = beginsStatement last.token := by
  simp [freshBehind]

/-- Only the last lexeme of a row counts. -/
theorem freshBehind_of_ne_nil (hrow : row ≠ []) (fresh other : Bool) :
    freshBehind fresh row = freshBehind other row := by
  obtain ⟨front, last, rfl⟩ := List.eq_nil_or_concat row |>.resolve_left hrow
  simp [List.concat_eq_append]

theorem freshBehind_cons (fresh : Bool) (lexeme : Lexeme) (rest : List Lexeme) :
    freshBehind fresh (lexeme :: rest) = freshBehind (beginsStatement lexeme.token) rest := by
  cases rest with
  | nil => rfl
  | cons next rest =>
    unfold freshBehind
    rw [List.getLast?_cons_cons]
    obtain ⟨last, hlast⟩ := Option.isSome_iff_exists.mp
      (List.getLast?_isSome.mpr (List.cons_ne_nil next rest))
    simp [hlast]

/-- The notes of a row and of what is behind it, if the row is read from inside `depth` parentheses
and does not end with a name that begins a marker statement there. -/
theorem statements_append_of_parensMatch {depth skip : Nat} {behind : List Lexeme}
    (hmatch : Lexeme.parensMatch depth row = true)
    (hlast : ∀ last ∈ row.getLast?,
      Reader.beginsMarker rules last.token (Reader.headToken behind) = false)
    (hskip : skip ≤ row.length) :
    statements rules fresh skip (row ++ behind) =
      statements rules fresh skip row ++ statements rules (freshBehind fresh row) 0 behind := by
  induction row generalizing fresh depth skip with
  | nil =>
    obtain rfl : skip = 0 := Nat.le_zero.mp hskip
    rfl
  | cons lexeme rest ih =>
    obtain ⟨depth', hrest⟩ := Lexeme.exists_parensMatch_of_cons hmatch
    have hlast' : ∀ last ∈ rest.getLast?,
        Reader.beginsMarker rules last.token (Reader.headToken behind) = false := by
      intro last hmem
      refine hlast last ?_
      rw [List.getLast?_cons, Option.mem_def.mp hmem]
      rfl
    rw [freshBehind_cons]
    cases skip with
    | succ skip => exact ih hrest hlast' (Nat.le_of_succ_le_succ hskip)
    | zero =>
      rw [List.cons_append, statements, statements, statement?_append hmatch hlast]
      split
      · next note taken htaken =>
        obtain ⟨hpos, hle⟩ := taken_of_statement? (Option.ite_none_right_eq_some.mp htaken).2
        have hmore : rest ≠ [] := by
          rintro rfl
          exact absurd hpos (Nat.not_lt.mpr hle)
        rw [ih hrest hlast' hle, List.append_assoc,
          freshBehind_of_ne_nil hmore false (beginsStatement lexeme.token)]
      · exact ih hrest hlast' (Nat.zero_le _)

/-- A body behind a row at whose end a statement can begin has the notes of the row and its own. -/
theorem statements_append {front : List Lexeme} (h : EndsStatement front) (behind : List Lexeme) :
    statements rules true 0 (front ++ behind) =
      statements rules true 0 front ++ statements rules true 0 behind := by
  have hlast : ∀ last ∈ front.getLast?,
      Reader.beginsMarker rules last.token (Reader.headToken behind) = false := by
    intro last hmem
    have hbegins := h.last last hmem
    cases htoken : last.token <;> rw [htoken] at hbegins <;> first | rfl | cases hbegins
  have hfresh : freshBehind true front = true := by
    unfold freshBehind
    cases hend : front.getLast? with
    | none => rfl
    | some last => exact h.last last hend
  rw [statements_append_of_parensMatch h.parens hlast (Nat.zero_le _), hfresh]

/-! ## Bodies at other places -/

theorem ofMarker_of_alike (h : Alike row other) (marker : String) :
    ofMarker marker row = ofMarker marker other := by
  unfold ofMarker
  split
  · next name position trivia position' trivia' behind =>
    obtain ⟨_, _, _, rfl, htail⟩ := h.exists_of_cons
    obtain ⟨_, _, behind', rfl, hbehind⟩ := htail.exists_of_cons
    dsimp only
    rw [hbehind.getLast?_token_eq, hbehind.dropLast.parensMatch_eq, hbehind.dropLast.arguments_eq,
      h.arguments_eq]
  · next hrow =>
    rw [h.arguments_eq]
    split
    · obtain ⟨_, _, _, rfl, htail⟩ := h.symm.exists_of_cons
      obtain ⟨_, _, _, rfl, -⟩ := htail.exists_of_cons
      exact (hrow _ _ _ _ _ _ rfl).elim
    · rfl

/-- The group of a marker is the same at other places. -/
theorem splitParens_map_of_alike (h : Alike row other) (marker : String) :
    ((Lexeme.splitParens 0 row).map fun (inner, _) => (ofMarker marker inner, inner.length + 2)) =
      (Lexeme.splitParens 0 other).map fun (inner, _) =>
        (ofMarker marker inner, inner.length + 2) := by
  cases hsplit : Lexeme.splitParens 0 row with
  | none =>
    cases hother : Lexeme.splitParens 0 other with
    | none => rfl
    | some split =>
      obtain ⟨_, _, hrow, -⟩ := h.symm.exists_splitParens hother
      rw [hsplit] at hrow
      cases hrow
  | some split =>
    obtain ⟨inner', behind', hother, hinner⟩ := h.exists_splitParens hsplit
    rw [hother, Option.map_some, Option.map_some]
    dsimp only
    rw [ofMarker_of_alike hinner, hinner.length_eq]

/-- Both rows begin with the same marker statement, or none does. -/
theorem statement?_of_alike (h : Alike row other) :
    statement? rules row = statement? rules other := by
  cases row with
  | nil =>
    cases h
    rfl
  | cons lexeme rest =>
    obtain ⟨_, _, rest', rfl, hrest⟩ := h.exists_of_cons
    obtain ⟨token, _, _⟩ := lexeme
    cases token with
    | identifier name =>
      simp only [statement?]
      cases rest with
      | nil =>
        cases hrest
        rfl
      | cons next behind =>
        obtain ⟨_, _, behind', rfl, hbehind⟩ := hrest.exists_of_cons
        obtain ⟨token, _, _⟩ := next
        cases token with
        | openParen =>
          dsimp only
          rw [splitParens_map_of_alike hbehind]
        | _ => rfl
    | _ => rfl

/-- Bodies that are alike make the same notes. -/
theorem statements_of_alike (h : Alike row other) (skip : Nat) :
    statements rules fresh skip row = statements rules fresh skip other := by
  induction h generalizing fresh skip with
  | nil => rfl
  | @cons lexeme lexeme' rest rest' htoken htouches hrest ih =>
    cases skip with
    | succ skip =>
      simp only [statements, htoken]
      exact ih skip
    | zero =>
      have hsame : statement? rules (lexeme :: rest) = statement? rules (lexeme' :: rest') :=
        statement?_of_alike (.cons htoken htouches hrest)
      simp only [statements, hsame, htoken, ih]

theorem EndsStatement.of_alike (h : EndsStatement row) (halike : Alike row other) :
    EndsStatement other := by
  refine ⟨halike.parensMatch_eq 0 ▸ h.parens, fun last hlast => ?_⟩
  have htoken : some last.token = row.getLast?.map (·.token) := by
    rw [halike.getLast?_token_eq, Option.mem_def.mp hlast]
    rfl
  obtain ⟨last', hlast', hsame⟩ := Option.map_eq_some_iff.mp htoken.symm
  rw [← hsame]
  exact h.last last' hlast'

end Note

end RemoteCalls
