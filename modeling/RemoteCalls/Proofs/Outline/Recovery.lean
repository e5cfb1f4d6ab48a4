import RemoteCalls.Outline
import RemoteCalls.Proofs.Token.Nesting

/-!
# Where reading goes on behind a failure

A declaration that cannot be read is skipped up to the first place at which it can have ended: a
semicolon outside of groups, the brace that closes a body, or a closing delimiter in front. The rows
that end at such a place are described without the reading, and reading goes on just behind the
shortest of them.
-/

namespace RemoteCalls.Outline

open Lexeme (depthBehind)

/-- How many groups are open behind a row. Closing delimiters without a group are passed over. -/
def openGroups (row : List Lexeme) : Nat :=
  row.foldl (fun depth lexeme => depthBehind depth lexeme.token) 0

/-- A row that stops inside of a body: a brace right behind a parenthesis and outside of groups has
opened the outermost group that is still open. -/
inductive InBody : List Lexeme → Prop
  | opened {front : List Lexeme} {paren brace : Lexeme}
      (outside : openGroups (front ++ [paren]) = 0)
      (hparen : paren.token = .closeParen) (hbrace : brace.token = .openBrace) :
      InBody (front ++ [paren, brace])
  | inside {row : List Lexeme} {lexeme : Lexeme} (body : InBody row)
      (stillOpen : openGroups (row ++ [lexeme]) ≠ 0) : InBody (row ++ [lexeme])

/-- A row at whose end a declaration that cannot be read can have ended. -/
inductive Boundary : List Lexeme → Prop
  | semicolon {row : List Lexeme} {last : Lexeme} (outside : openGroups row = 0)
      (hlast : last.token = .semicolon) : Boundary (row ++ [last])
  | body {row : List Lexeme} {last : Lexeme} (inside : InBody row) (outermost : openGroups row = 1)
      (hlast : last.token = .closeBrace) : Boundary (row ++ [last])
  | stray {only : Lexeme} (honly : only.token.isCloser = true) : Boundary [only]

/-- The shortest row in front at whose end a declaration can have ended. -/
structure ShortestBoundary (row : List Lexeme) : Prop where
  boundary : Boundary row
  shortest : ∀ front, front <+: row → Boundary front → front = row

@[simp] theorem openGroups_nil : openGroups [] = 0 := rfl

theorem openGroups_concat (row : List Lexeme) (lexeme : Lexeme) :
    openGroups (row ++ [lexeme]) = depthBehind (openGroups row) lexeme.token := by
  simp [openGroups]

/-- Inside of a body there is an open group. -/
theorem InBody.openGroups_ne_zero {row : List Lexeme} (h : InBody row) : openGroups row ≠ 0 := by
  cases h with
  | @opened front paren brace outside hparen hbrace =>
    have hrow : front ++ [paren, brace] = (front ++ [paren]) ++ [brace] := by simp
    rw [hrow, openGroups_concat, outside, hbrace]
    decide
  | inside body stillOpen => exact stillOpen

/-- Each lexeme either opens a body or leaves the row as far inside of one as before. -/
theorem inBody_concat_iff {row : List Lexeme} {lexeme : Lexeme} :
    InBody (row ++ [lexeme]) ↔
      (openGroups row = 0 ∧ lexeme.token = .openBrace ∧
        row.getLast?.map (·.token) = some .closeParen) ∨
      (InBody row ∧ openGroups (row ++ [lexeme]) ≠ 0) := by
  constructor
  · intro h
    generalize hwhole : row ++ [lexeme] = whole at h
    cases h with
    | @opened front paren brace outside hparen hbrace =>
      have hsplit : row ++ [lexeme] = (front ++ [paren]) ++ [brace] := by rw [hwhole]; simp
      obtain ⟨rfl, hlast⟩ := List.append_inj' hsplit rfl
      rw [List.singleton_inj] at hlast
      subst hlast
      exact Or.inl ⟨outside, hbrace, by simp [hparen]⟩
    | @inside row' lexeme' body stillOpen =>
      obtain ⟨rfl, -⟩ := List.append_inj' hwhole rfl
      exact Or.inr ⟨body, stillOpen⟩
  · rintro (⟨outside, hbrace, hparen⟩ | ⟨body, stillOpen⟩)
    · rcases List.eq_nil_or_concat row with rfl | ⟨front, paren, rfl⟩
      · cases hparen
      · rw [List.concat_eq_append] at outside hparen ⊢
        rw [List.append_assoc]
        refine .opened outside ?_ hbrace
        simpa using hparen
    · exact .inside body stillOpen

/-- A boundary tells by its last lexeme and the groups in front of it. -/
theorem boundary_concat_iff {row : List Lexeme} {lexeme : Lexeme} :
    Boundary (row ++ [lexeme]) ↔
      (openGroups row = 0 ∧ lexeme.token = .semicolon) ∨
      (InBody row ∧ openGroups row = 1 ∧ lexeme.token = .closeBrace) ∨
      (row = [] ∧ lexeme.token.isCloser = true) := by
  constructor
  · intro h
    generalize hwhole : row ++ [lexeme] = whole at h
    cases h with
    | semicolon outside hlast =>
      obtain ⟨rfl, hlexeme⟩ := List.append_inj' hwhole rfl
      rw [List.singleton_inj] at hlexeme
      subst hlexeme
      exact Or.inl ⟨outside, hlast⟩
    | body inside outermost hlast =>
      obtain ⟨rfl, hlexeme⟩ := List.append_inj' hwhole rfl
      rw [List.singleton_inj] at hlexeme
      subst hlexeme
      exact Or.inr (Or.inl ⟨inside, outermost, hlast⟩)
    | stray honly =>
      rcases List.append_eq_singleton_iff.mp hwhole with ⟨rfl, hlexeme⟩ | ⟨-, hnil⟩
      · rw [List.singleton_inj] at hlexeme
        subst hlexeme
        exact Or.inr (Or.inr ⟨rfl, honly⟩)
      · cases hnil
  · rintro (⟨outside, hlast⟩ | ⟨inside, outermost, hlast⟩ | ⟨rfl, honly⟩)
    · exact .semicolon outside hlast
    · exact .body inside outermost hlast
    · exact .stray honly

/-- Where the search for the end of a failed declaration stands behind a row: the last token, the
groups that are open, and whether the outermost of them is a body. -/
structure Searched (row : List Lexeme) (last : Option Token) (depth : Nat) (body : Bool) :
    Prop where
  last_eq : last = row.getLast?.map (·.token)
  depth_eq : depth = openGroups row
  body_iff : depth ≠ 0 → (body = true ↔ InBody row)

/-- Only a lexeme outside of groups can change whether the outermost group is a body. -/
theorem Searched.concat {row : List Lexeme} {last : Option Token} {depth : Nat} {body : Bool}
    (hrow : Searched row last depth body) {lexeme : Lexeme} {body' : Bool}
    (hinside : depth ≠ 0 → body' = body)
    (hopened : depth = 0 → lexeme.token.isOpener = true →
      (body' = true ↔ lexeme.token = .openBrace ∧ last = some .closeParen)) :
    Searched (row ++ [lexeme]) (some lexeme.token) (depthBehind depth lexeme.token) body' := by
  have hdepth : depthBehind depth lexeme.token = openGroups (row ++ [lexeme]) := by
    rw [openGroups_concat, hrow.depth_eq]
  refine ⟨by simp, hdepth, ?_⟩
  intro hopen
  rw [inBody_concat_iff, ← hdepth, ← hrow.last_eq, ← hrow.depth_eq]
  by_cases hzero : depth = 0
  · have hoff : ¬ InBody row := fun hbody => hbody.openGroups_ne_zero (hrow.depth_eq ▸ hzero)
    have hopener : lexeme.token.isOpener = true := by
      cases hopener : lexeme.token.isOpener with
      | true => rfl
      | false =>
        refine absurd ?_ hopen
        unfold depthBehind
        rw [hopener, hzero]
        cases lexeme.token.isCloser <;> rfl
    rw [hopened hzero hopener]
    simp [hoff, hzero]
  · rw [hinside hzero, hrow.body_iff hzero]
    simp [hzero, hopen]

section

variable {row rest : List Lexeme} {lexeme : Lexeme} {last : Option Token} {depth : Nat}
  {opened : Position} {body : Bool}

theorem behindFailure_cons :
    behindFailure last depth opened body (lexeme :: rest) =
      if lexeme.token.isOpener then
        if depth = 0 then
          behindFailure lexeme.token 1 lexeme.position
            (lexeme.token = .openBrace ∧ last = some .closeParen) rest
        else behindFailure lexeme.token (depth + 1) opened body rest
      else if lexeme.token.isCloser then
        if depth = 1 ∧ lexeme.token = .closeBrace ∧ body then .ok rest
        else if last.isNone then .ok rest
        else behindFailure lexeme.token (depth - 1) opened body rest
      else if depth = 0 ∧ lexeme.token = .semicolon then .ok rest
      else behindFailure lexeme.token depth opened body rest := by
  rw [behindFailure]

/-- The search stops behind a boundary. -/
theorem behindFailure_of_boundary (hrow : Searched row last depth body)
    (h : Boundary (row ++ [lexeme])) :
    behindFailure last depth opened body (lexeme :: rest) = .ok rest := by
  have hdepth := hrow.depth_eq
  rw [behindFailure_cons]
  rcases boundary_concat_iff.mp h with ⟨outside, hlast⟩ | ⟨inside, outermost, hlast⟩ | ⟨hnil, honly⟩
  · have hzero : depth = 0 := hdepth.trans outside
    rw [hlast, hzero]
    rfl
  · have hone : depth = 1 := hdepth.trans outermost
    have hbody : body = true := (hrow.body_iff (by omega)).mpr inside
    rw [hlast, hone, hbody]
    rfl
  · have hnone : last = none := by
      rw [hrow.last_eq, hnil]
      rfl
    have hopener : lexeme.token.isOpener = false := by
      cases hopener : lexeme.token.isOpener with
      | false => rfl
      | true =>
        rw [Token.isCloser_of_isOpener hopener] at honly
        cases honly
    simp [hopener, honly, hnone]

/-- The search goes on behind any other lexeme. -/
theorem behindFailure_of_not_boundary (hrow : Searched row last depth body)
    (h : ¬ Boundary (row ++ [lexeme])) :
    ∃ opened' body',
      Searched (row ++ [lexeme]) (some lexeme.token) (depthBehind depth lexeme.token) body' ∧
      behindFailure last depth opened body (lexeme :: rest) =
        behindFailure (some lexeme.token) (depthBehind depth lexeme.token) opened' body' rest := by
  rw [boundary_concat_iff, ← hrow.depth_eq] at h
  rw [behindFailure_cons]
  by_cases hopener : lexeme.token.isOpener = true
  · have hdepth : depthBehind depth lexeme.token = depth + 1 := if_pos hopener
    by_cases hzero : depth = 0
    · refine ⟨lexeme.position, decide (lexeme.token = .openBrace ∧ last = some .closeParen),
        hrow.concat (fun h => absurd hzero h) (fun _ _ => decide_eq_true_iff), ?_⟩
      rw [hdepth, if_pos hopener, if_pos hzero, hzero]
    · refine ⟨opened, body, hrow.concat (fun _ => rfl) (fun h => absurd h hzero), ?_⟩
      rw [hdepth, if_pos hopener, if_neg hzero]
  · refine ⟨opened, body, hrow.concat (fun _ => rfl) (fun _ h => absurd h hopener), ?_⟩
    rw [if_neg hopener]
    by_cases hcloser : lexeme.token.isCloser = true
    · have hdepth : depthBehind depth lexeme.token = depth - 1 := by
        unfold depthBehind
        rw [if_neg hopener, if_pos hcloser]
      have hbody : ¬(depth = 1 ∧ lexeme.token = .closeBrace ∧ body = true) := by
        rintro ⟨hone, hbrace, hbody⟩
        exact h (Or.inr (Or.inl ⟨(hrow.body_iff (by omega)).mp hbody, hone, hbrace⟩))
      have hlast : ¬ last.isNone = true := by
        intro hnone
        rw [hrow.last_eq] at hnone
        exact h (Or.inr (Or.inr ⟨by simpa using hnone, hcloser⟩))
      rw [hdepth, if_pos hcloser, if_neg hbody, if_neg hlast]
    · have hdepth : depthBehind depth lexeme.token = depth := by
        unfold depthBehind
        rw [if_neg hopener, if_neg hcloser]
      have hsemicolon : ¬(depth = 0 ∧ lexeme.token = .semicolon) := fun hend => h (Or.inl hend)
      rw [hdepth, if_neg hcloser, if_neg hsemicolon]

end

/-- A boundary is found if none comes before it. -/
theorem behindFailure_eq_ok {row left behind : List Lexeme} {last : Option Token} {depth : Nat}
    {opened : Position} {body : Bool} (hrow : Searched row last depth body)
    (hboundary : Boundary (row ++ left)) (hleft : left ≠ [])
    (hfirst : ∀ front, front <+: left → front ≠ [] → Boundary (row ++ front) → front = left) :
    behindFailure last depth opened body (left ++ behind) = .ok behind := by
  induction left generalizing row last depth opened body with
  | nil => exact absurd rfl hleft
  | cons lexeme left ih =>
    rw [List.cons_append]
    by_cases hhere : Boundary (row ++ [lexeme])
    · have hsingle : [lexeme] = lexeme :: left :=
        hfirst [lexeme] ⟨left, rfl⟩ (List.cons_ne_nil _ _) hhere
      rw [behindFailure_of_boundary hrow hhere, ← (List.cons.inj hsingle).2]
      rfl
    · obtain ⟨opened', body', hsearched, hnext⟩ := behindFailure_of_not_boundary hrow hhere
      have hsplit : ∀ front, row ++ lexeme :: front = (row ++ [lexeme]) ++ front := by simp
      have hne : left ≠ [] := by
        rintro rfl
        exact hhere hboundary
      rw [hnext]
      refine ih hsearched (hsplit left ▸ hboundary) hne ?_
      intro front hfront _ hbound
      have hcons : lexeme :: front = lexeme :: left := by
        refine hfirst (lexeme :: front) ?_ (List.cons_ne_nil _ _) (hsplit front ▸ hbound)
        exact List.cons_prefix_cons.mpr ⟨rfl, hfront⟩
      exact (List.cons.inj hcons).2

theorem not_boundary_nil : ¬ Boundary [] := by
  intro h
  generalize hnil : ([] : List Lexeme) = row at h
  cases h with
  | semicolon => simp at hnil
  | body => simp at hnil
  | stray => simp at hnil

/-- Reading goes on just behind the shortest row at whose end the declaration can have ended. -/
theorem behindFailure_of_shortest {row : List Lexeme} (h : ShortestBoundary row)
    (behind : List Lexeme) (opened : Position) :
    behindFailure none 0 opened false (row ++ behind) = .ok behind := by
  have hstart : Searched [] none 0 false := ⟨rfl, rfl, fun h => absurd rfl h⟩
  refine behindFailure_eq_ok hstart h.boundary ?_ (fun front hfront _ => h.shortest front hfront)
  rintro rfl
  exact not_boundary_nil h.boundary

/-- A row without delimiters ends at its first semicolon. -/
theorem shortestBoundary_of_plain {row : List Lexeme} {last : Lexeme}
    (hrow : ∀ lexeme ∈ row, lexeme.token.isOpener = false ∧ lexeme.token.isCloser = false ∧
      lexeme.token ≠ .semicolon)
    (hlast : last.token = .semicolon) : ShortestBoundary (row ++ [last]) := by
  have houtside : ∀ front, (∀ lexeme ∈ front, lexeme.token.isOpener = false ∧
      lexeme.token.isCloser = false ∧ lexeme.token ≠ .semicolon) → openGroups front = 0 := by
    intro front hfront
    unfold openGroups
    induction front with
    | nil => rfl
    | cons lexeme front ih =>
      obtain ⟨hopener, hcloser, -⟩ := hfront lexeme List.mem_cons_self
      rw [List.foldl_cons]
      unfold depthBehind
      rw [hopener, hcloser]
      exact ih fun other hother => hfront other (List.mem_cons_of_mem lexeme hother)
  refine ⟨.semicolon (houtside row hrow) hlast, ?_⟩
  intro front hfront hboundary
  rcases List.prefix_concat_iff.mp hfront with hwhole | hfront
  · exact hwhole
  · rcases List.eq_nil_or_concat front with rfl | ⟨before, lexeme, rfl⟩
    · exact absurd hboundary not_boundary_nil
    · rw [List.concat_eq_append] at hfront hboundary
      have hmem : lexeme ∈ row := hfront.subset (by simp)
      obtain ⟨-, hcloser, hsemicolon⟩ := hrow lexeme hmem
      rcases boundary_concat_iff.mp hboundary with ⟨-, h⟩ | ⟨-, -, h⟩ | ⟨-, h⟩
      · exact absurd h hsemicolon
      · rw [h] at hcloser
        cases hcloser
      · rw [h] at hcloser
        cases hcloser

/-- What is left behind a failure is an end of the row, and shorter unless the row is empty. -/
theorem behindFailure_suffix {row rest : List Lexeme} {last : Option Token} {depth : Nat}
    {opened : Position} {body : Bool} (h : behindFailure last depth opened body row = .ok rest) :
    rest <:+ row ∧ (row ≠ [] → rest.length < row.length) := by
  induction row generalizing last depth opened body with
  | nil =>
    unfold behindFailure at h
    split at h
    · rw [← Except.ok.inj h]
      exact ⟨List.suffix_refl _, fun h => absurd rfl h⟩
    · cases h
  | cons lexeme row ih =>
    have hgoOn : ∀ {last depth opened body}, behindFailure last depth opened body row = .ok rest →
        rest <:+ lexeme :: row ∧ (lexeme :: row ≠ [] → rest.length < (lexeme :: row).length) := by
      intro last depth opened body h
      have hsuffix := (ih h).1
      refine ⟨hsuffix.trans (List.suffix_cons _ _), fun _ => ?_⟩
      exact Nat.lt_succ_of_le hsuffix.length_le
    have hstop : (Except.ok row : Except Position (List Lexeme)) = .ok rest →
        rest <:+ lexeme :: row ∧ (lexeme :: row ≠ [] → rest.length < (lexeme :: row).length) := by
      intro h
      rw [← Except.ok.inj h]
      exact ⟨List.suffix_cons _ _, fun _ => Nat.lt_succ_self _⟩
    rw [behindFailure_cons] at h
    split at h
    · split at h
      · exact hgoOn h
      · exact hgoOn h
    · split at h
      · split at h
        · exact hstop h
        · split at h
          · exact hstop h
          · exact hgoOn h
      · split at h
        · exact hstop h
        · exact hgoOn h

end RemoteCalls.Outline
