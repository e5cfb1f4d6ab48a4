import RemoteCalls.Outline.External
import RemoteCalls.Proofs.Outline.Declarators

/-!
# Declarations at file scope do not look past their end

A declaration at file scope is closed: it ends with the lexeme that it takes last, a semicolon or
the brace behind a body. So it is read in the same way in front of any other lexemes. What it
declares is consistent.
-/

namespace RemoteCalls.Reader

open Declaration (AllConsistent allConsistent_nil allConsistent_singleton)

variable {n steps more : Nat}

theorem declared_reads (start : Position) (specifiers : Specifiers) (name : String)
    (hn : n < steps) (hmore : steps ≤ more) (meaning : Declared) :
    Reads false n (declared steps start specifiers name meaning)
      (declared more start specifiers name meaning) fun d _ => d.Consistent := by
  cases meaning with
  | function result params =>
    unfold declared
    apply (placeAt_reads start).look
    intro place
    apply origin_reads.look
    intro origin
    refine .ite ?_ ?_
    · intro _
      exact pure_reads trivial
    · intro _
      apply (modifyKind_reads fun _ => .function).look
      intro _
      exact (skipAttributes_reads hn hmore).map fun _ _ _ _ => rfl
  | object type =>
    unfold declared
    apply (placeAt_reads start).look
    intro place
    apply origin_reads.look
    intro origin
    apply (skipAttributes_reads hn hmore).bind
    intro _ m _ _
    refine .ite ?_ ?_
    · intro _
      exact pure_reads trivial
    · intro _
      exact (expressionBehind?_reads (by decide)).map fun _ _ _ _ => trivial

/-- The structure that gets a name from a type definition is as consistent as before. -/
theorem consistent_nameAnonymous {specifiers : Specifiers} (h : specifiers.tag.Consistent)
    (name : String) : (nameAnonymous name specifiers).2.tag.Consistent ∧
      AllConsistent (nameAnonymous name specifiers).1 := by
  unfold nameAnonymous
  cases htag : specifiers.tag with
  | anonymous s =>
    rw [htag] at h
    by_cases hdef : specifiers.isTypedef = true
    · simp only [hdef, if_true]
      exact ⟨trivial, allConsistent_singleton h⟩
    · simp only [hdef]
      exact ⟨trivial, allConsistent_nil⟩
  | other => exact ⟨h, allConsistent_nil⟩
  | reference name position => exact ⟨h, allConsistent_nil⟩

theorem declarators_reads (start : Position) {specifiers : Specifiers}
    {found : List Declaration} (hn : 4 * n + 4 ≤ steps) (hmore : steps ≤ more)
    (htag : specifiers.tag.Consistent) (hfound : AllConsistent found) :
    Reads true n (declarators start steps specifiers found)
      (declarators start more specifiers found) fun found _ => AllConsistent found := by
  induction steps generalizing n more specifiers found with
  | zero => omega
  | succ steps ih =>
    obtain ⟨more, rfl⟩ := Nat.exists_eq_add_of_le' (Nat.one_le_of_lt hmore)
    have hall : AllRead steps more := allRead (Nat.le_of_succ_le_succ hmore)
    unfold declarators
    apply (hall.declarator false (by omega)).bind
    intro declarator k hk _
    cases declarator.name with
    | none => exact malformed_reads _ _
    | some name =>
      obtain ⟨htag', hnamed⟩ := consistent_nameAnonymous htag name
      apply (resolved_reads _).look
      intro meaning
      apply (declared_reads start _ name (by omega) hmore meaning).bind
      intro d m hm hd
      apply token_reads.bind
      rintro next m - ⟨rfl, -⟩
      have hfound' := hfound.append hnamed
      refine .ite ?_ ?_
      · intro _
        apply noteRules_reads.look
        intro rules
        refine group_reads.map ?_
        intro inner _ _ _
        exact hfound'.append (allConsistent_singleton (hd.define _))
      · intro _
        have hfound'' := hfound'.append (allConsistent_singleton hd)
        refine .ite_accept (by decide) ?_ ?_
        · intro j hj
          exact ih (by omega) (by omega) htag' hfound''
        · exact (expect_reads (by decide) _).map fun _ _ _ _ => hfound''

theorem takeTags_reads :
    Reads false n takeTags takeTags fun found k => k = n ∧ AllConsistent found := by
  intro setting cursor hcursor hn
  refine ⟨Cursor.consistent_of_tags_nil rfl, ⟨hn, ?_⟩, List.suffix_refl _, nofun, fun _ _ _ => rfl⟩
  intro d hd
  obtain ⟨s, hs, rfl⟩ := List.mem_map.mp hd
  exact hcursor s hs

/-- Words that refer to no structure name none. -/
theorem namedStructure?_of_other {specifiers : Specifiers} (h : specifiers.tag = .other) :
    namedStructure? specifiers = pure none := by
  unfold namedStructure?
  rw [h]

theorem namedStructure?_reads (specifiers : Specifiers) :
    Reads false n (namedStructure? specifiers) (namedStructure? specifiers)
      fun named k => k = n ∧ AllConsistent named.toList := by
  unfold namedStructure?
  cases specifiers.tag with
  | reference name position =>
    apply (placeAt_reads position).look
    intro place
    apply origin_reads.look
    intro origin
    refine .ite ?_ ?_
    · intro _
      exact pure_reads ⟨rfl, allConsistent_nil⟩
    · intro _
      exact pure_reads ⟨rfl, allConsistent_singleton rfl⟩
  | _ => exact pure_reads ⟨rfl, allConsistent_nil⟩

/-- A declaration at file scope is closed, and what it declares is consistent. -/
theorem external_reads (hn : 4 * n + 4 ≤ steps) (hmore : steps ≤ more) :
    Reads true n (external steps) (external more) fun found _ => AllConsistent found := by
  unfold external
  apply position_reads.look
  intro start
  apply ((allRead hmore).specifiers (by omega)).bind
  intro specifiers m hm htag
  apply (modifyKind_reads fun kind => if specifiers.isTypedef then .typedef else kind).look
  intro _
  apply takeTags_reads.bind
  rintro found m - ⟨rfl, hfound⟩
  refine (namedStructure?_reads specifiers).bind ?_
  rintro named m - ⟨rfl, hnamed⟩
  refine .ite_token (by decide) ?_ ?_
  · intro hm'
    exact (advance_closes hm').map fun _ _ _ _ => hfound.append hnamed
  · exact declarators_reads start (by omega) hmore htag hfound

/-- What reading a declaration at the front of a row comes to. There are always enough steps. -/
theorem readExternal_outcome (setting : Setting) (rest behind : List Lexeme) :
    Outcome true (external (stepsFor (rest ++ behind).length))
      (fun found _ => AllConsistent found) setting ⟨rest, .variable, []⟩
      (readExternal setting rest) := by
  refine external_reads (n := rest.length) ?_ ?_ setting ⟨rest, .variable, []⟩
    (Cursor.consistent_of_tags_nil rfl) rfl
  · unfold stepsFor
    omega
  · unfold stepsFor
    rw [List.length_append]
    omega

end RemoteCalls.Reader
