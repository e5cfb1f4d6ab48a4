import RemoteCalls.Proofs.Outline.Refusing

/-!
# Printed variables

The declaration of a name with a printable type stands for a variable with this name and this type.
Where the type is spelled but not printable, its text is reported as malformed.
-/

namespace RemoteCalls

namespace Outline

open Reader (external Refuses)

variable {setting : Setting} {items : List Item} {type : CType} {name : String}

/-- One variable is found, with a known name and type. -/
def FindsVariable (name : String) (type : CType) (found : List Finding) : Prop :=
  ∃ v, found = [.declaration (.variable v)] ∧ v.name = name ∧ v.type = type

/-- A declaration with a printable type stands for the variable. -/
theorem standsFor_variable (htype : type.Printable) (hname : IsPlainName name)
    (hplain : StartsPlain setting.rules (wordItems type.words)) :
    StandsFor setting (type.items (wordItems [name]) ++ [.token .semicolon])
      (FindsVariable name type) := by
  refine (standsFor_declaration (by simp) (fun steps => Reader.external_variable htype hname)
    fun row behind hrow => ?_).mono ?_
  · rw [CType.items, List.append_assoc, ← htype.tailItems_eq] at hrow
    exact front_of_spelled htype.spelled hname.toIsName hplain hrow behind
  · rintro _ ⟨_, ⟨_, rfl, v, rfl, hsame⟩, rfl⟩
    exact ⟨_, rfl, hsame⟩

/-- A declaration that is refused is reported. -/
theorem exists_diagnostic_of_step (hitems : items ≠ [])
    (hrefuses : ∀ steps, Refuses setting [] (external steps) items)
    (hfront : ∀ row behind, Spells items row → Front.of setting.rules (row ++ behind) = .declaration)
    {row : List Lexeme} (hrow : Spells items row) (hquiet : ∀ lexeme ∈ row, Quiet lexeme.trivia)
    (behind : List Lexeme) (linkage : Nat) :
    ∃ diagnostic, .diagnostic diagnostic ∈ (step setting ⟨row ++ behind, [], linkage⟩).1 := by
  have hread := hrefuses (Reader.stepsFor (row ++ behind).length) row behind .variable hrow
  have houtcome := Reader.readExternal_outcome setting (row ++ behind) []
  rw [step_of_declaration (row_ne_nil hitems hrow) hquiet (hfront row behind hrow)]
  unfold stepDeclaration
  cases hrun : Reader.readExternal setting (row ++ behind) with
  | ok result => exact absurd hrun (hread result)
  | error failure =>
    rw [hrun] at houtcome
    cases failure with
    | outOfSteps => exact houtcome.elim
    | fatal diagnostic => exact ⟨diagnostic, List.mem_cons_self ..⟩
    | malformed diagnostic =>
      refine ⟨diagnostic, ?_⟩
      simp only [recover]
      split
      · exact List.mem_cons_self ..
      · exact List.mem_cons_self ..

/-- A text whose first declaration is refused is reported. -/
theorem exists_diagnostic_of_written {rules : NoteRules} {file : Path} {origin : Origin}
    {text : String} (h : Written text.toList items []) (hitems : items ≠ [])
    (hrefuses : ∀ setting steps, Refuses setting [] (external steps) items)
    (hfront : ∀ row behind, Spells items row → Front.of rules (row ++ behind) = .declaration) :
    ∃ diagnostic, .diagnostic diagnostic ∈ ofText rules file origin text := by
  obtain ⟨lexed, hlexed, hspells, hquiet, -⟩ := h.ofChars
  let setting : Setting := ⟨rules, file, origin, lexed.finish⟩
  have hstep : ∃ diagnostic,
      .diagnostic diagnostic ∈ (step setting ⟨lexed.lexemes ++ [], [], 0⟩).1 :=
    exists_diagnostic_of_step hitems (hrefuses setting) hfront hspells hquiet [] 0
  obtain ⟨diagnostic, hdiagnostic⟩ := hstep
  rw [List.append_nil] at hdiagnostic
  refine ⟨diagnostic, ?_⟩
  have hne : (⟨lexed.lexemes, [], 0⟩ : Outline).rest ≠ [] := row_ne_nil hitems hspells
  unfold ofText Lexed.ofText
  rw [hlexed]
  dsimp only
  rw [ofLexed_eq, start, scan_of_ne_nil hne]
  exact List.mem_append_left _ (List.mem_append_left _ hdiagnostic)

/-- The text of a type that is not printable is reported. -/
theorem exists_diagnostic_of_spelled (h : type.Spelled) (hbad : ¬ type.Printable)
    (hname : IsPlainName name) {rules : NoteRules} (hplain : StartsPlain rules (wordItems type.words))
    (file : Path) (origin : Origin) :
    ∃ diagnostic, .diagnostic diagnostic ∈
      ofText rules file origin (type.declare name ++ ";") := by
  have hprints := (h.prints.2 _ _ (prints_word hname.word)).semicolon
  have hwritten := hprints.written [] nofun
  rw [List.append_nil, List.append_assoc] at hwritten
  refine exists_diagnostic_of_written hwritten (by simp) (fun setting steps => ?_) ?_
  · rw [← List.append_assoc]
    exact (Reader.external_refuses h hbad hname).append _
  · exact fun row behind hrow => front_of_spelled h hname.toIsName hplain hrow behind

end Outline

end RemoteCalls
