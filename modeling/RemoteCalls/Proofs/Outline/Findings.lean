import RemoteCalls.Proofs.Outline.Provenance
import RemoteCalls.Proofs.Token.Order

/-!
# The findings of a file

What is shown of the readers of declarations goes over to all that is found at file scope: first to
the declaration that a reader reads, then to one step, and from there to the whole file.
-/

namespace RemoteCalls

namespace Declaration

/-- All of some declarations are found in a file. -/
def AllFoundIn (setting : Setting) (found : List Declaration) : Prop :=
  ∀ d ∈ found, d.FoundIn setting.file setting.origin

variable {setting : Setting}

theorem allFoundIn_nil : AllFoundIn setting [] := by
  intro d hd
  cases hd

theorem allFoundIn_singleton {d : Declaration} (h : d.FoundIn setting.file setting.origin) :
    AllFoundIn setting [d] := by
  intro other hother
  rw [List.mem_singleton.mp hother]
  exact h

theorem AllFoundIn.append {found more : List Declaration} (h : AllFoundIn setting found)
    (hmore : AllFoundIn setting more) : AllFoundIn setting (found ++ more) := by
  intro d hd
  rcases List.mem_append.mp hd with hd | hd
  · exact h d hd
  · exact hmore d hd

end Declaration

namespace Reader

open Declaration (AllFoundIn allFoundIn_nil allFoundIn_singleton)

variable {setting : Setting}

theorem declared_finds (steps : Nat) (start : Position) (specifiers : Specifiers) (name : String)
    (meaning : Declared) :
    Finds setting (declared steps start specifiers name meaning)
      fun d => d.FoundIn setting.file setting.origin := by
  cases meaning with
  | function result params =>
    unfold declared
    apply (placeAt_finds start).bind
    intro place hplace
    apply origin_finds.bind
    intro origin horigin
    refine .ite (fun _ => pure_finds ⟨hplace, horigin, trivial⟩) ?_
    intro _
    apply (modifyKind_finds fun _ => .function).bind
    intro _ _
    exact (skipAttributes_finds steps).bind fun _ _ => pure_finds ⟨hplace, horigin, rfl⟩
  | object type =>
    unfold declared
    apply (placeAt_finds start).bind
    intro place hplace
    apply origin_finds.bind
    intro origin horigin
    apply (skipAttributes_finds steps).bind
    intro _ _
    refine .ite (fun _ => pure_finds ⟨hplace, horigin, trivial⟩) ?_
    intro _
    exact (expressionBehind?_finds .equals).bind fun _ _ =>
      pure_finds ⟨hplace, horigin, trivial⟩

/-- The structure that gets a name from a type definition stays where it is. -/
theorem foundIn_nameAnonymous {specifiers : Specifiers} (h : specifiers.tag.FoundIn setting)
    (name : String) : (nameAnonymous name specifiers).2.tag.FoundIn setting ∧
      AllFoundIn setting (nameAnonymous name specifiers).1 := by
  unfold nameAnonymous
  cases htag : specifiers.tag with
  | anonymous s =>
    rw [htag] at h
    by_cases hdef : specifiers.isTypedef = true
    · simp only [hdef, if_true]
      exact ⟨trivial, allFoundIn_singleton ⟨h.file, h.origin, h.definition⟩⟩
    · simp only [hdef]
      exact ⟨trivial, allFoundIn_nil⟩
  | other => exact ⟨h, allFoundIn_nil⟩
  | reference name position => exact ⟨h, allFoundIn_nil⟩

theorem declarators_finds (start : Position) (steps : Nat) {specifiers : Specifiers}
    {found : List Declaration} (htag : specifiers.tag.FoundIn setting)
    (hfound : AllFoundIn setting found) :
    Finds setting (declarators start steps specifiers found) (AllFoundIn setting) := by
  induction steps generalizing specifiers found with
  | zero => exact fun _ _ => trivial
  | succ steps ih =>
    unfold declarators
    apply ((allFind setting steps).declarator false).bind
    intro declarator _
    cases declarator.name with
    | none => exact malformed_finds rfl
    | some name =>
      obtain ⟨htag', hnamed⟩ := foundIn_nameAnonymous htag name
      apply (resolved_finds _).bind
      intro meaning _
      apply (declared_finds (steps + 1) start _ name meaning).bind
      intro d hd
      have hfound' := hfound.append hnamed
      apply token_finds.bind
      intro next _
      refine .ite ?_ ?_
      · intro _
        apply noteRules_finds.bind
        intro rules _
        apply group_finds.bind
        intro inner _
        exact pure_finds (hfound'.append (allFoundIn_singleton (hd.define _)))
      · intro _
        have hfound'' := hfound'.append (allFoundIn_singleton hd)
        apply (accept_finds .comma).bind
        intro more _
        refine .ite (fun _ => ih htag' hfound'') ?_
        intro _
        exact (expect_finds .semicolon _).bind fun _ _ => pure_finds hfound''

/-- The structures that were gathered on the way become declarations. -/
theorem takeTags_finds : Finds setting takeTags (AllFoundIn setting) := by
  intro cursor hcursor
  refine ⟨fun s hs => absurd hs List.not_mem_nil, ?_⟩
  intro d hd
  obtain ⟨s, hs, rfl⟩ := List.mem_map.mp hd
  exact hcursor s hs

theorem namedStructure?_finds (specifiers : Specifiers) :
    Finds setting (namedStructure? specifiers) fun named => AllFoundIn setting named.toList := by
  unfold namedStructure?
  cases specifiers.tag with
  | reference name position =>
    apply (placeAt_finds position).bind
    intro place hplace
    apply origin_finds.bind
    intro origin horigin
    refine .ite (fun _ => pure_finds allFoundIn_nil) ?_
    intro _
    exact pure_finds (allFoundIn_singleton ⟨hplace, horigin, rfl⟩)
  | _ => exact pure_finds allFoundIn_nil

theorem external_finds (steps : Nat) :
    Finds setting (external steps) (AllFoundIn setting) := by
  unfold external
  apply position_finds.bind
  intro start _
  apply (allFind setting steps).specifiers.bind
  intro specifiers htag
  apply (modifyKind_finds fun kind => if specifiers.isTypedef then .typedef else kind).bind
  intro _ _
  apply takeTags_finds.bind
  intro found hfound
  apply (namedStructure?_finds specifiers).bind
  intro named hnamed
  apply token_finds.bind
  intro t _
  refine .ite ?_ fun _ => declarators_finds start steps htag hfound
  intro _
  exact advance_finds.bind fun _ _ => pure_finds (hfound.append hnamed)

end Reader

/-- A finding as it is made in a row of lexemes of a file. -/
def Finding.FoundIn (setting : Setting) (row : List Lexeme) : Finding → Prop
  | declaration d => d.FoundIn setting.file setting.origin
  | inclusion header position =>
    ∃ lexeme ∈ row, lexeme.token = .inclusion header ∧ lexeme.position = position
  | diagnostic d => d.FoundIn setting.file

namespace Outline

open Reader (Finds)

variable {setting : Setting} {outline : Outline} {row : List Lexeme}

/-- All findings are made in a row of lexemes of a file. -/
def AllFoundIn (setting : Setting) (row : List Lexeme) (found : List Finding) : Prop :=
  ∀ finding ∈ found, finding.FoundIn setting row

theorem allFoundIn_nil : AllFoundIn setting row [] := by
  intro finding hfinding
  cases hfinding

theorem allFoundIn_singleton {finding : Finding} (h : finding.FoundIn setting row) :
    AllFoundIn setting row [finding] := by
  intro other hother
  rw [List.mem_singleton.mp hother]
  exact h

theorem AllFoundIn.append {found more : List Finding} (h : AllFoundIn setting row found)
    (hmore : AllFoundIn setting row more) : AllFoundIn setting row (found ++ more) := by
  intro finding hfinding
  rcases List.mem_append.mp hfinding with hfinding | hfinding
  · exact h finding hfinding
  · exact hmore finding hfinding

/-- A longer row has the lexemes of a shorter one. -/
theorem AllFoundIn.mono {tail : List Lexeme} {found : List Finding}
    (h : AllFoundIn setting tail found) (htail : tail ⊆ row) : AllFoundIn setting row found := by
  intro finding hfinding
  have hfound := h finding hfinding
  cases finding with
  | inclusion header position =>
    obtain ⟨lexeme, hlexeme, htoken⟩ := hfound
    exact ⟨lexeme, htail hlexeme, htoken⟩
  | _ => exact hfound

theorem dangling_foundIn (pending : List PendingNote) :
    AllFoundIn setting row (PendingNote.dangling setting pending) := by
  intro finding hfinding
  unfold PendingNote.dangling at hfinding
  split at hfinding
  · cases hfinding
  · obtain ⟨p, -, rfl⟩ := List.mem_map.mp hfinding
    exact ⟨rfl, rfl⟩

theorem declarations_foundIn (kind : DeclKind) (pending : List PendingNote)
    {found : List Declaration} (h : Declaration.AllFoundIn setting found) :
    AllFoundIn setting row (declarations setting kind pending found) := by
  unfold declarations
  refine AllFoundIn.append ?_ ?_
  · intro finding hfinding
    obtain ⟨p, -, rfl⟩ := List.mem_map.mp hfinding
    exact ⟨rfl, rfl⟩
  · intro finding hfinding
    obtain ⟨d, hd, rfl⟩ := List.mem_map.mp hfinding
    exact (h d hd).annotate _

theorem recover_foundIn {failure : Failure} (h : failure.FoundIn setting) :
    AllFoundIn setting row (recover setting outline failure).1 := by
  cases failure with
  | malformed diagnostic =>
    have hdiagnostic : AllFoundIn setting row [.diagnostic diagnostic] := allFoundIn_singleton h
    unfold recover
    simp only
    split
    · exact hdiagnostic
    · exact hdiagnostic.append (allFoundIn_singleton ⟨rfl, rfl⟩)
  | fatal diagnostic => exact allFoundIn_singleton h
  | outOfSteps => exact allFoundIn_nil

/-- What a reader comes to at the front of an outline. -/
theorem foundIn_run {α : Type} {m : Reader α} {Q : α → Prop} (outline : Outline)
    (h : Finds setting m Q) :
    match run setting outline m with
    | .ok (a, _) => Q a
    | .error failure => failure.FoundIn setting := by
  have hrun := h ⟨outline.rest, .variable, []⟩ fun s hs => absurd hs List.not_mem_nil
  unfold run
  split
  · next heq =>
    rw [heq] at hrun
    exact hrun.2
  · next heq =>
    rw [heq] at hrun
    exact hrun

theorem attributeNote_finds : Finds setting attributeNote fun _ => True := by
  unfold attributeNote
  apply Reader.noteRules_finds.bind
  intro rules _
  apply Reader.position_finds.bind
  intro position _
  apply (Reader.placeAt_finds position).bind
  intro place hplace
  apply Reader.advance_finds.bind
  intro _ _
  apply Reader.token_finds.bind
  intro t _
  cases t with
  | identifier name =>
    apply Reader.advance_finds.bind
    intro _ _
    have harguments : Finds setting noteArguments fun _ => True := by
      unfold noteArguments
      apply Reader.token_finds.bind
      intro t _
      refine .ite ?_ fun _ => Reader.pure_finds trivial
      intro _
      exact Reader.group_finds.bind fun _ _ => Reader.pure_finds trivial
    exact harguments.bind fun _ _ => Reader.pure_finds trivial
  | _ => exact fun _ _ => ⟨hplace, rfl⟩

theorem stepNote_foundIn (position : Position) :
    AllFoundIn setting row (stepNote setting outline position).1 := by
  have hnote : Finds setting attributeNote fun _ => True := attributeNote_finds
  have hrun := foundIn_run outline hnote
  unfold stepNote
  split
  · exact allFoundIn_nil
  · exact allFoundIn_nil
  · next heq =>
    rw [heq] at hrun
    exact allFoundIn_singleton hrun
  · next heq =>
    rw [heq] at hrun
    exact allFoundIn_singleton hrun
  · exact allFoundIn_nil

theorem stepMarker_foundIn (position : Position) :
    AllFoundIn setting row (stepMarker setting outline position).1 := by
  have hmarker : Finds setting Reader.marker fun _ => True := Reader.marker_finds
  have hrun := foundIn_run outline hmarker
  unfold stepMarker
  split
  · exact (dangling_foundIn _).append (allFoundIn_singleton ⟨rfl, rfl, trivial⟩)
  · exact allFoundIn_nil
  · next heq =>
    rw [heq] at hrun
    exact recover_foundIn hrun

theorem stepMacro_foundIn : AllFoundIn setting row (stepMacro setting outline).1 := by
  have hcall : Finds setting macroCall fun _ => True := by
    unfold macroCall
    apply Reader.advance_finds.bind
    intro _ _
    exact Reader.group_finds.discard.bind fun _ _ => Reader.endStatement_finds ()
  have hrun := foundIn_run outline hcall
  unfold stepMacro
  split
  · exact allFoundIn_nil
  · next heq =>
    rw [heq] at hrun
    exact recover_foundIn hrun

theorem stepDeclaration_foundIn :
    AllFoundIn setting row (stepDeclaration setting outline).1 := by
  have hexternal : Finds setting (Reader.external (Reader.stepsFor outline.rest.length))
      (Declaration.AllFoundIn setting) := Reader.external_finds _
  have hrun := foundIn_run outline hexternal
  unfold stepDeclaration
  split
  · next heq =>
    rw [show run setting outline _ = _ from heq] at hrun
    exact declarations_foundIn _ _ hrun
  · next heq =>
    rw [show run setting outline _ = _ from heq] at hrun
    exact recover_foundIn hrun

theorem Front.token_of_inclusion {rules : NoteRules} {first second third : Token}
    {header : Inclusion} (h : ofTokens rules first second third = .inclusion header) :
    first = .inclusion header := by
  unfold ofTokens at h
  split at h
  · cases h
    rfl
  · cases h
  · cases h
  · cases h
  · split at h
    · cases h
    · split at h
      · cases h
      · split at h <;> cases h

/-- What one step finds belongs to the lexemes that are left. -/
theorem step_foundIn (setting : Setting) (outline : Outline) :
    AllFoundIn setting outline.rest (step setting outline).1 := by
  rcases outline with ⟨_ | ⟨lexeme, rest⟩, pending, linkage⟩
  · exact allFoundIn_nil
  · simp only [step, stepAt]
    split
    · next header hfront =>
      refine (dangling_foundIn _).append
        (allFoundIn_singleton ⟨lexeme, List.mem_cons_self, ?_, rfl⟩)
      exact Front.token_of_inclusion hfront
    · exact stepNote_foundIn _
    · exact allFoundIn_nil
    · split
      · exact allFoundIn_nil
      · exact allFoundIn_singleton ⟨rfl, rfl⟩
    · exact allFoundIn_nil
    · exact stepMarker_foundIn _
    · exact stepMacro_foundIn
    · exact stepDeclaration_foundIn

/-- Steps in a row find what belongs to the lexemes in front of the first. -/
theorem scan_foundIn (setting : Setting) (outline : Outline) :
    AllFoundIn setting outline.rest (scan setting outline).1 := by
  induction outline using scan_induction setting with
  | nil outline hnil =>
    rw [scan_of_nil hnil]
    exact allFoundIn_nil
  | step outline hne ih =>
    rw [scan_of_ne_nil hne]
    exact (step_foundIn setting outline).append
      (ih.mono (local_step setting hne).takes.suffix.subset)

/-- What is found in lexed text belongs to its file and its lexemes. -/
theorem ofLexed_foundIn (rules : NoteRules) (file : Path) (source : Origin) (lexed : Lexed) :
    AllFoundIn ⟨rules, file, source, lexed.finish⟩ lexed.lexemes
      (ofLexed rules file source lexed) := by
  rw [ofLexed_eq]
  exact (scan_foundIn _ (start lexed.lexemes)).append (dangling_foundIn _)

variable {rules : NoteRules} {file : Path} {source : Origin} {text : String}

/-- The findings of a text that leaves nothing open are those of its lexemes. -/
theorem foundIn_of_mem_ofText {finding : Finding} (h : finding ∈ ofText rules file source text) :
    (∃ lexed, Lexed.ofText text = .ok lexed ∧
        finding.FoundIn ⟨rules, file, source, lexed.finish⟩ lexed.lexemes) ∨
      ∃ d, finding = .diagnostic d ∧ d.FoundIn file := by
  unfold ofText at h
  cases hlexed : Lexed.ofText text with
  | ok lexed =>
    rw [hlexed] at h
    exact Or.inl ⟨lexed, rfl, ofLexed_foundIn rules file source lexed finding h⟩
  | error fault =>
    rw [hlexed] at h
    exact Or.inr ⟨_, List.mem_singleton.mp h, rfl, rfl⟩

/-- A declaration belongs to the file in which it is found. -/
theorem declaration_foundIn {d : Declaration} (h : .declaration d ∈ ofText rules file source text) :
    d.FoundIn file source := by
  rcases foundIn_of_mem_ofText h with ⟨lexed, -, hfound⟩ | ⟨_, hd, -⟩
  · exact hfound
  · cases hd

/-- A report on a file does not speak of headers. -/
theorem diagnostic_foundIn {d : Diagnostic} (h : .diagnostic d ∈ ofText rules file source text) :
    d.FoundIn file := by
  rcases foundIn_of_mem_ofText h with ⟨lexed, -, hfound⟩ | ⟨_, hd, hfound⟩
  · exact hfound
  · cases hd
    exact hfound

/-- At one position there is one include directive. -/
theorem header_eq_of_mem_ofText {header other : Inclusion} {position : Position}
    (h : .inclusion header position ∈ ofText rules file source text)
    (hother : .inclusion other position ∈ ofText rules file source text) : header = other := by
  rcases foundIn_of_mem_ofText h with ⟨lexed, hlexed, lexeme, hmem, htoken, hposition⟩ | ⟨_, hd, -⟩
  · rcases foundIn_of_mem_ofText hother with ⟨lexed', hlexed', other', hmem', htoken', hposition'⟩ |
      ⟨_, hd, -⟩
    · cases hlexed.symm.trans hlexed'
      have heq : lexeme = other' :=
        Lexed.eq_of_position_eq hlexed hmem hmem' (hposition.trans hposition'.symm)
      rw [heq, htoken'] at htoken
      cases htoken
      rfl
    · cases hd
  · cases hd

end Outline

end RemoteCalls
