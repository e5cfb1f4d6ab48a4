import RemoteCalls.Proofs.Outline.Scanned

/-!
# Functions, structures and variables that a file declares

Each declaration that is found in a file is a placeholder, or it was read at file scope from some
lexemes of the file, and then notes were put on it. So what is shown of the readers of declarations
holds of the functions, structures and variables of a file.
-/

namespace RemoteCalls

/-- The types in the prototype of a declared function are scanned, those of the members of a
declared structure, and that of a declared variable. -/
def Declaration.ScannedTypes : Declaration → Prop
  | .function f => f.Scanned
  | .struct s => s.Scanned
  | .variable v => v.Scanned
  | _ => True

namespace Declaration.ScannedTypes

variable {d : Declaration}

theorem annotate (h : d.ScannedTypes) (notes : List Note) : (d.annotate notes).ScannedTypes := by
  cases d with
  | function f => exact ⟨h.name, h.result, h.dimensions, h.params⟩
  | struct s => exact ⟨h.name, h.fields⟩
  | «variable» v => exact ⟨h.name, h.type⟩
  | _ => trivial

theorem define (h : d.ScannedTypes) (notes : List Note) : (d.define notes).ScannedTypes := by
  cases d with
  | function f => exact ⟨h.name, h.result, h.dimensions, h.params⟩
  | struct s => exact h
  | «variable» v => exact h
  | _ => trivial

end Declaration.ScannedTypes

namespace Reader

theorem declared_scans {name : String} (hname : IsFreeName name) {meaning : Declared}
    (hmeaning : meaning.Scanned) (steps : Nat) (start : Position) (specifiers : Specifiers) :
    Scans (declared steps start specifiers name meaning) Declaration.ScannedTypes := by
  cases meaning with
  | function result params =>
    unfold declared
    refine (placeAt_scans start).bind fun place _ => origin_scans.bind fun origin _ => ?_
    refine .ite (fun _ => pure_scans trivial) fun _ => ?_
    refine (modifyKind_scans fun _ => .function).bind fun _ _ => ?_
    refine (skipAttributes_scans steps).bind fun _ _ => pure_scans ?_
    exact ⟨hname, hmeaning.1, hmeaning.2.1, hmeaning.2.2⟩
  | object type =>
    unfold declared
    refine (placeAt_scans start).bind fun place _ => origin_scans.bind fun origin _ => ?_
    refine (skipAttributes_scans steps).bind fun _ _ => .ite (fun _ => pure_scans trivial) ?_
    intro _
    exact (expressionBehind?_scans .equals).bind fun _ _ =>
      pure_scans ⟨hname.toIsName, hmeaning⟩

/-- The specifiers stay scanned if a structure among them gets a name. -/
theorem scanned_nameAnonymous {specifiers : Specifiers} (h : specifiers.Scanned)
    {name : String} (hname : IsFreeName name) :
    (nameAnonymous name specifiers).2.Scanned ∧
      ∀ d ∈ (nameAnonymous name specifiers).1, d.ScannedTypes := by
  have htag := h.tag
  unfold nameAnonymous
  cases huse : specifiers.tag with
  | anonymous s =>
    rw [huse] at htag
    by_cases hdef : specifiers.isTypedef = true
    · simp only [hdef, if_true]
      refine ⟨⟨.base (.struct (.inr hname)) h.type.shape, trivial⟩, fun d hd => ?_⟩
      rw [List.mem_singleton.mp hd]
      exact ⟨hname.toIsName, htag⟩
    · simp only [hdef]
      exact ⟨⟨h.type, trivial⟩, fun _ hd => absurd hd List.not_mem_nil⟩
  | other => exact ⟨h, fun _ hd => absurd hd List.not_mem_nil⟩
  | reference tag position => exact ⟨h, fun _ hd => absurd hd List.not_mem_nil⟩

theorem declarators_scans (start : Position) (steps : Nat) {specifiers : Specifiers}
    (hspecifiers : specifiers.Scanned) {found : List Declaration}
    (hfound : ∀ d ∈ found, d.ScannedTypes) :
    Scans (declarators start steps specifiers found) fun found => ∀ d ∈ found, d.ScannedTypes := by
  have happend : ∀ {found more : List Declaration}, (∀ d ∈ found, d.ScannedTypes) →
      (∀ d ∈ more, d.ScannedTypes) → ∀ d ∈ found ++ more, d.ScannedTypes := by
    intro found more hfound hmore d hd
    exact (List.mem_append.mp hd).elim (hfound d) (hmore d)
  have hone : ∀ {d : Declaration}, d.ScannedTypes → ∀ other ∈ [d], other.ScannedTypes := by
    intro d hd other hother
    rw [List.mem_singleton.mp hother]
    exact hd
  induction steps generalizing specifiers found with
  | zero => exact outOfSteps_scans
  | succ steps ih =>
    unfold declarators
    refine ((allScan steps).declarator false).bind fun declarator hdeclarator => ?_
    cases hname : declarator.name with
    | none => exact malformed_scans _
    | some name =>
      have hname : IsFreeName name := hdeclarator.name name hname
      obtain ⟨hspecifiers, hnamed⟩ := scanned_nameAnonymous hspecifiers hname
      refine resolved_scans.bind fun meaning hmeaning => ?_
      have hmeaning := Declared.scanned_ofOps hspecifiers.type hdeclarator.ops hmeaning
      refine (declared_scans hname hmeaning (steps + 1) start _).bind fun d hd => ?_
      have hfound := happend hfound hnamed
      refine token_scans.bind fun next _ => .ite ?_ ?_
      · intro _
        refine noteRules_scans.bind fun rules _ => group_scans.bind fun inner _ => ?_
        exact pure_scans (happend hfound (hone (hd.define _)))
      · intro _
        have hfound := happend hfound (hone hd)
        refine (accept_scans .comma).bind fun more _ =>
          .ite (fun _ => ih hspecifiers hfound) fun _ => ?_
        exact (expect_scans .semicolon _).bind fun _ _ => pure_scans hfound

/-- A declaration at file scope declares what a source text can hold. -/
theorem external_scans (steps : Nat) :
    Scans (external steps) fun found => ∀ d ∈ found, d.ScannedTypes := by
  have htags : Scans takeTags fun found => ∀ d ∈ found, d.ScannedTypes := by
    intro setting cursor found next hcursor hrun
    cases hrun
    refine ⟨⟨hcursor.rest, fun _ hs => absurd hs List.not_mem_nil⟩, fun d hd => ?_⟩
    obtain ⟨s, hs, rfl⟩ := List.mem_map.mp hd
    exact hcursor.tags s hs
  have hnamed : ∀ specifiers : Specifiers, specifiers.Scanned →
      Scans (namedStructure? specifiers) fun named => ∀ d ∈ named, d.ScannedTypes := by
    intro specifiers hspecifiers
    have htag := hspecifiers.tag
    unfold namedStructure?
    cases huse : specifiers.tag with
    | reference name position =>
      rw [huse] at htag
      refine (placeAt_scans position).bind fun place _ => origin_scans.bind fun origin _ => ?_
      refine .ite (fun _ => pure_scans fun _ hd => absurd hd (Option.not_mem_none _)) fun _ => ?_
      refine pure_scans fun d hd => ?_
      cases hd
      exact ⟨htag, fun _ hfield => absurd hfield List.not_mem_nil⟩
    | _ => exact pure_scans fun _ hd => absurd hd (Option.not_mem_none _)
  unfold external
  refine position_scans.bind fun start _ => ?_
  refine (allScan steps).specifiers.bind fun specifiers hspecifiers => ?_
  refine (modifyKind_scans fun kind => if specifiers.isTypedef then .typedef else kind).bind ?_
  intro _ _
  refine htags.bind fun found hfound => (hnamed specifiers hspecifiers).bind fun named hnamed => ?_
  refine token_scans.bind fun t _ => .ite (fun _ => ?_) fun _ =>
    declarators_scans start steps hspecifiers hfound
  refine advance_scans.bind fun _ _ => pure_scans fun d hd => ?_
  rcases List.mem_append.mp hd with hd | hd
  · exact hfound d hd
  · exact hnamed d (Option.mem_toList.mp hd)

end Reader

namespace Outline

variable {setting : Setting} {outline : Outline} {row : List Lexeme}

/-- A declaration as it is found in a row of lexemes: a placeholder, or read at file scope and then
annotated. -/
inductive ReadIn (setting : Setting) (row : List Lexeme) : Declaration → Prop
  | placeholder (p : Placeholder) : ReadIn setting row (.placeholder p)
  | external {rest : List Lexeme} {found : List Declaration} {cursor : Cursor} {d : Declaration}
      (hrest : rest <:+ row) (hread : Reader.readExternal setting rest = .ok (found, cursor))
      (hd : d ∈ found) (notes : List Note) : ReadIn setting row (d.annotate notes)

theorem ReadIn.mono {tail : List Lexeme} {d : Declaration} (h : ReadIn setting tail d)
    (htail : tail <:+ row) : ReadIn setting row d := by
  cases h with
  | placeholder p => exact .placeholder p
  | external hrest hread hd notes => exact .external (hrest.trans htail) hread hd notes

/-- Notes that are left declare nothing. -/
theorem declaration_not_mem_dangling (d : Declaration) (pending : List PendingNote) :
    .declaration d ∉ PendingNote.dangling setting pending := by
  intro hd
  unfold PendingNote.dangling at hd
  split at hd
  · cases hd
  · obtain ⟨p, -, hp⟩ := List.mem_map.mp hd
    cases hp

/-- A failure declares nothing. -/
theorem declaration_not_mem_recover (d : Declaration) (failure : Failure) :
    .declaration d ∉ (recover setting outline failure).1 := by
  intro hd
  cases failure with
  | malformed diagnostic =>
    unfold recover at hd
    dsimp only at hd
    split at hd <;> simp at hd
  | fatal diagnostic => simp [recover] at hd
  | outOfSteps => cases hd

/-- What a step declares is read from the lexemes that are left. -/
theorem readIn_of_mem_step {d : Declaration} (hd : .declaration d ∈ (step setting outline).1) :
    ReadIn setting outline.rest d := by
  rcases outline with ⟨_ | ⟨lexeme, rest⟩, pending, linkage⟩
  · cases hd
  simp only [step, stepAt] at hd
  split at hd
  · rcases List.mem_append.mp hd with hd | hd
    · exact absurd hd (declaration_not_mem_dangling d _)
    · cases List.mem_singleton.mp hd
  · unfold stepNote at hd
    split at hd <;> simp at hd
  · cases hd
  · split at hd
    · cases hd
    · cases List.mem_singleton.mp hd
  · cases hd
  · unfold stepMarker at hd
    split at hd
    · rcases List.mem_append.mp hd with hd | hd
      · exact absurd hd (declaration_not_mem_dangling d _)
      · cases List.mem_singleton.mp hd
        exact .placeholder _
    · cases hd
    · exact absurd hd (declaration_not_mem_recover d _)
  · unfold stepMacro at hd
    split at hd
    · cases hd
    · exact absurd hd (declaration_not_mem_recover d _)
  · unfold stepDeclaration at hd
    split at hd
    · next found cursor hread =>
      rcases List.mem_append.mp hd with hd | hd
      · obtain ⟨p, -, hp⟩ := List.mem_map.mp hd
        cases hp
      · obtain ⟨e, he, hannotated⟩ := List.mem_map.mp hd
        cases hannotated
        exact .external (List.suffix_refl _) hread he _
    · exact absurd hd (declaration_not_mem_recover d _)

theorem readIn_of_mem_scan {d : Declaration} (hd : .declaration d ∈ (scan setting outline).1) :
    ReadIn setting outline.rest d := by
  induction outline using scan_induction setting with
  | nil outline hnil =>
    rw [scan_of_nil hnil] at hd
    cases hd
  | step outline hne ih =>
    rw [scan_of_ne_nil hne] at hd
    rcases List.mem_append.mp hd with hd | hd
    · exact readIn_of_mem_step hd
    · exact (ih hd).mono (local_step setting hne).takes.suffix

/-- What is found in a text is read from its lexemes. -/
theorem readIn_of_mem_ofText {rules : NoteRules} {file : Path} {origin : Origin} {text : String}
    {d : Declaration} (hd : .declaration d ∈ ofText rules file origin text) :
    ∃ lexed, Lexed.ofText text = .ok lexed ∧
      ReadIn ⟨rules, file, origin, lexed.finish⟩ lexed.lexemes d := by
  unfold ofText at hd
  cases hlexed : Lexed.ofText text with
  | error fault =>
    rw [hlexed] at hd
    cases List.mem_singleton.mp hd
  | ok lexed =>
    rw [hlexed] at hd
    dsimp only at hd
    rw [ofLexed_eq] at hd
    rcases List.mem_append.mp hd with hd | hd
    · exact ⟨lexed, rfl, readIn_of_mem_scan hd⟩
    · exact absurd hd (declaration_not_mem_dangling d _)

/-- A function, structure or variable that is found in a text is one that a source text can declare.
-/
theorem scannedTypes_of_mem_ofText {rules : NoteRules} {file : Path} {origin : Origin} {text : String}
    {d : Declaration} (hd : .declaration d ∈ ofText rules file origin text) : d.ScannedTypes := by
  obtain ⟨lexed, hlexed, hread⟩ := readIn_of_mem_ofText hd
  cases hread with
  | placeholder p => trivial
  | external hrest hread hfound notes =>
    have hlegible := (Lexed.legible_of_ofText hlexed).suffix hrest
    have hstart : Reader.ScannedAt ⟨_, .variable, []⟩ :=
      ⟨hlegible, fun _ hs => absurd hs List.not_mem_nil⟩
    exact ((Reader.external_scans _ _ _ _ _ hstart hread).2 _ hfound).annotate notes

end Outline

end RemoteCalls
