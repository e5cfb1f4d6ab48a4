import RemoteCalls.Proofs.Outline.Association
import RemoteCalls.Proofs.Outline.Functions
import RemoteCalls.Proofs.Outline.Prototypes

/-!
# Definitions of functions

A step at file scope that takes the definition of a function declares it with the notes that wait in
front of it and with those of the statements in its body. Every function whose prototype can be printed
has such a definition with a given body.
-/

namespace RemoteCalls

/-- The lexeme that opens the group at the end of a row is the last one that is not closed. -/
theorem Lexeme.inner_eq_of_balanced {front front' inner inner' : List Lexeme}
    {opener opener' : Lexeme} (h : front ++ opener :: inner = front' ++ opener' :: inner')
    (hopener : opener.token.isOpener = true) (hopener' : opener'.token.isOpener = true)
    (hinner : Token.Balanced (tokens inner)) (hinner' : Token.Balanced (tokens inner')) :
    inner = inner' := by
  -- Behind an opening lexeme a group is open up to the end.
  have hopen : ∀ {outer more inner : List Lexeme} {opener : Lexeme},
      opener.token.isOpener = true → Token.Balanced (tokens inner) →
      Token.Balanced (tokens outer) → outer ≠ more ++ opener :: inner := by
    rintro outer more inner opener hopener hinner houter rfl
    have hnest : Token.nest 0 (tokens (more ++ opener :: inner)) = some 0 := houter
    rw [tokens, List.map_append, Token.nest_append] at hnest
    obtain ⟨depth, -, hdepth⟩ := Option.bind_eq_some_iff.mp hnest
    have hbehind := Token.nest_add hinner (depth + 1)
    rw [Nat.zero_add] at hbehind
    rw [List.map_cons, Token.nest, if_pos hopener] at hdepth
    rw [show Token.nest (depth + 1) (tokens inner) = some 0 from hdepth] at hbehind
    cases hbehind
  rcases List.append_eq_append_iff.mp h with ⟨more, -, htail⟩ | ⟨more, -, htail⟩
  · cases more with
    | nil => exact (List.cons.inj htail).2
    | cons _ more => exact absurd (List.cons.inj htail).2 (hopen hopener' hinner' hinner)
  · cases more with
    | nil => exact (List.cons.inj htail).2.symm
    | cons _ more => exact absurd (List.cons.inj htail).2 (hopen hopener hinner hinner')

namespace Outline

/-- The notes that a declaration gets of those that wait in front of it. -/
def attachedNotes (rules : NoteRules) (pending : List PendingNote) : List Note :=
  (pending.filter fun p => !p.refused rules).map (·.note)

/-- A function that is found at a construct is read there, and gets the notes that wait. -/
theorem RoleAt.exists_of_mem_findings {setting : Setting} {linkage linkage' : Nat}
    {lexemes behind : List Lexeme} {role : Role}
    (h : RoleAt setting linkage lexemes role behind linkage') {position : Position} {pending : List PendingNote} {f : Function}
    (hf : .declaration (.function f) ∈ role.findings setting position pending) :
    ∃ found cursor g, Reader.readExternal setting lexemes = .ok (found, cursor) ∧
      cursor.rest = behind ∧ .function g ∈ found ∧
      f = { g with notes := Note.union (attachedNotes setting.rules pending) g.notes } := by
  cases h with
  | @declaration _ _ found cursor hfront hread =>
    rcases List.mem_append.mp hf with hf | hf
    · obtain ⟨p, -, hp⟩ := List.mem_map.mp hf
      cases hp
    · obtain ⟨d, hd, hannotated⟩ := List.mem_map.mp hf
      cases d with
      | function g =>
        cases hannotated
        exact ⟨found, cursor, g, hread, rfl, hd, rfl⟩
      | _ => cases hannotated
  | placeholder hfront hread | inclusion hfront =>
    rcases List.mem_append.mp hf with hf | hf
    · exact absurd hf (declaration_not_mem_dangling _ _)
    · cases List.mem_singleton.mp hf
  | failed hfails => exact absurd hf (declaration_not_mem_recover _ _)
  | malformedNote hfront hread | fatalNote hfront hread | strayBrace hfront =>
    cases List.mem_singleton.mp hf
  | _ => cases hf

end Outline

/-- `f.DefinedWith rules attached inner`: a step at file scope takes the definition of a function with
the lexemes `inner` in its body, the declaration gets `attached` of the notes that wait in front of it,
and `f` is the function that it declares. -/
inductive Function.DefinedWith (rules : NoteRules) (attached : List Note) (inner : List Lexeme)
    (f : Function) : Prop
  | intro {setting : Setting} {pending : List PendingNote} {linkage : Nat} {first : Lexeme}
      {rest front : List Lexeme} {brace closer : Lexeme} {found : List Finding} {next : Outline}
      (hrules : setting.rules = rules)
      (hlexemes : first :: rest = front ++ brace :: inner ++ closer :: next.rest)
      (hbrace : brace.token = .openBrace) (hinner : Token.Balanced (Lexeme.tokens inner))
      (hattached :
        Outline.attachedNotes rules (PendingNote.absorb rules pending first.trivia) = attached)
      (hstep : Outline.step setting ⟨first :: rest, pending, linkage⟩ = (found, next))
      (hfound : .declaration (.function f) ∈ found) (hdefined : f.isDefined = true) :
      DefinedWith rules attached inner f

/-- The notes of a defined function are those in front of it, and behind them those of its body. -/
theorem Function.DefinedWith.notes_eq {rules : NoteRules} {attached : List Note}
    {inner : List Lexeme} {f : Function} (h : f.DefinedWith rules attached inner) :
    f.notes = Note.union attached (Note.statements rules true 0 inner) := by
  obtain ⟨rfl, hlexemes, hbrace, hinner, rfl, hstep, hfound, hdefined⟩ := h
  rename_i setting pending linkage first rest front brace closer found next
  obtain ⟨role, behind, linkage', hrole⟩ :=
    Outline.exists_roleAt setting (List.cons_ne_nil first rest) linkage
  rw [Outline.step_of_roleAt hrole] at hstep
  cases hstep
  obtain ⟨found, cursor, g, hread, hbehind, hg, rfl⟩ := hrole.exists_of_mem_findings hfound
  obtain ⟨body, hbody, hnotes, -⟩ := Reader.annotated_of_readExternal hread _ hg
  change g.notes = _ at hnotes
  rw [hnotes, Note.union_union, Note.union_nil]
  cases hbody with
  | prototype hprototype =>
    rw [show g.isDefined = true from hdefined] at hprototype
    cases hprototype
  | @function _ front' inner' brace' closer' _ hlexemes' hbrace' _ hinner' =>
    rw [hbehind, hlexemes] at hlexemes'
    have hsplit : front ++ brace :: inner = front' ++ brace' :: inner' :=
      List.append_inj_left' hlexemes' rfl
    have hopener : ∀ {lexeme : Lexeme}, lexeme.token = .openBrace →
        lexeme.token.isOpener = true := fun hbrace => by rw [hbrace]; rfl
    rw [Lexeme.inner_eq_of_balanced hsplit (hopener hbrace) (hopener hbrace') hinner hinner']

/-- The prototype of a printable function with a body behind it is a definition of the function,
wherever it stands at file scope. -/
theorem Function.Printable.exists_definedWith {f : Function} (h : f.Printable) {setting : Setting}
    (hplain : StartsPlain setting.rules f.items) {first brace closer : Lexeme}
    {head inner : List Lexeme} (hhead : Spells f.items (first :: head))
    (hbrace : brace.token = .openBrace) (hcloser : closer.token = .closeBrace)
    (hinner : Token.Balanced (Lexeme.tokens inner)) (behind : List Lexeme)
    (pending : List PendingNote) :
    ∃ g, f.Same g ∧ g.DefinedWith setting.rules (Outline.attachedNotes setting.rules
      (PendingNote.absorb setting.rules pending first.trivia)) inner := by
  let body : List Item := (Lexeme.tokens inner).map .token
  have hbody : Token.Balanced (body.flatMap Item.tokens) := by
    simpa [body, List.flatMap_map, Item.tokens] using hinner
  let row := first :: (head ++ brace :: (inner ++ [closer]))
  have hrow : Spells (f.items ++ .token .openBrace :: (body ++ [.token .closeBrace])) row := by
    rw [← hbrace, ← hcloser]
    exact hhead.append (.token ((spells_tokens inner).append (.token .nil)))
  have hfront := Outline.front_of_items h hplain hrow behind
  have htakes : Reader.Takes setting [] (Reader.external (Reader.stepsFor (row ++ behind).length)) _
      (fun _ => True) _ := Reader.external_definition h hbody
  have hresult := htakes row behind .variable hrow trivial
  have houtcome := Reader.readExternal_outcome setting (row ++ behind) []
  unfold Reader.readExternal at houtcome
  cases hrun : Reader.external (Reader.stepsFor (row ++ behind).length) setting
      ⟨row ++ behind, .variable, []⟩ with
  | error failure =>
    rw [hrun] at hresult houtcome
    cases hresult
    exact houtcome.elim
  | ok result =>
    obtain ⟨found, cursor⟩ := result
    rw [hrun] at hresult
    obtain ⟨hrest, d, rfl, g, rfl, hsame, hdefined⟩ := hresult
    have hrole : Outline.RoleAt setting 0 (row ++ behind) _ cursor.rest 0 :=
      .declaration hfront hrun
    have hlexemes : first :: (head ++ brace :: (inner ++ [closer]) ++ behind) =
        first :: head ++ brace :: inner ++ closer :: (⟨cursor.rest, [], 0⟩ : Outline).rest := by
      simp [hrest]
    exact ⟨{ g with notes := Note.union _ g.notes }, ⟨hsame.name, hsame.result, hsame.params⟩,
      .intro rfl hlexemes hbrace hinner rfl (Outline.step_of_roleAt hrole pending)
        (List.mem_append_right _ (List.mem_singleton_self _)) hdefined⟩

end RemoteCalls
