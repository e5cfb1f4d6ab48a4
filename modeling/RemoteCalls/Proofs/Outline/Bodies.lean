import RemoteCalls.Proofs.Catalog.Merging
import RemoteCalls.Proofs.Outline.Constructs
import RemoteCalls.Proofs.Token.Nesting

/-!
# The notes of bodies

What stands in the body of a declaration: a function has the marker statements between its braces,
and a structure those among its members. A body makes notes of them in the order in which they are
written, and of equal ones only once. The arguments of such a note are written in the body.
-/

namespace RemoteCalls

namespace Note

/-- The notes of the marker statements in a function body, as often as they are written. `fresh`
says that a statement can begin here; the first `skip` lexemes belong to a statement that is read
already. -/
def statements (rules : NoteRules) : (fresh : Bool) → (skip : Nat) → List Lexeme → List Note
  | _, _, [] => []
  | _, skip + 1, lexeme :: rest => statements rules (beginsStatement lexeme.token) skip rest
  | fresh, 0, lexeme :: rest =>
    match if fresh then statement? rules (lexeme :: rest) else none with
    | some (note, taken) => note.toList ++ statements rules false taken rest
    | none => statements rules (beginsStatement lexeme.token) 0 rest

/-- The notes of a body are those of its marker statements, each once. -/
theorem ofBody_eq (rules : NoteRules) (fresh : Bool) (skip : Nat) (found : List Note)
    (row : List Lexeme) :
    ofBody rules fresh skip found row = union found (statements rules fresh skip row) := by
  induction row generalizing fresh skip found with
  | nil => cases skip <;> rfl
  | cons lexeme rest ih =>
    cases skip with
    | succ skip => exact ih _ _ _
    | zero =>
      unfold ofBody statements
      cases if fresh then statement? rules (lexeme :: rest) else none with
      | none => exact ih _ _ _
      | some read =>
        rw [union_append]
        exact ih _ _ _

/-- The arguments of a note are those of a part of some lexemes. -/
def WrittenIn (lexemes : List Lexeme) (a : Note) : Prop :=
  ∃ part, part <:+: lexemes ∧ a.arguments = Lexeme.arguments part

theorem WrittenIn.mono {part lexemes : List Lexeme} {a : Note} (h : a.WrittenIn part)
    (hpart : part <:+: lexemes) : a.WrittenIn lexemes := by
  obtain ⟨inner, hinner, harguments⟩ := h
  exact ⟨inner, hinner.trans hpart, harguments⟩

theorem of?_eq_some {name : String} {arguments : List String} {a : Note}
    (h : of? name arguments = some a) : a.name = name ∧ a.arguments = arguments := by
  unfold of? at h
  split at h
  · cases h
    exact ⟨rfl, rfl⟩
  · cases h

/-- A note without arguments is written anywhere. -/
theorem writtenIn_of_nil {name : String} {a : Note} (h : of? name [] = some a)
    (lexemes : List Lexeme) : a.WrittenIn lexemes :=
  ⟨[], List.nil_infix, (of?_eq_some h).2⟩

/-- The note of a marker is written between its parentheses. -/
theorem writtenIn_ofMarker {marker : String} {inner : List Lexeme} {a : Note}
    (h : ofMarker marker inner = some a) : a.WrittenIn inner := by
  have hwhole : of? marker (Lexeme.arguments inner) = some a → a.WrittenIn inner :=
    fun h => ⟨inner, List.infix_refl inner, (of?_eq_some h).2⟩
  unfold ofMarker at h
  split at h
  · next rest =>
    dsimp only at h
    split at h
    · refine ⟨rest.dropLast, ?_, (of?_eq_some h).2⟩
      refine (List.dropLast_prefix rest).isInfix.trans ?_
      exact ((List.suffix_cons _ rest).trans (List.suffix_cons _ _)).isInfix
    · exact hwhole h
  · exact hwhole h

end Note

namespace Reader

/-- The members of a structure with the brace behind them are in front of some lexemes, and the
notes are those of the marker statements among the members, as often as they are written. -/
inductive Members (setting : Setting) : List Lexeme → List Note → Prop
  | close {lexemes : List Lexeme} (hfront : headToken lexemes = .closeBrace) :
      Members setting lexemes []
  | semicolon {lexemes : List Lexeme} {notes : List Note} (hfront : headToken lexemes = .semicolon)
      (hrest : Members setting lexemes.tail notes) : Members setting lexemes notes
  | marker {cursor next : Cursor} {note : Option Note} {notes : List Note}
      (hfront : beginsMarker setting.rules (headToken cursor.rest)
        (headToken cursor.rest.tail) = true)
      (hread : Reader.marker setting cursor = .ok (note, next))
      (hrest : Members setting next.rest notes) :
      Members setting cursor.rest (note.toList ++ notes)
  | member {cursor next : Cursor} {steps : Nat} {s t : Structure} {notes : List Note}
      (hfront : beginsMarker setting.rules (headToken cursor.rest)
        (headToken cursor.rest.tail) = false)
      (hread : Reader.member steps s setting cursor = .ok (t, next))
      (hrest : Members setting next.rest notes) : Members setting cursor.rest notes

end Reader

/-- The body of a structure is among some lexemes: the keyword at the place of the structure, then
its tag, and then the members, whose marker statements have the given notes. -/
inductive Structure.BodyIn (setting : Setting) (lexemes : List Lexeme) (s : Structure) :
    List Note → Prop
  | intro {keyword : Lexeme} {steps : Nat} {name : Option String} {cursor next : Cursor}
      {notes : List Note} (hdefined : s.isDefined = true)
      (hlexemes : keyword :: cursor.rest <:+ lexemes) (hkeyword : keyword.token = .struct)
      (hplace : s.place = setting.place keyword.position)
      (htag : Reader.tagName steps setting cursor = .ok (name, next))
      (hbrace : Reader.headToken next.rest = .openBrace)
      (hmembers : Reader.Members setting next.rest.tail notes) : BodyIn setting lexemes s notes

/-- `BodyNotes setting lexemes behind d notes`: a declaration that takes lexemes off the front, up
to those behind, declares `d`, and the notes are those of the marker statements in the body of `d`,
as often as they are written. -/
inductive Declaration.BodyNotes (setting : Setting) (lexemes behind : List Lexeme) :
    Declaration → List Note → Prop
  | prototype {f : Function} (hprototype : f.isDefined = false) :
      BodyNotes setting lexemes behind (.function f) []
  | function {f : Function} {front inner : List Lexeme} {brace closer : Lexeme}
      (hdefined : f.isDefined = true)
      (hlexemes : lexemes = front ++ brace :: inner ++ closer :: behind)
      (hbrace : brace.token = .openBrace) (hcloser : closer.token.isCloser = true)
      (hinner : Token.Balanced (Lexeme.tokens inner)) :
      BodyNotes setting lexemes behind (.function f) (Note.statements setting.rules true 0 inner)
  | named {s : Structure} (hnamed : s.isDefined = false) :
      BodyNotes setting lexemes behind (.struct s) []
  | struct {s : Structure} {notes : List Note} (hbody : s.BodyIn setting lexemes notes) :
      BodyNotes setting lexemes behind (.struct s) notes
  | typedef {t : Typedef} : BodyNotes setting lexemes behind (.typedef t) []
  | variable {v : Variable} : BodyNotes setting lexemes behind (.variable v) []

/-- The notes of a declaration. A placeholder has none; it is one. -/
def Declaration.notes : Declaration → List Note
  | function f => f.notes
  | struct s => s.notes
  | typedef t => t.notes
  | «variable» v => v.notes
  | placeholder _ => []

/-- A structure has the notes of its body, each once, and they are written there. -/
def Structure.Annotated (setting : Setting) (lexemes : List Lexeme) (s : Structure) : Prop :=
  ∃ notes, s.BodyIn setting lexemes notes ∧ s.notes = Note.union [] notes ∧
    ∀ a ∈ s.notes, a.WrittenIn lexemes

/-- So has the structure that a tag brings. -/
def TagUse.Annotated (setting : Setting) (lexemes : List Lexeme) : TagUse → Prop
  | .anonymous s => s.Annotated setting lexemes
  | _ => True

namespace Reader

variable {α β : Type} {setting : Setting} {lexemes : List Lexeme}

/-- The note of a marker statement is written in it. -/
theorem writtenIn_of_marker {cursor next : Cursor} {a : Note}
    (h : marker setting cursor = .ok (some a, next)) : a.WrittenIn cursor.rest := by
  unfold marker at h
  obtain ⟨note, _, hnote, hend⟩ := bind_eq_ok.mp h
  obtain ⟨_, _, -, hgiven⟩ := bind_eq_ok.mp hend
  cases hgiven
  unfold markerNote at hnote
  obtain ⟨name, _, hname, hcall⟩ := bind_eq_ok.mp hnote
  cases hname
  obtain ⟨call, _, hahead, hrest⟩ := bind_eq_ok.mp hcall
  cases hahead
  split at hrest
  · obtain ⟨_, _, hadvance, hread⟩ := bind_eq_ok.mp hrest
    cases hadvance
    obtain ⟨inner, _, hgroup, hmarker⟩ := bind_eq_ok.mp hread
    obtain ⟨behind, hsplit, rfl⟩ := group_eq_ok hgroup
    obtain ⟨closer, -, hrow⟩ := Lexeme.splitGroup_eq_some hsplit
    have hinner : inner <:+: cursor.rest.tail.tail :=
      ⟨[], closer :: behind, by rw [hrow, List.nil_append]⟩
    have hgiven : Note.ofMarker (headToken cursor.rest).text inner = some a :=
      congrArg Prod.fst (Except.ok.inj hmarker)
    exact (Note.writtenIn_ofMarker hgiven).mono (hinner.trans
      ((List.tail_suffix _).trans (List.tail_suffix _)).isInfix)
  · obtain ⟨_, _, hadvance, hmarker⟩ := bind_eq_ok.mp hrest
    cases hadvance
    exact Note.writtenIn_of_nil (congrArg Prod.fst (Except.ok.inj hmarker)) _

/-! ### Members -/

/-- The declarators of a member add fields to the structure and nothing else. -/
theorem eq_of_memberDeclarators {steps : Nat} {base : CType} {s t : Structure}
    {cursor next : Cursor} (h : memberDeclarators steps base s setting cursor = .ok (t, next)) :
    ∃ fields, t = { s with fields := fields } := by
  induction steps generalizing s cursor with
  | zero => exact nomatch h
  | succ steps ih =>
    have hadd : ∀ name type width, ∃ fields,
        s.addMember name type width = { s with fields := fields } := by
      intro name type width
      cases name <;> exact ⟨_, rfl⟩
    unfold memberDeclarators at h
    obtain ⟨⟨name, type⟩, _, -, h⟩ := bind_eq_ok.mp h
    obtain ⟨width, _, -, h⟩ := bind_eq_ok.mp h
    obtain ⟨_, _, -, h⟩ := bind_eq_ok.mp h
    obtain ⟨more, _, -, h⟩ := bind_eq_ok.mp h
    obtain ⟨fields, hfields⟩ := hadd name type width
    cases more with
    | true =>
      obtain ⟨others, rfl⟩ := ih h
      exact ⟨others, by rw [hfields]⟩
    | false =>
      obtain ⟨_, _, -, h⟩ := bind_eq_ok.mp h
      cases h
      exact ⟨fields, hfields⟩

/-- A member adds fields to its structure and nothing else. -/
theorem eq_of_member {steps : Nat} {s t : Structure} {cursor next : Cursor}
    (h : member steps s setting cursor = .ok (t, next)) :
    ∃ fields, t = { s with fields := fields } := by
  cases steps with
  | zero => exact nomatch h
  | succ steps =>
    unfold member at h
    obtain ⟨specifiers, _, -, h⟩ := bind_eq_ok.mp h
    obtain ⟨ended, _, -, h⟩ := bind_eq_ok.mp h
    cases ended with
    | false => exact eq_of_memberDeclarators h
    | true =>
      obtain ⟨storage, isTypedef, type, tag⟩ := specifiers
      cases tag <;> cases h <;> exact ⟨_, rfl⟩

/-- The brace, the semicolon or whatever else is in front is taken. -/
theorem accept_eq_ok {wanted : Token} {cursor next : Cursor} {taken : Bool}
    (h : accept wanted setting cursor = .ok (taken, next)) :
    (taken = true ∧ headToken cursor.rest = wanted ∧
        next = { cursor with rest := cursor.rest.tail }) ∨
      (taken = false ∧ headToken cursor.rest ≠ wanted ∧ cursor = next) := by
  rw [accept_apply] at h
  split at h
  · next hhead =>
    cases h
    exact .inl ⟨rfl, hhead, rfl⟩
  · next hhead =>
    cases h
    exact .inr ⟨rfl, hhead, rfl⟩

/-- The members of a structure add to its notes those of the marker statements among them, and leave
its place and its name as they are. -/
theorem members_eq_ok {steps : Nat} {opened : Position} {s t : Structure} {cursor next : Cursor}
    (h : members steps opened s setting cursor = .ok (t, next)) :
    ∃ notes, Members setting cursor.rest notes ∧ t.notes = Note.union s.notes notes ∧
      t.place = s.place ∧ t.isDefined = s.isDefined ∧ t.name = s.name := by
  induction steps generalizing s cursor with
  | zero => exact nomatch h
  | succ steps ih =>
    unfold members at h
    obtain ⟨closed, _, haccept, hopen⟩ := bind_eq_ok.mp h
    rcases accept_eq_ok haccept with ⟨rfl, hbrace, rfl⟩ | ⟨rfl, -, rfl⟩
    · cases hopen
      exact ⟨[], .close hbrace, (Note.union_nil _).symm, rfl, rfl, rfl⟩
    rw [if_neg Bool.false_ne_true] at hopen
    obtain ⟨t, _, htoken, hinside⟩ := bind_eq_ok.mp hopen
    cases htoken
    split at hinside
    · cases hinside
    obtain ⟨ended, _, haccept, hmember⟩ := bind_eq_ok.mp hinside
    rcases accept_eq_ok haccept with ⟨rfl, hsemicolon, rfl⟩ | ⟨rfl, -, rfl⟩
    · obtain ⟨notes, hmembers, hnotes⟩ := ih hmember
      exact ⟨notes, .semicolon hsemicolon hmembers, hnotes⟩
    rw [if_neg Bool.false_ne_true] at hmember
    obtain ⟨isMarker, _, hmarker, hread⟩ := bind_eq_ok.mp hmember
    cases hmarker
    cases hfront : beginsMarker setting.rules (headToken cursor.rest)
        (headToken cursor.rest.tail) with
    | true =>
      rw [hfront, if_pos rfl] at hread
      obtain ⟨note, behind, hnote, hrest⟩ := bind_eq_ok.mp hread
      obtain ⟨notes, hmembers, hnotes, hsame⟩ := ih hrest
      refine ⟨note.toList ++ notes, .marker hfront hnote hmembers, ?_, hsame⟩
      rw [hnotes, Note.union_append]
    | false =>
      rw [hfront, if_neg Bool.false_ne_true] at hread
      obtain ⟨t, behind, hone, hrest⟩ := bind_eq_ok.mp hread
      obtain ⟨notes, hmembers, hnotes, hsame⟩ := ih hrest
      obtain ⟨fields, rfl⟩ := eq_of_member hone
      exact ⟨notes, .member hfront hone hmembers, hnotes, hsame⟩

end Reader

end RemoteCalls
