import Mathlib.Data.List.Nodup
import RemoteCalls.Proofs.Outline.Definitions
import RemoteCalls.Proofs.Remote.Directions
import RemoteCalls.Proofs.Remote.Written

/-!
# Spellings of directives

The directives of a function are written in front of it, behind an at sign and a marker, in a comment
or outside, or in its body, in one marker statement or in several, wherever a statement can stand. The
function is the same remote function in each spelling, if no other note on it repeats one of the
directives: of equal notes only the first counts, and directives that are written alike do not always
become equal notes.
-/

namespace RemoteCalls

/-! ## Notes that bring directives -/

namespace Note

/-- Some notes bring directives: these are theirs in order, and each note has one. -/
structure Bring (notes : List Note) (directives : List Directive) : Prop where
  directives_eq : notes.flatMap Directive.ofNote = directives
  ne_nil : ∀ note ∈ notes, Directive.ofNote note ≠ []

variable {notes others : List Note} {directives : List Directive}

theorem bring_singleton {note : Note} (h : Directive.ofNote note = directives)
    (hne : directives ≠ []) : Bring [note] directives := by
  subst h
  exact ⟨List.flatMap_singleton .., by simpa using hne⟩

theorem Bring.cons {note : Note} {own : List Directive} (h : Bring notes directives)
    (hnote : Directive.ofNote note = own) (hne : own ≠ []) :
    Bring (note :: notes) (own ++ directives) := by
  subst hnote
  refine ⟨?_, List.forall_mem_cons.mpr ⟨hne, h.ne_nil⟩⟩
  rw [List.flatMap_cons, h.directives_eq]

/-- Notes that bring no directive twice are there once. -/
theorem Bring.nodup (h : Bring notes directives) (hnodup : directives.Nodup) : notes.Nodup := by
  rw [← h.directives_eq, List.nodup_flatMap] at hnodup
  refine hnodup.2.imp_of_mem ?_
  rintro note other hnote - hdisjoint rfl
  obtain ⟨directive, hdirective⟩ := List.exists_mem_of_ne_nil _ (h.ne_nil note hnote)
  exact hdisjoint hdirective hdirective

/-- They are not among notes that bring none of the directives. -/
theorem Bring.not_mem (h : Bring notes directives)
    (hothers : ∀ other ∈ others, ∀ directive ∈ directives, directive ∉ Directive.ofNote other) :
    ∀ note ∈ notes, note ∉ others := by
  intro note hnote hmem
  obtain ⟨directive, hdirective⟩ := List.exists_mem_of_ne_nil _ (h.ne_nil note hnote)
  refine hothers note hmem directive ?_ hdirective
  rw [← h.directives_eq]
  exact List.mem_flatMap.mpr ⟨note, hnote, hdirective⟩

/-- New notes that are there once come behind the others. -/
theorem union_of_new {into new : List Note} (hnodup : new.Nodup) (hnew : ∀ note ∈ new, note ∉ into) :
    union into new = into ++ new := by
  induction new generalizing into with
  | nil => exact (List.append_nil into).symm
  | cons note new ih =>
    obtain ⟨hnote, hrest⟩ := List.forall_mem_cons.mp hnew
    obtain ⟨hfirst, hnodup⟩ := List.nodup_cons.mp hnodup
    have hbehind : ∀ other ∈ new, other ∉ into ++ [note] := by
      intro other hother hmem
      rcases List.mem_append.mp hmem with hmem | hmem
      · exact hrest other hother hmem
      · obtain rfl := List.mem_singleton.mp hmem
        exact hfirst hother
    rw [union_cons, show insert into note = into ++ [note] from if_neg hnote, ih hnodup hbehind]
    simp

/-- The directives of notes that are put between others, which do not repeat them. -/
theorem Bring.flatMap_union (h : Bring notes directives) {attached body : List Note}
    (hbody : ∀ note ∈ body, ∀ directive ∈ directives, directive ∉ Directive.ofNote note) :
    (union (attached ++ notes) body).flatMap Directive.ofNote =
      attached.flatMap Directive.ofNote ++ directives ++
        (body.removeAll attached).eraseDups.flatMap Directive.ofNote := by
  have hsame : body.removeAll (attached ++ notes) = body.removeAll attached := by
    refine List.filter_congr fun note hnote => ?_
    have hother : note ∉ notes := fun hmem => h.not_mem hbody note hmem hnote
    simp [hother]
  rw [union_eq_append, hsame, List.flatMap_append, List.flatMap_append, h.directives_eq]

/-- The notes that bring directives, among some notes. -/
def bringing (notes : List Note) : List Note :=
  notes.filter fun note => Directive.ofNote note ≠ []

@[simp] theorem bringing_append (front behind : List Note) :
    bringing (front ++ behind) = bringing front ++ bringing behind :=
  List.filter_append ..

theorem bringing_eq_nil (h : ∀ note ∈ notes, Directive.ofNote note = []) : bringing notes = [] :=
  List.filter_eq_nil_iff.mpr fun note hnote => by simp [h note hnote]

theorem Bring.bringing_eq (h : Bring notes directives) : bringing notes = notes :=
  List.filter_eq_self.mpr fun note hnote => decide_eq_true (h.ne_nil note hnote)

theorem mem_of_mem_bringing {note : Note} (h : note ∈ bringing notes) : note ∈ notes :=
  List.mem_of_mem_filter h

/-- The other notes make no difference to the directives. -/
theorem flatMap_bringing (notes : List Note) :
    (bringing notes).flatMap Directive.ofNote = notes.flatMap Directive.ofNote := by
  induction notes with
  | nil => rfl
  | cons note rest ih =>
    by_cases h : Directive.ofNote note = []
    · have hrest : bringing (note :: rest) = bringing rest :=
        List.filter_cons_of_neg (by simpa using h)
      rw [hrest, ih, List.flatMap_cons, h, List.nil_append]
    · have hrest : bringing (note :: rest) = note :: bringing rest :=
        List.filter_cons_of_pos (by simpa using h)
      rw [hrest, List.flatMap_cons, List.flatMap_cons, ih]

theorem bringing_insert_of_nil {into : List Note} {note : Note}
    (h : Directive.ofNote note = []) : bringing (insert into note) = bringing into := by
  by_cases hmem : note ∈ into
  · rw [insert, if_pos hmem]
  · rw [insert, if_neg hmem, bringing_append, bringing_eq_nil (List.forall_mem_singleton.mpr h),
      List.append_nil]

theorem bringing_insert_of_ne_nil {into : List Note} {note : Note}
    (h : Directive.ofNote note ≠ []) :
    bringing (insert into note) = insert (bringing into) note := by
  have hiff : note ∈ bringing into ↔ note ∈ into := by simp [bringing, h]
  by_cases hmem : note ∈ into
  · rw [insert, insert, if_pos hmem, if_pos (hiff.mpr hmem)]
  · rw [insert, insert, if_neg hmem, if_neg (mt hiff.mp hmem), bringing_append,
      (bring_singleton rfl h).bringing_eq]

/-- What a union brings depends on those notes alone that bring directives. -/
theorem bringing_union (into new : List Note) :
    bringing (union into new) = union (bringing into) (bringing new) := by
  induction new generalizing into with
  | nil => rfl
  | cons note new ih =>
    rw [union_cons, ih]
    by_cases hnote : Directive.ofNote note = []
    · have hnew : bringing (note :: new) = bringing new :=
        List.filter_cons_of_neg (by simpa using hnote)
      rw [bringing_insert_of_nil hnote, hnew]
    · have hnew : bringing (note :: new) = note :: bringing new :=
        List.filter_cons_of_pos (by simpa using hnote)
      rw [bringing_insert_of_ne_nil hnote, hnew, union_cons]

end Note

/-! ## Spellings -/

/-- Directives that can be written behind a marker, each once: their arguments are names, and the
marker is no directive. -/
structure Directive.Writable (rules : NoteRules) (marker : String) (directives : List Directive) :
    Prop where
  isMarker : rules.isMarker marker = true
  isIdentifier : Configuration.isIdentifier marker = true
  other : DirectiveKind.of? marker = none
  ne_nil : directives ≠ []
  nodup : directives.Nodup
  names : ∀ directive ∈ directives, directive.TakesNames

/-- The tokens of some directives behind an at sign and a marker. -/
def Note.attributeTokens (marker : String) (directives : List Directive) : List Token :=
  .atSign :: .identifier marker :: .openParen :: (Directive.listed directives ++ [.closeParen])

/-- A row of lexemes is taken in one step, wherever it stands at file scope, and leaves a note
waiting. -/
def Outline.LeavesNote (setting : Setting) (row : List Lexeme) (note : Note) : Prop :=
  ∃ position trivia, ∀ behind waiting linkage,
    Outline.step setting ⟨row ++ behind, waiting, linkage⟩ =
      ([], ⟨behind, PendingNote.absorb setting.rules waiting trivia ++ [⟨note, position, false⟩],
        linkage⟩)

/-- `Directive.InFront rules marker directives note`: the note is that of a marker with the directives
behind an at sign, which is written in front of a declaration, in a comment or outside. -/
inductive Directive.InFront (rules : NoteRules) (marker : String) (directives : List Directive)
    (note : Note) : Prop
  | outside {setting : Setting} {row : List Lexeme} (hrules : setting.rules = rules)
      (hrow : Lexeme.tokens row = Note.attributeTokens marker directives)
      (hleaves : Outline.LeavesNote setting row note) : InFront rules marker directives note
  | comment {arguments before after : String} {lexed : Lexed}
      (htext : ArgumentText arguments lexed)
      (htokens : Lexeme.tokens lexed.lexemes = listed directives) (hname : note.name = marker)
      (harguments : note.arguments = Lexeme.arguments lexed.lexemes)
      (hbrings : Outline.CommentBrings rules (before ++ noteText marker arguments ++ after) note) :
      InFront rules marker directives note

/-- `Directive.Inserted rules marker groups body inner`: the lexemes `inner` are those of `body` with
marker statements put in, one for each group of directives and in their order. A statement can begin
where one is put in, and no note in front of it brings directives. -/
inductive Directive.Inserted (rules : NoteRules) (marker : String) :
    List (List Directive) → List Lexeme → List Lexeme → Prop
  | nil {body inner : List Lexeme} (hinner : Lexeme.Alike body inner) :
      Inserted rules marker [] body inner
  | cons {group : List Directive} {groups : List (List Directive)}
      {front front' row body inner : List Lexeme} (hends : Note.EndsStatement front)
      (hfront : ∀ note ∈ Note.statements rules true 0 front, Directive.ofNote note = [])
      (halike : Lexeme.Alike front front')
      (hrow : Lexeme.tokens row = Note.statementTokens marker group)
      (hrest : Inserted rules marker groups body inner) :
      Inserted rules marker (group :: groups) (front ++ body) (front' ++ (row ++ inner))

/-- A function with some directives, in one of their spellings: in front of it, in one statement of
its body, or in one statement for each. Without them it has the notes `attached` in front of it, and
its body is `body`. -/
inductive Function.Spelled (rules : NoteRules) (marker : String) (directives : List Directive)
    (attached : List Note) (body : List Lexeme) (f : Function) : Prop
  | inFront {inner : List Lexeme} {note : Note} {before behind : List Note}
      (hnote : Directive.InFront rules marker directives note) (hattached : attached = before ++ behind)
      (hbehind : ∀ note ∈ behind, Directive.ofNote note = []) (hinner : Lexeme.Alike body inner)
      (hdefined : f.DefinedWith rules (before ++ note :: behind) inner) :
      Spelled rules marker directives attached body f
  | statement {inner : List Lexeme} (hinner : Directive.Inserted rules marker [directives] body inner)
      (hdefined : f.DefinedWith rules attached inner) :
      Spelled rules marker directives attached body f
  | statements {inner : List Lexeme}
      (hinner : Directive.Inserted rules marker (directives.map fun directive => [directive]) body
        inner)
      (hdefined : f.DefinedWith rules attached inner) :
      Spelled rules marker directives attached body f

namespace Directive.Writable

variable {rules : NoteRules} {marker : String} {directives : List Directive} {row : List Lexeme}

/-- Directives in front of a declaration leave a note waiting that brings them. -/
theorem exists_leavesNote (h : Writable rules marker directives) {setting : Setting}
    (hrules : setting.rules = rules)
    (hrow : Lexeme.tokens row = Note.attributeTokens marker directives) :
    ∃ note, Outline.LeavesNote setting row note ∧ Directive.ofNote note = directives := by
  obtain ⟨sign, _, rfl, hsign, hcall⟩ := List.map_eq_cons_iff.mp hrow
  obtain ⟨word, opener, inner, closer, none, rfl, hword, hopener, hinner, hcloser, hnone⟩ :=
    Lexeme.exists_call hcall
  obtain rfl : none = [] := List.map_eq_nil_iff.mp hnone
  obtain ⟨note, hnote, hbrings⟩ :=
    Note.exists_of?_listed h.isIdentifier h.other h.ne_nil h.names hinner
  have hbalanced : Token.Balanced (Lexeme.tokens inner) := by
    rw [hinner]
    exact (nested_listed directives).balanced
  refine ⟨note, ⟨sign.position, sign.trivia, fun behind waiting linkage => ?_⟩, hbrings⟩
  have hmarker : setting.rules.isMarker marker = true := hrules ▸ h.isMarker
  have hstep := Outline.step_of_noteRow hsign hword hopener hcloser hbalanced hmarker hnote behind
    waiting linkage
  simpa using hstep

/-- A note that directives in front of a declaration leave waiting brings them. -/
theorem ofNote_of_leavesNote (h : Writable rules marker directives) {setting : Setting}
    (hrules : setting.rules = rules)
    (hrow : Lexeme.tokens row = Note.attributeTokens marker directives) {note : Note}
    (hleaves : Outline.LeavesNote setting row note) : Directive.ofNote note = directives := by
  obtain ⟨other, ⟨position', trivia', hother⟩, hbrings⟩ := h.exists_leavesNote hrules hrow
  obtain ⟨position, trivia, hstep⟩ := hleaves
  have hpending := congrArg (fun next => next.2.pending.getLast?)
    ((hstep [] [] 0).symm.trans (hother [] [] 0))
  have hsame : note = other ∧ position = position' := by simpa using hpending
  rw [hsame.1, hbrings]

/-- So does every note that is written in front of a declaration with them. -/
theorem ofNote_of_inFront (h : Writable rules marker directives) {note : Note}
    (hnote : InFront rules marker directives note) : Directive.ofNote note = directives := by
  cases hnote with
  | outside hrules hrow hleaves => exact h.ofNote_of_leavesNote hrules hrow hleaves
  | comment htext htokens hname harguments hbrings =>
    rw [Directive.ofNote, hname, h.other, harguments]
    exact filterMap_arguments h.ne_nil h.names htokens

/-- A statement with all directives brings them in front of the notes of the body. -/
theorem exists_statement (h : Writable rules marker directives)
    (hrow : Lexeme.tokens row = Note.statementTokens marker directives) (body : List Lexeme) :
    ∃ note, Note.statements rules true 0 (row ++ body) = note :: Note.statements rules true 0 body ∧
      Directive.ofNote note = directives := by
  obtain ⟨inner, hinner, hstatements⟩ := Note.statements_of_statement h.isMarker hrow body
  obtain ⟨note, hnote, hbrings⟩ :=
    Note.exists_ofMarker_listed h.isIdentifier h.other h.ne_nil h.names hinner
  rw [hnote] at hstatements
  exact ⟨note, hstatements, hbrings⟩

theorem singleton (h : Writable rules marker directives) {directive : Directive}
    (hdirective : directive ∈ directives) : Writable rules marker [directive] :=
  ⟨h.isMarker, h.isIdentifier, h.other, List.cons_ne_nil directive [], List.nodup_singleton directive,
    fun _ hmem => h.names _ (List.mem_singleton.mp hmem ▸ hdirective)⟩

end Directive.Writable

/-- Statements that are put in a body bring their directives in front of those of the body. -/
theorem Directive.Inserted.exists_notes {rules : NoteRules} {marker : String}
    {groups : List (List Directive)} {body inner : List Lexeme}
    (h : Inserted rules marker groups body inner)
    (hgroups : ∀ group ∈ groups, Writable rules marker group) :
    ∃ notes, Note.Bring notes groups.flatten ∧
      Note.bringing (Note.statements rules true 0 inner) =
        notes ++ Note.bringing (Note.statements rules true 0 body) := by
  induction h with
  | nil hinner => exact ⟨[], ⟨rfl, nofun⟩, by rw [Note.statements_of_alike hinner, List.nil_append]⟩
  | @cons group groups front front' row body inner hends hfront halike hrow hrest ih =>
    obtain ⟨hgroup, hothers⟩ := List.forall_mem_cons.mp hgroups
    obtain ⟨notes, hbring, hnotes⟩ := ih hothers
    obtain ⟨note, hnote, hbrings⟩ := hgroup.exists_statement hrow inner
    refine ⟨note :: notes, hbring.cons hbrings hgroup.ne_nil, ?_⟩
    have hsingle : Note.bringing [note] = [note] :=
      (Note.bring_singleton hbrings hgroup.ne_nil).bringing_eq
    calc Note.bringing (Note.statements rules true 0 (front' ++ (row ++ inner)))
      _ = Note.bringing (Note.statements rules true 0 front ++
            ([note] ++ Note.statements rules true 0 inner)) := by
          rw [Note.statements_append (hends.of_alike halike), Note.statements_of_alike halike.symm,
            hnote, List.singleton_append]
      _ = [note] ++ (notes ++ Note.bringing (Note.statements rules true 0 body)) := by
          rw [Note.bringing_append, Note.bringing_append, Note.bringing_eq_nil hfront, hsingle, hnotes,
            List.nil_append]
      _ = note :: notes ++ Note.bringing (Note.statements rules true 0 (front ++ body)) := by
          rw [Note.statements_append hends, Note.bringing_append, Note.bringing_eq_nil hfront]
          simp

namespace Function.Spelled

variable {rules : NoteRules} {marker : String} {directives : List Directive} {attached : List Note}
  {body inner : List Lexeme} {f : Function}

/-- Directives in the body of a function are brought by notes behind those in front of it. -/
theorem exists_notes_of_inserted {groups : List (List Directive)}
    (hinner : Directive.Inserted rules marker groups body inner)
    (hgroups : ∀ group ∈ groups, Directive.Writable rules marker group)
    (hnodup : groups.flatten.Nodup) (hdefined : f.DefinedWith rules attached inner)
    (hattached : ∀ note ∈ attached, ∀ directive ∈ groups.flatten,
      directive ∉ Directive.ofNote note) :
    ∃ notes, Note.Bring notes groups.flatten ∧ Note.bringing f.notes =
      Note.union (Note.bringing attached ++ notes)
        (Note.bringing (Note.statements rules true 0 body)) := by
  obtain ⟨notes, hbring, hnotes⟩ := hinner.exists_notes hgroups
  have hothers : ∀ note ∈ Note.bringing attached, ∀ directive ∈ groups.flatten,
      directive ∉ Directive.ofNote note :=
    fun note hnote => hattached note (Note.mem_of_mem_bringing hnote)
  refine ⟨notes, hbring, ?_⟩
  rw [hdefined.notes_eq, Note.bringing_union, hnotes, Note.union_append,
    Note.union_of_new (hbring.nodup hnodup) (hbring.not_mem hothers)]

/-- In each spelling the directives are brought by notes behind those in front of the function and in
front of those of the body. -/
theorem exists_notes (hf : f.Spelled rules marker directives attached body)
    (h : Directive.Writable rules marker directives)
    (hattached : ∀ note ∈ attached, ∀ directive ∈ directives, directive ∉ Directive.ofNote note) :
    ∃ notes, Note.Bring notes directives ∧ Note.bringing f.notes =
      Note.union (Note.bringing attached ++ notes)
        (Note.bringing (Note.statements rules true 0 body)) := by
  cases hf with
  | @inFront inner note before behind hnote hsplit hbehind hinner hdefined =>
    have hbring := Note.bring_singleton (h.ofNote_of_inFront hnote) h.ne_nil
    refine ⟨[note], hbring, ?_⟩
    rw [hdefined.notes_eq, Note.bringing_union, Note.statements_of_alike hinner, hsplit,
      List.append_cons]
    simp only [Note.bringing_append, Note.bringing_eq_nil hbehind, hbring.bringing_eq,
      List.append_nil]
  | statement hinner hdefined =>
    have hflatten : [directives].flatten = directives := List.flatten_singleton
    have hnotes := exists_notes_of_inserted hinner (List.forall_mem_singleton.mpr h)
      (hflatten.symm ▸ h.nodup) hdefined (hflatten.symm ▸ hattached)
    rwa [hflatten] at hnotes
  | statements hinner hdefined =>
    have hflatten : (directives.map fun directive => [directive]).flatten = directives := by
      rw [← List.flatMap_def, List.flatMap_singleton']
    have hnotes := exists_notes_of_inserted hinner
      (List.forall_mem_map.mpr fun _ => h.singleton) (hflatten.symm ▸ h.nodup) hdefined
      (hflatten.symm ▸ hattached)
    rwa [hflatten] at hnotes

/-- In each spelling the function has the directives in front of it, those that are written, and those
of its body. -/
theorem directives_eq (hf : f.Spelled rules marker directives attached body)
    (h : Directive.Writable rules marker directives)
    (hothers : ∀ note ∈ attached ++ Note.statements rules true 0 body,
      ∀ directive ∈ directives, directive ∉ Directive.ofNote note) :
    f.directives = attached.flatMap Directive.ofNote ++ directives ++
      ((Note.bringing (Note.statements rules true 0 body)).removeAll
        (Note.bringing attached)).eraseDups.flatMap Directive.ofNote := by
  obtain ⟨hattached, hbody⟩ := List.forall_mem_append.mp hothers
  obtain ⟨notes, hbring, hnotes⟩ := hf.exists_notes h hattached
  rw [Function.directives, ← Note.flatMap_bringing, hnotes,
    hbring.flatMap_union fun note hnote => hbody note (Note.mem_of_mem_bringing hnote),
    Note.flatMap_bringing]

end Function.Spelled

namespace RemoteFunction

/-- What remote function a function is depends on its prototype and its directives. -/
theorem ofFunction_congr {f g : Function} (hsame : f.Same g)
    (hdirectives : f.directives = g.directives) : ofFunction f = ofFunction g := by
  have hnotes : f.notes.flatMap Directive.ofNote = g.notes.flatMap Directive.ofNote := hdirectives
  simp only [ofFunction, hsame.name, hsame.result, hsame.params, hnotes]

/-- The spelling of directives makes no difference: a function with some directives in front of it, in
one statement of its body, or in one for each, is the same remote function, or fails for the same
reason. The function may have other directives as well, if no other note on it brings one of these. -/
theorem ofFunction_of_spelled {rules : NoteRules} {marker : String} {directives : List Directive}
    {attached : List Note} {body : List Lexeme} {f g : Function}
    (h : Directive.Writable rules marker directives)
    (hothers : ∀ note ∈ attached ++ Note.statements rules true 0 body,
      ∀ directive ∈ directives, directive ∉ Directive.ofNote note)
    (hf : f.Spelled rules marker directives attached body)
    (hg : g.Spelled rules marker directives attached body) (hsame : f.Same g) :
    ofFunction f = ofFunction g :=
  ofFunction_congr hsame ((hf.directives_eq h hothers).trans (hg.directives_eq h hothers).symm)

/-- An output and an event, in front of the function and in two statements of its body, of which the
second one stands behind a call. The body has a statement on a string as well. -/
theorem ofFunction_of_spelled_of_event :
    let rules : NoteRules := ⟨["rpc"], .attach⟩
    let directives : List Directive := [⟨.output, ["a"]⟩, ⟨.event, []⟩]
    let lexeme (token : Token) (column : Nat) : Lexeme := ⟨token, ⟨2, column⟩, []⟩
    let call : List Lexeme := [lexeme (.identifier "run") 35, lexeme .openParen 38,
      lexeme .closeParen 39, lexeme .semicolon 40]
    let string : List Lexeme := [lexeme (.identifier "rpc") 54, lexeme .openParen 57,
      lexeme (.identifier "STR") 58, lexeme .openParen 61, lexeme (.identifier "a") 62,
      lexeme .closeParen 63, lexeme .closeParen 64, lexeme .semicolon 65]
    let body := call ++ string
    let put : Function := ⟨"put", .base (.builtin "void") .plain,
      ⟨[⟨some "a", .base (.builtin "char") ⟨false, false, 1, []⟩⟩], false⟩,
      .empty, .input, ⟨⟨"api.c"⟩, ⟨2, 1⟩⟩, true, some ⟨⟨"api.c"⟩, ⟨2, 1⟩⟩, []⟩
    Directive.Writable rules "rpc" directives ∧
    (∀ note ∈ [] ++ Note.statements rules true 0 body,
      ∀ directive ∈ directives, directive ∉ Directive.ofNote note) ∧
    ∃ f g : Function, put.Same f ∧ f.Same g ∧
      f.Spelled rules "rpc" directives [] body ∧ g.Spelled rules "rpc" directives [] body ∧
      ofFunction f = ofFunction g := by
  intro rules directives lexeme call string body put
  have hwritable : Directive.Writable rules "rpc" directives :=
    ⟨by decide +kernel, by decide +kernel, by decide +kernel, by decide +kernel, by decide +kernel,
      by decide +kernel⟩
  have hothers : ∀ note ∈ [] ++ Note.statements rules true 0 body,
      ∀ directive ∈ directives, directive ∉ Directive.ofNote note := by
    decide +kernel
  have hprintable : put.Printable := by
    have hword : ∀ words ∈ [["void"], ["char"]], ∀ word ∈ words, word ∈ Token.builtinWords := by
      decide
    refine ⟨⟨⟨by decide, by decide⟩, by decide, by decide⟩,
      .base (.builtin ["void"] (by decide) (hword _ (by decide))) nofun, rfl, ?_, ?_, ?_⟩
    · rintro param hparam
      obtain rfl := List.mem_singleton.mp hparam
      exact .base (.builtin ["char"] (by decide) (hword _ (by decide))) nofun
    · rintro param hparam name hname
      obtain rfl := List.mem_singleton.mp hparam
      cases hname
      exact ⟨⟨by decide, by decide⟩, by decide, by decide⟩
    · rintro param hparam
      obtain rfl := List.mem_singleton.mp hparam
      simp [Shape.plain]
  let setting : Setting := ⟨rules, ⟨"api.c"⟩, .input, ⟨3, 1⟩⟩
  let first : Lexeme := lexeme (.builtin "void") 1
  let head : List Lexeme := [lexeme (.identifier "put") 6, lexeme .openParen 9,
    lexeme (.builtin "char") 10, lexeme .star 15, lexeme (.identifier "a") 16,
    lexeme .closeParen 17]
  have hhead : Spells put.items (first :: head) := by
    have hitems : put.items = (Lexeme.tokens (first :: head)).map .token := by decide +kernel
    rw [hitems]
    exact spells_tokens (first :: head)
  have hplain : StartsPlain setting.rules put.items :=
    Outline.startsPlain_items hprintable (by decide +kernel)
  -- The function that is read with the given body, behind the given notes.
  have hread : ∀ inner pending, Token.Balanced (Lexeme.tokens inner) →
      ∃ g, put.Same g ∧ g.DefinedWith rules (Outline.attachedNotes rules pending) inner :=
    fun inner pending hinner =>
      @Function.Printable.exists_definedWith put hprintable setting hplain first
        (lexeme .openBrace 20) (lexeme .closeBrace 67) head inner hhead rfl rfl hinner [] pending
  obtain ⟨f, hf, hspelled⟩ : ∃ f, put.Same f ∧ f.Spelled rules "rpc" directives [] body := by
    let row : List Lexeme := [⟨.atSign, ⟨1, 1⟩, []⟩, ⟨.identifier "rpc", ⟨1, 2⟩, []⟩,
      ⟨.openParen, ⟨1, 5⟩, []⟩, ⟨.identifier "OUT", ⟨1, 6⟩, []⟩, ⟨.openParen, ⟨1, 9⟩, []⟩,
      ⟨.identifier "a", ⟨1, 10⟩, []⟩, ⟨.closeParen, ⟨1, 11⟩, []⟩, ⟨.comma, ⟨1, 12⟩, []⟩,
      ⟨.identifier "EVENT", ⟨1, 14⟩, []⟩, ⟨.closeParen, ⟨1, 19⟩, []⟩]
    have hrow : Lexeme.tokens row = Note.attributeTokens "rpc" directives := by decide +kernel
    obtain ⟨note, hleaves, -⟩ := @Directive.Writable.exists_leavesNote rules "rpc" directives row
      hwritable setting rfl hrow
    obtain ⟨f, hf, hdefined⟩ := hread body [⟨note, ⟨1, 1⟩, false⟩] (by decide +kernel)
    exact ⟨f, hf, @Function.Spelled.inFront rules "rpc" directives [] body f body note [] []
      (.outside rfl hrow hleaves) rfl (List.forall_mem_nil _) (.refl body) hdefined⟩
  obtain ⟨g, hg, hspelled'⟩ : ∃ g, put.Same g ∧ g.Spelled rules "rpc" directives [] body := by
    let output : List Lexeme := [lexeme (.identifier "rpc") 22, lexeme .openParen 25,
      lexeme (.identifier "OUT") 26, lexeme .openParen 29, lexeme (.identifier "a") 30,
      lexeme .closeParen 31, lexeme .closeParen 32, lexeme .semicolon 33]
    let event : List Lexeme := [lexeme (.identifier "rpc") 42, lexeme .openParen 45,
      lexeme (.identifier "EVENT") 46, lexeme .closeParen 51, lexeme .semicolon 52]
    have hcall : Note.EndsStatement call := ⟨by decide +kernel, by rintro _ ⟨⟩; rfl⟩
    have hbehind : Directive.Inserted rules "rpc" [[⟨.event, []⟩]] body
        (call ++ (event ++ string)) :=
      .cons hcall (by decide +kernel) (.refl call) (by decide +kernel) (.nil (.refl string))
    have hinserted : Directive.Inserted rules "rpc" (directives.map fun directive => [directive])
        body ([] ++ (output ++ (call ++ (event ++ string)))) :=
      @Directive.Inserted.cons rules "rpc" _ _ [] [] output body _ Note.endsStatement_nil
        (List.forall_mem_nil _) .nil (by decide +kernel) hbehind
    obtain ⟨g, hg, hdefined⟩ := hread (output ++ (call ++ (event ++ string))) [] (by decide +kernel)
    exact ⟨g, hg, .statements hinserted hdefined⟩
  have hsame : f.Same g := ⟨by rw [hg.name, hf.name], by rw [hg.result, hf.result],
    by rw [hg.params, hf.params]⟩
  exact ⟨hwritable, hothers, f, g, hf, hsame, hspelled, hspelled',
    ofFunction_of_spelled hwritable hothers hspelled hspelled' hsame⟩

end RemoteFunction

end RemoteCalls
