import Mathlib.Data.List.DropRight
import RemoteCalls.Proofs.Outline.Isolation

/-!
# The constructs of a file and the notes between them

A file is a row of constructs. What a construct is does not depend on the notes in front of it, and
which notes wait in front of it can be told from what is written: they are those behind the last
construct that leaves none waiting, and a note is detached if a blank line is in front of a
construct behind it.
-/

namespace RemoteCalls

/-- What a construct at file scope is, whatever notes wait in front of it. -/
inductive Role where
  /-- An attribute, which makes no note if its name is no marker. -/
  | note (note : Option Note)
  /-- An attribute that cannot be read. -/
  | brokenNote (diagnostic : Diagnostic)
  /-- A declaration with what it declares. -/
  | declaration (kind : DeclKind) (found : List Declaration)
  | placeholder (note : Note)
  | inclusion (header : Inclusion)
  /-- A closing brace that closes nothing. -/
  | strayBrace
  /-- A semicolon, a macro call, or the beginning or the end of a linkage block. -/
  | passed
  /-- What cannot be read, with the reports on it. -/
  | failed (found : List Finding)

/-- A construct at file scope with the lexemes that it takes. -/
structure Construct where
  first : Lexeme
  others : List Lexeme
  role : Role

/-- What is written between constructs, as far as notes are concerned. -/
inductive Mark where
  | blankLine
  | note (note : Note) (position : Position)
deriving DecidableEq

namespace Role

/-- Whether a construct leaves no note waiting. -/
def takesNotes : Role → Bool
  | declaration .. | placeholder _ | inclusion _ | failed _ => true
  | _ => false

/-- The notes that wait behind a construct at a position, given those in front of it. -/
def leaves (position : Position) (pending : List PendingNote) : Role → List PendingNote
  | note (some a) => pending ++ [⟨a, position, false⟩]
  | note none | brokenNote _ | strayBrace | passed => pending
  | declaration .. | placeholder _ | inclusion _ | failed _ => []

/-- What is found at a construct at a position, given the notes that wait in front of it. -/
def findings (setting : Setting) (position : Position) (pending : List PendingNote) :
    Role → List Finding
  | note _ | passed => []
  | brokenNote diagnostic => [.diagnostic diagnostic]
  | declaration kind found => Outline.declarations setting kind pending found
  | placeholder a =>
    PendingNote.dangling setting pending ++
      [.declaration (.placeholder ⟨a, setting.origin, setting.place position⟩)]
  | inclusion header => PendingNote.dangling setting pending ++ [.inclusion header position]
  | strayBrace => [.diagnostic ⟨setting.place position, some .variable, .strayBrace⟩]
  | failed found => found

end Role

/-! ## What is written between constructs -/

/-- The marks that some trivia amount to. -/
def Trivia.marks (rules : NoteRules) : Trivia → List Mark
  | .blankLine _ => [.blankLine]
  | .comment body position => (Note.ofComment rules false 0 body.toList).map (.note · position)

namespace Construct

variable (rules : NoteRules) (c : Construct)

/-- The lexemes of a construct. -/
def row : List Lexeme := c.first :: c.others

/-- The marks in front of the first token of a construct. -/
def marksInFront : List Mark := c.first.trivia.flatMap (Trivia.marks rules)

/-- The note that a construct itself is. -/
def ownMark : List Mark :=
  match c.role with
  | .note (some a) => [.note a c.first.position]
  | _ => []

/-- The marks of a construct and in front of it. -/
def marks : List Mark := c.marksInFront rules ++ c.ownMark

/-- The constructs behind the last one that leaves no note waiting. -/
def sinceTaken (before : List Construct) : List Construct :=
  before.rtakeWhile fun c => !c.role.takesNotes

/-- The marks behind the last construct that leaves no note waiting. -/
def marksSince (before : List Construct) : List Mark := (sinceTaken before).flatMap (marks rules)

end Construct

/-- The notes among some marks in written order. A note is detached if a blank line is behind it. -/
def Mark.notes : List Mark → List PendingNote
  | [] => []
  | .blankLine :: rest => notes rest
  | .note a position :: rest => ⟨a, position, decide (.blankLine ∈ rest)⟩ :: notes rest

namespace Construct

/-- The notes that are written in front of a construct for it. -/
def notesFor (rules : NoteRules) (before : List Construct) (c : Construct) : List PendingNote :=
  Mark.notes (marksSince rules before ++ c.marksInFront rules)

/-- What is found at a construct behind others. -/
def findings (setting : Setting) (before : List Construct) (c : Construct) : List Finding :=
  c.role.findings setting c.first.position (notesFor setting.rules before c)

/-- What is found at a row of constructs behind others. -/
def findingsOf (setting : Setting) : (before constructs : List Construct) → List Finding
  | _, [] => []
  | before, c :: rest => c.findings setting before ++ findingsOf setting (before ++ [c]) rest

theorem findingsOf_append (setting : Setting) (before front back : List Construct) :
    findingsOf setting before (front ++ back) =
      findingsOf setting before front ++ findingsOf setting (before ++ front) back := by
  induction front generalizing before with
  | nil => simp [findingsOf]
  | cons c front ih =>
    rw [List.cons_append, findingsOf, findingsOf, ih, List.append_assoc, List.append_assoc,
      List.singleton_append]

/-- What is found at constructs in a row is found at one of them. -/
theorem mem_findingsOf {setting : Setting} {before constructs : List Construct}
    {finding : Finding} :
    finding ∈ findingsOf setting before constructs ↔ ∃ front c after,
      constructs = front ++ c :: after ∧ finding ∈ c.findings setting (before ++ front) := by
  constructor
  · intro h
    induction constructs generalizing before with
    | nil => cases h
    | cons c constructs ih =>
      rcases List.mem_append.mp h with h | h
      · exact ⟨[], c, constructs, rfl, (List.append_nil before).symm ▸ h⟩
      · obtain ⟨front, d, after, rfl, hd⟩ := ih h
        refine ⟨c :: front, d, after, rfl, ?_⟩
        rwa [List.append_assoc] at hd
  · rintro ⟨front, c, after, rfl, hc⟩
    rw [findingsOf_append]
    exact List.mem_append_right _ (List.mem_append_left _ hc)

end Construct

/-! ## Notes that wait -/

/-- A note behind which more marks come. -/
def PendingNote.behind (marks : List Mark) (p : PendingNote) : PendingNote :=
  { p with detached := p.detached || decide (.blankLine ∈ marks) }

/-- The notes among marks that others come behind. -/
theorem Mark.notes_append (marks more : List Mark) :
    notes (marks ++ more) = (notes marks).map (·.behind more) ++ notes more := by
  induction marks with
  | nil => rfl
  | cons mark marks ih =>
    cases mark with
    | blankLine => exact ih
    | note a position => simp [notes, ih, PendingNote.behind]

/-- The marks of a comment have no blank line among them. -/
theorem Mark.notes_comment (found : List Note) (position : Position) :
    notes (found.map (.note · position)) = found.map (⟨·, position, false⟩) := by
  induction found with
  | nil => rfl
  | cons a found ih => simp [notes, ih]

/-- Notes that wait behind some trivia are those that waited before, and those of the trivia. -/
theorem PendingNote.absorb_eq (rules : NoteRules) (pending : List PendingNote)
    (trivia : List Trivia) :
    absorb rules pending trivia =
      pending.map (·.behind (trivia.flatMap (Trivia.marks rules))) ++
        Mark.notes (trivia.flatMap (Trivia.marks rules)) := by
  induction trivia generalizing pending with
  | nil => simp [absorb, behind, Mark.notes]
  | cons first trivia ih =>
    cases first with
    | blankLine position =>
      rw [absorb, ih]
      simp [Trivia.marks, Mark.notes, behind]
    | comment body position =>
      rw [absorb, ih, List.flatMap_cons, Mark.notes_append]
      simp [Trivia.marks, Mark.notes_comment, behind, Function.comp_def]

/-- Marks in some trivia come behind those that are written before. -/
theorem PendingNote.absorb_notes (rules : NoteRules) (marks : List Mark) (trivia : List Trivia) :
    absorb rules (Mark.notes marks) trivia =
      Mark.notes (marks ++ trivia.flatMap (Trivia.marks rules)) := by
  rw [absorb_eq, Mark.notes_append]

namespace Construct

/-- The notes behind a construct are those of the marks behind the last one that leaves none. -/
theorem leaves_eq (rules : NoteRules) (before : List Construct) (c : Construct) :
    c.role.leaves c.first.position (notesFor rules before c) =
      Mark.notes (marksSince rules (before ++ [c])) := by
  have htaken : c.role.takesNotes = true → Mark.notes (marksSince rules (before ++ [c])) = [] := by
    intro h
    simp [marksSince, sinceTaken, List.rtakeWhile_concat_neg, h, Mark.notes]
  have hleft : c.role.takesNotes = false → Mark.notes (marksSince rules (before ++ [c])) =
      (notesFor rules before c).map (·.behind c.ownMark) ++ Mark.notes c.ownMark := by
    intro h
    have hsince : marksSince rules (before ++ [c]) =
        marksSince rules before ++ c.marksInFront rules ++ c.ownMark := by
      simp [marksSince, sinceTaken, List.rtakeWhile_concat_pos, h, marks]
    rw [hsince, Mark.notes_append]
    rfl
  have hempty : c.ownMark = [] → (notesFor rules before c).map (·.behind c.ownMark) ++
      Mark.notes c.ownMark = notesFor rules before c := by
    intro h
    simp [h, PendingNote.behind, Mark.notes]
  obtain ⟨first, others, role⟩ := c
  cases role with
  | note a =>
    rw [hleft rfl]
    cases a with
    | none => exact (hempty rfl).symm
    | some a => simp [Role.leaves, ownMark, PendingNote.behind, Mark.notes]
  | brokenNote _ | strayBrace | passed =>
    rw [hleft rfl]
    exact (hempty rfl).symm
  | declaration _ _ | placeholder _ | inclusion _ | failed _ => exact (htaken rfl).symm

end Construct

namespace Outline

open Construct (marksSince notesFor findingsOf)

/-! ## Reading a file as a row of constructs -/

/-- The construct in front of some lexemes cannot be read. Attributes are apart from this, since one
that cannot be read leaves the notes alone. -/
inductive Fails (setting : Setting) (lexemes : List Lexeme) (failure : Failure) : Prop
  | declaration (hfront : Front.of setting.rules lexemes = .declaration)
      (hread : Reader.readExternal setting lexemes = .error failure)
  | marker (hfront : Front.of setting.rules lexemes = .marker)
      (hread : Reader.marker setting ⟨lexemes, .variable, []⟩ = .error failure)
  | macroCall (hfront : Front.of setting.rules lexemes = .macroCall)
      (hread : Outline.macroCall setting ⟨lexemes, .variable, []⟩ = .error failure)

/-- `RoleAt setting linkage lexemes role behind linkage'`: with some linkage blocks open, the
construct in front of some lexemes has the given role. Behind it are the other lexemes, and as many
linkage blocks are open. -/
inductive RoleAt (setting : Setting) :
    (linkage : Nat) → List Lexeme → Role → (behind : List Lexeme) → (linkage' : Nat) → Prop
  | note {linkage : Nat} {lexemes : List Lexeme} {a : Option Note} {cursor : Cursor}
      (hfront : Front.of setting.rules lexemes = .note)
      (hread : attributeNote setting ⟨lexemes, .variable, []⟩ = .ok (a, cursor)) :
      RoleAt setting linkage lexemes (.note a) cursor.rest linkage
  | malformedNote {linkage : Nat} {lexemes : List Lexeme} {diagnostic : Diagnostic}
      (hfront : Front.of setting.rules lexemes = .note)
      (hread : attributeNote setting ⟨lexemes, .variable, []⟩ = .error (.malformed diagnostic)) :
      RoleAt setting linkage lexemes (.brokenNote diagnostic) lexemes.tail linkage
  | fatalNote {linkage : Nat} {lexemes : List Lexeme} {diagnostic : Diagnostic}
      (hfront : Front.of setting.rules lexemes = .note)
      (hread : attributeNote setting ⟨lexemes, .variable, []⟩ = .error (.fatal diagnostic)) :
      RoleAt setting linkage lexemes (.brokenNote diagnostic) [] linkage
  | declaration {linkage : Nat} {lexemes : List Lexeme} {found : List Declaration} {cursor : Cursor}
      (hfront : Front.of setting.rules lexemes = .declaration)
      (hread : Reader.readExternal setting lexemes = .ok (found, cursor)) :
      RoleAt setting linkage lexemes (.declaration cursor.kind found) cursor.rest linkage
  | placeholder {linkage : Nat} {lexemes : List Lexeme} {a : Note} {cursor : Cursor}
      (hfront : Front.of setting.rules lexemes = .marker)
      (hread : Reader.marker setting ⟨lexemes, .variable, []⟩ = .ok (some a, cursor)) :
      RoleAt setting linkage lexemes (.placeholder a) cursor.rest linkage
  | nothing {linkage : Nat} {lexemes : List Lexeme} {cursor : Cursor}
      (hfront : Front.of setting.rules lexemes = .marker)
      (hread : Reader.marker setting ⟨lexemes, .variable, []⟩ = .ok (none, cursor)) :
      RoleAt setting linkage lexemes .passed cursor.rest linkage
  | inclusion {linkage : Nat} {lexemes : List Lexeme} {header : Inclusion}
      (hfront : Front.of setting.rules lexemes = .inclusion header) :
      RoleAt setting linkage lexemes (.inclusion header) lexemes.tail linkage
  | macroCall {linkage : Nat} {lexemes : List Lexeme} {cursor : Cursor}
      (hfront : Front.of setting.rules lexemes = .macroCall)
      (hread : Outline.macroCall setting ⟨lexemes, .variable, []⟩ = .ok ((), cursor)) :
      RoleAt setting linkage lexemes .passed cursor.rest linkage
  | semicolon {linkage : Nat} {lexemes : List Lexeme}
      (hfront : Front.of setting.rules lexemes = .semicolon) :
      RoleAt setting linkage lexemes .passed lexemes.tail linkage
  | linkage {linkage : Nat} {lexemes : List Lexeme}
      (hfront : Front.of setting.rules lexemes = .linkage) :
      RoleAt setting linkage lexemes .passed (lexemes.drop 3) (linkage + 1)
  | closeBrace {linkage : Nat} {lexemes : List Lexeme}
      (hfront : Front.of setting.rules lexemes = .closeBrace) :
      RoleAt setting (linkage + 1) lexemes .passed lexemes.tail linkage
  | strayBrace {lexemes : List Lexeme}
      (hfront : Front.of setting.rules lexemes = .closeBrace) :
      RoleAt setting 0 lexemes .strayBrace lexemes.tail 0
  | failed {linkage : Nat} {lexemes : List Lexeme} {failure : Failure}
      (hfails : Fails setting lexemes failure) :
      RoleAt setting linkage lexemes (.failed (recover setting ⟨lexemes, [], linkage⟩ failure).1)
        (recover setting ⟨lexemes, [], linkage⟩ failure).2.rest linkage

/-- `Course setting linkage lexemes constructs`: with some linkage blocks open, the lexemes are
those of the constructs in a row. -/
inductive Course (setting : Setting) : (linkage : Nat) → List Lexeme → List Construct → Prop
  | nil {linkage : Nat} : Course setting linkage [] []
  | cons {linkage linkage' : Nat} {c : Construct} {behind : List Lexeme} {rest : List Construct}
      (hrole : RoleAt setting linkage (c.row ++ behind) c.role behind linkage')
      (hrest : Course setting linkage' behind rest) :
      Course setting linkage (c.row ++ behind) (c :: rest)

variable {setting : Setting}

/-- Notes that wait are dropped behind a failure, and do not matter for it. -/
theorem recover_eq (setting : Setting) (lexemes : List Lexeme) (pending : List PendingNote)
    (linkage : Nat) (failure : Failure) :
    recover setting ⟨lexemes, pending, linkage⟩ failure =
      ((recover setting ⟨lexemes, [], linkage⟩ failure).1,
        ⟨(recover setting ⟨lexemes, [], linkage⟩ failure).2.rest, [], linkage⟩) := by
  cases failure with
  | malformed diagnostic =>
    unfold recover
    dsimp only
    split <;> rfl
  | fatal diagnostic => rfl
  | outOfSteps => rfl

/-- A step finds what its construct brings, given the notes that wait, and leaves the notes that
its construct leaves. -/
theorem stepAt_of_roleAt {linkage linkage' : Nat} {lexemes behind : List Lexeme} {role : Role}
    (h : RoleAt setting linkage lexemes role behind linkage') (pending : List PendingNote)
    (position : Position) :
    stepAt setting ⟨lexemes, pending, linkage⟩ position =
      (role.findings setting position pending,
        ⟨behind, role.leaves position pending, linkage'⟩) := by
  cases h with
  | @note _ _ a _ hfront hread =>
    cases a <;> simp [stepAt, hfront, stepNote, run, hread, Role.findings, Role.leaves]
  | malformedNote hfront hread | fatalNote hfront hread =>
    simp [stepAt, hfront, stepNote, run, hread, Role.findings, Role.leaves]
  | declaration hfront hread =>
    simp [stepAt, hfront, stepDeclaration, hread, Role.findings, Role.leaves]
  | placeholder hfront hread | nothing hfront hread =>
    simp [stepAt, hfront, stepMarker, run, hread, Role.findings, Role.leaves]
  | macroCall hfront hread =>
    simp [stepAt, hfront, stepMacro, run, hread, Role.findings, Role.leaves]
  | inclusion hfront | semicolon hfront | linkage hfront | closeBrace hfront | strayBrace hfront =>
    simp [stepAt, hfront, Role.findings, Role.leaves]
  | @failed _ _ failure hfails =>
    have hrecover := recover_eq setting lexemes pending linkage failure
    cases hfails with
    | declaration hfront hread =>
      simpa [stepAt, hfront, stepDeclaration, hread, Role.findings, Role.leaves] using hrecover
    | marker hfront hread =>
      simpa [stepAt, hfront, stepMarker, run, hread, Role.findings, Role.leaves] using hrecover
    | macroCall hfront hread =>
      simpa [stepAt, hfront, stepMacro, run, hread, Role.findings, Role.leaves] using hrecover

/-- The notes of a construct are those that wait and those in front of its first lexeme. -/
theorem step_of_roleAt {linkage linkage' : Nat} {first : Lexeme} {rest behind : List Lexeme}
    {role : Role} (h : RoleAt setting linkage (first :: rest) role behind linkage')
    (pending : List PendingNote) :
    step setting ⟨first :: rest, pending, linkage⟩ =
      (role.findings setting first.position
          (PendingNote.absorb setting.rules pending first.trivia),
        ⟨behind, role.leaves first.position
          (PendingNote.absorb setting.rules pending first.trivia), linkage'⟩) :=
  stepAt_of_roleAt h _ first.position

variable {outline : Outline}

/-- What is in front of some lexemes has a role. -/
theorem exists_roleAt (setting : Setting) {lexemes : List Lexeme} (hne : lexemes ≠ [])
    (linkage : Nat) :
    ∃ role behind linkage', RoleAt setting linkage lexemes role behind linkage' := by
  cases hfront : Front.of setting.rules lexemes with
  | inclusion header => exact ⟨_, _, _, .inclusion hfront⟩
  | note =>
    have hnote := attributeNote_reads (List.length_pos_iff.mpr hne) setting
      ⟨lexemes, .variable, []⟩ (Cursor.consistent_of_tags_nil rfl) rfl
    cases hread : attributeNote setting ⟨lexemes, .variable, []⟩ with
    | ok result => exact ⟨_, _, _, .note hfront hread⟩
    | error failure =>
      cases failure with
      | malformed _ => exact ⟨_, _, _, .malformedNote hfront hread⟩
      | fatal _ => exact ⟨_, _, _, .fatalNote hfront hread⟩
      | outOfSteps =>
        rw [hread] at hnote
        exact absurd hnote id
  | semicolon => exact ⟨_, _, _, .semicolon hfront⟩
  | closeBrace =>
    cases linkage with
    | zero => exact ⟨_, _, _, .strayBrace hfront⟩
    | succ linkage => exact ⟨_, _, _, .closeBrace hfront⟩
  | linkage => exact ⟨_, _, _, .linkage hfront⟩
  | marker =>
    cases hread : Reader.marker setting ⟨lexemes, .variable, []⟩ with
    | error failure => exact ⟨_, _, _, .failed (.marker hfront hread)⟩
    | ok result =>
      obtain ⟨_ | a, cursor⟩ := result
      · exact ⟨_, _, _, .nothing hfront hread⟩
      · exact ⟨_, _, _, .placeholder hfront hread⟩
  | macroCall =>
    cases hread : macroCall setting ⟨lexemes, .variable, []⟩ with
    | error failure => exact ⟨_, _, _, .failed (.macroCall hfront hread)⟩
    | ok result => exact ⟨_, _, _, .macroCall hfront hread⟩
  | declaration =>
    cases hread : Reader.readExternal setting lexemes with
    | error failure => exact ⟨_, _, _, .failed (.declaration hfront hread)⟩
    | ok result => exact ⟨_, _, _, .declaration hfront hread⟩

/-- Every file is a row of constructs. -/
theorem exists_course (setting : Setting) (outline : Outline) :
    ∃ constructs, Course setting outline.linkage outline.rest constructs := by
  induction outline using scan_induction setting with
  | nil outline hnil =>
    rw [hnil]
    exact ⟨[], .nil⟩
  | step outline hne ih =>
    obtain ⟨constructs, hrest⟩ := ih
    have hlocal := (local_step setting hne).takes
    rcases outline with ⟨_ | ⟨lexeme, rest⟩, pending, linkage⟩
    · exact absurd rfl hne
    obtain ⟨role, behind, linkage', hrole⟩ := exists_roleAt setting hne linkage
    rw [step_of_roleAt hrole] at hrest hlocal
    obtain ⟨row, hrow⟩ := hlocal.suffix
    have hless := hlocal.shrinks
    dsimp only at hrow hless hrest hrole ⊢
    cases row with
    | nil =>
      rw [← hrow, List.nil_append] at hless
      exact absurd hless (Nat.lt_irrefl _)
    | cons first others =>
      have hcourse : Course setting linkage ((⟨first, others, role⟩ : Construct).row ++ behind)
          (⟨first, others, role⟩ :: constructs) := .cons (hrow ▸ hrole) hrest
      exact ⟨_, hrow ▸ hcourse⟩

/-- What is found in a row of constructs is what is found at each of them, and the notes that are
left are those that the constructs leave. -/
theorem scan_of_course {constructs before : List Construct}
    (h : Course setting outline.linkage outline.rest constructs)
    (hpending : outline.pending = Mark.notes (marksSince setting.rules before)) :
    (scan setting outline).1 = findingsOf setting before constructs ∧
      (scan setting outline).2.pending =
        Mark.notes (marksSince setting.rules (before ++ constructs)) := by
  obtain ⟨rest, pending, linkage⟩ := outline
  dsimp only at h hpending
  induction h generalizing before pending with
  | nil =>
    rw [scan_of_nil rfl, List.append_nil]
    exact ⟨rfl, hpending⟩
  | @cons linkage linkage' c behind constructs hrole _ ih =>
    have hstep : step setting ⟨c.row ++ behind, pending, linkage⟩ =
        (c.findings setting before,
          ⟨behind, Mark.notes (marksSince setting.rules (before ++ [c])), linkage'⟩) := by
      have hnotes : PendingNote.absorb setting.rules pending c.first.trivia =
          notesFor setting.rules before c := by
        rw [hpending, PendingNote.absorb_notes]
        rfl
      rw [← Construct.leaves_eq, Construct.findings, ← hnotes]
      exact step_of_roleAt hrole pending
    obtain ⟨hfound, hleft⟩ := @ih (before ++ [c]) _ rfl
    rw [scan_of_ne_nil (by simp [Construct.row]), hstep]
    refine ⟨?_, ?_⟩
    · rw [findingsOf, hfound]
    · rw [hleft, List.append_assoc, List.singleton_append]

namespace Course

variable {linkage : Nat} {lexemes : List Lexeme} {constructs : List Construct}

/-- The lexemes of a file are those of its constructs. -/
theorem flatMap_row (h : Course setting linkage lexemes constructs) :
    constructs.flatMap Construct.row = lexemes := by
  induction h with
  | nil => rfl
  | cons _ _ ih => rw [List.flatMap_cons, ih]

/-- Each construct has its role in front of the lexemes from there on. -/
theorem exists_roleAt {before after : List Construct} {c : Construct}
    (h : Course setting linkage lexemes (before ++ c :: after)) : ∃ linkage linkage',
      RoleAt setting linkage (c.row ++ after.flatMap Construct.row) c.role
        (after.flatMap Construct.row) linkage' := by
  induction before generalizing linkage lexemes with
  | nil =>
    cases h with
    | cons hrole hrest =>
      rw [hrest.flatMap_row]
      exact ⟨_, _, hrole⟩
  | cons first before ih =>
    cases h with
    | cons _ hrest => exact ih hrest

end Course

/-! ## Files without failures -/

/-- Whether the construct in front can be read; an attribute that cannot be read counts for
nothing. -/
def readable (setting : Setting) (outline : Outline) : Bool :=
  match Front.of setting.rules outline.rest with
  | .declaration => (Reader.readExternal setting outline.rest).isOk
  | .marker => (run setting outline Reader.marker).isOk
  | .macroCall => (run setting outline macroCall).isOk
  | _ => true

/-- All constructs from where reading stands can be read. -/
inductive Unfailing (setting : Setting) : Outline → Prop
  | nil {outline : Outline} (hnil : outline.rest = []) : Unfailing setting outline
  | step {outline : Outline} (hne : outline.rest ≠ []) (hread : readable setting outline = true)
      (hnext : Unfailing setting (step setting outline).2) : Unfailing setting outline

/-- What can be read is no failure. -/
theorem Fails.not_readable {lexemes : List Lexeme} {failure : Failure}
    (h : Fails setting lexemes failure) (pending : List PendingNote) (linkage : Nat) :
    readable setting ⟨lexemes, pending, linkage⟩ = false := by
  cases h with
  | declaration hfront hread | marker hfront hread | macroCall hfront hread =>
    simp [readable, run, hfront, hread, Except.isOk, Except.toBool]

theorem RoleAt.fails {linkage linkage' : Nat} {lexemes behind : List Lexeme} {role : Role}
    (h : RoleAt setting linkage lexemes role behind linkage') {found : List Finding}
    (hfailed : role = .failed found) : ∃ failure, Fails setting lexemes failure := by
  cases h with
  | failed hfails => exact ⟨_, hfails⟩
  | _ => cases hfailed

/-- No construct of a file without failures is one. -/
theorem Course.not_failed {linkage : Nat} {lexemes : List Lexeme} {constructs : List Construct}
    {pending : List PendingNote} (h : Course setting linkage lexemes constructs)
    (hreads : Unfailing setting ⟨lexemes, pending, linkage⟩) :
    ∀ c ∈ constructs, ∀ found, c.role ≠ .failed found := by
  induction h generalizing pending with
  | nil => exact fun c hc => absurd hc List.not_mem_nil
  | @cons linkage linkage' c behind rest hrole _ ih =>
    cases hreads with
    | nil hnil => cases hnil
    | step _ hread hnext =>
      rw [show step setting ⟨c.row ++ behind, pending, linkage⟩ = _ from
        step_of_roleAt hrole pending] at hnext
      intro other hother found hfound
      rcases List.mem_cons.mp hother with rfl | hother
      · obtain ⟨failure, hfails⟩ := hrole.fails hfound
        rw [hfails.not_readable] at hread
        cases hread
      · exact ih hnext other hother found hfound

end Outline

end RemoteCalls
