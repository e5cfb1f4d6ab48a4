import RemoteCalls.Proofs.Outline.Association

/-!
# What becomes of a note

Each note that is written in a file waits for the next construct that leaves none waiting, or is
left at the end of the file. Where detached notes are refused, such a construct reports the notes
that it does not pass on. The one exception is a declaration that declares nothing: the notes that
are not detached from it get lost.
-/

namespace RemoteCalls

/-- Among marks a note waits. -/
theorem Mark.exists_mem_notes {marks : List Mark} {a : Note} {position : Position}
    (h : .note a position ∈ marks) : ∃ detached, ⟨a, position, detached⟩ ∈ notes marks := by
  induction marks with
  | nil => cases h
  | cons mark marks ih =>
    rcases List.mem_cons.mp h with rfl | h
    · exact ⟨_, List.mem_cons_self⟩
    · obtain ⟨detached, hmem⟩ := ih h
      cases mark with
      | blankLine => exact ⟨detached, hmem⟩
      | note => exact ⟨detached, List.mem_cons_of_mem _ hmem⟩

namespace Construct

variable {rules : NoteRules}

/-- A mark of some constructs is in front of one of them that leaves no note waiting, or it is
behind the last such construct. -/
theorem exists_taker {constructs : List Construct} {mark : Mark}
    (h : mark ∈ constructs.flatMap (marks rules)) :
    (∃ before c after, constructs = before ++ c :: after ∧ c.role.takesNotes = true ∧
        mark ∈ marksSince rules before ++ c.marksInFront rules) ∨
      mark ∈ marksSince rules constructs := by
  induction constructs using List.reverseRecOn with
  | nil => cases h
  | append_singleton before c ih =>
    have hmem : mark ∈ before.flatMap (marks rules) ∨ mark ∈ c.marks rules := by
      simpa using h
    cases htakes : c.role.takesNotes with
    | true =>
      have hown : c.marks rules = c.marksInFront rules := by
        obtain ⟨first, others, role⟩ := c
        cases role with
        | note a => cases htakes
        | _ => simp [marks, ownMark]
      have htaken : mark ∈ marksSince rules before ++ c.marksInFront rules →
          ∃ front d after, before ++ [c] = front ++ d :: after ∧ d.role.takesNotes = true ∧
            mark ∈ marksSince rules front ++ d.marksInFront rules :=
        fun hmark => ⟨before, c, [], rfl, htakes, hmark⟩
      rcases hmem with hmem | hmem
      · rcases ih hmem with ⟨front, d, after, rfl, hd, hmark⟩ | hmark
        · exact .inl ⟨front, d, after ++ [c], by simp, hd, hmark⟩
        · exact .inl (htaken (List.mem_append_left _ hmark))
      · exact .inl (htaken (List.mem_append_right _ (hown ▸ hmem)))
    | false =>
      have hsince : marksSince rules (before ++ [c]) =
          marksSince rules before ++ c.marks rules := by
        simp [marksSince, sinceTaken, List.rtakeWhile_concat_pos, htakes]
      rw [hsince]
      rcases hmem with hmem | hmem
      · rcases ih hmem with ⟨front, d, after, rfl, hd, hmark⟩ | hmark
        · exact .inl ⟨front, d, after ++ [c], by simp, hd, hmark⟩
        · exact .inr (List.mem_append_left _ hmark)
      · exact .inr (List.mem_append_right _ hmem)

end Construct

namespace Outline

open Construct (marksSince notesFor)

/-- A note that is written at a position is accounted for by what is found: a declaration has it,
or there is a report on it. -/
def Accounted (setting : Setting) (found : List Finding) (a : Note) (position : Position) : Prop :=
  (∃ d, .declaration d ∈ found ∧ a ∈ d.notes) ∨
    ∃ diagnostic, .diagnostic diagnostic ∈ found ∧ diagnostic.place = setting.place position ∧
      (diagnostic.reason = .detached a ∨ diagnostic.reason = .dangling a)

variable {setting : Setting} {found more : List Finding} {a : Note} {position : Position}

theorem Accounted.mono (h : Accounted setting found a position) (hsub : found ⊆ more) :
    Accounted setting more a position := by
  rcases h with ⟨d, hd, ha⟩ | ⟨diagnostic, hmem, hreport⟩
  · exact .inl ⟨d, hsub hd, ha⟩
  · exact .inr ⟨diagnostic, hsub hmem, hreport⟩

/-- Where detached notes are refused, notes that are left are reported. -/
theorem accounted_dangling (hrefuse : setting.rules.detached = .refuse)
    {pending : List PendingNote} {detached : Bool} (h : ⟨a, position, detached⟩ ∈ pending) :
    Accounted setting (PendingNote.dangling setting pending) a position := by
  refine .inr ⟨⟨setting.place position, some .placeholder, .dangling a⟩, ?_, rfl, .inr rfl⟩
  unfold PendingNote.dangling
  rw [hrefuse]
  exact List.mem_map.mpr ⟨_, h, rfl⟩

/-- The notes that wait for a declaration are accounted for if they are detached or something is
declared. -/
theorem Associated.accounted {before : List Construct} {c : Construct} {after : List Construct}
    {kind : DeclKind} {ds : List Declaration} (h : Associated setting before c after kind ds)
    (hrefuse : setting.rules.detached = .refuse) {detached : Bool}
    (hmem : ⟨a, position, detached⟩ ∈ notesFor setting.rules before c)
    (hdeclares : detached = true ∨ ds ≠ []) :
    Accounted setting (c.findings setting before) a position := by
  rw [h.refused hrefuse]
  cases detached with
  | true =>
    refine .inr ⟨⟨setting.place position, some kind, .detached a⟩, ?_, rfl, .inl rfl⟩
    refine List.mem_append_left _ (List.mem_map.mpr ⟨_, List.mem_filter.mpr ⟨hmem, rfl⟩, rfl⟩)
  | false =>
    obtain ⟨d, hd⟩ := List.exists_mem_of_ne_nil ds (hdeclares.resolve_left nofun)
    obtain ⟨body, -, hnotes⟩ := h.bodies d hd
    refine .inl ⟨_, List.mem_append_right _ (List.mem_map.mpr ⟨d, hd, rfl⟩), ?_⟩
    rw [hnotes]
    exact List.mem_append_left _
      (List.mem_map.mpr ⟨_, List.mem_filter.mpr ⟨hmem, rfl⟩, rfl⟩)

/-- A construct that leaves no note waiting accounts for the notes in front of it, unless it is a
declaration that declares nothing or a failure. -/
theorem Course.accounted {linkage : Nat} {lexemes : List Lexeme} {before after : List Construct}
    {c : Construct} (h : Course setting linkage lexemes (before ++ c :: after))
    (hrefuse : setting.rules.detached = .refuse) (htakes : c.role.takesNotes = true)
    (hread : ∀ found, c.role ≠ .failed found) {detached : Bool}
    (hmem : ⟨a, position, detached⟩ ∈ notesFor setting.rules before c) :
    Accounted setting (c.findings setting before) a position ∨
      ∃ kind, c.role = .declaration kind [] ∧ detached = false := by
  have hdangling := accounted_dangling hrefuse hmem
  cases hrole : c.role with
  | declaration kind ds =>
    by_cases hdeclares : detached = true ∨ ds ≠ []
    · exact .inl ((h.associated hrole).accounted hrefuse hmem hdeclares)
    · rw [not_or, not_not, Bool.not_eq_true] at hdeclares
      obtain ⟨hdetached, rfl⟩ := hdeclares
      exact .inr ⟨kind, rfl, hdetached⟩
  | placeholder | inclusion =>
    refine .inl (hdangling.mono ?_)
    rw [Construct.findings, hrole]
    exact List.subset_append_left _ _
  | failed found => exact absurd hrole (hread found)
  | _ =>
    rw [hrole] at htakes
    cases htakes

/-- Let a text be read without failures, and let detached notes be refused. Each note that is
written in front of a construct or at the end belongs to something that is declared, or is reported,
unless it waits for a declaration that declares nothing and is not detached from it. All that is
found at such a declaration are the reports on the detached notes. -/
theorem ofText_accounts {rules : NoteRules} {file : Path} {origin : Origin} {text : String}
    {lexed : Lexed} (hrefuse : rules.detached = .refuse)
    (hlexed : Lexed.ofText text = .ok lexed)
    (hreads : Unfailing ⟨rules, file, origin, lexed.finish⟩ (start lexed.lexemes)) :
    let setting : Setting := ⟨rules, file, origin, lexed.finish⟩
    ∃ constructs, Course setting 0 lexed.lexemes constructs ∧
      (∀ a position, .note a position ∈ constructs.flatMap (Construct.marks rules) ++
          lexed.closing.flatMap (Trivia.marks rules) →
        Accounted setting (ofText rules file origin text) a position ∨
        ∃ before c after kind, constructs = before ++ c :: after ∧
          c.role = .declaration kind [] ∧ ⟨a, position, false⟩ ∈ notesFor rules before c) ∧
      ∀ before c after kind, constructs = before ++ c :: after → c.role = .declaration kind [] →
        c.findings setting before = ((notesFor rules before c).filter (·.detached)).map fun p =>
          .diagnostic ⟨setting.place p.position, some kind, .detached p.note⟩ := by
  intro setting
  obtain ⟨constructs, hcourse⟩ := exists_course setting (start lexed.lexemes)
  have htext := ofText_of_course hlexed hcourse
  refine ⟨constructs, hcourse, ?_, ?_⟩
  · intro a position hmark
    have hend : .note a position ∈ marksSince rules constructs ++
        lexed.closing.flatMap (Trivia.marks rules) →
          Accounted setting (ofText rules file origin text) a position := by
      intro hmark
      obtain ⟨detached, hmem⟩ := Mark.exists_mem_notes hmark
      rw [htext]
      exact (accounted_dangling hrefuse hmem).mono (List.subset_append_right _ _)
    rcases List.mem_append.mp hmark with hmark | hmark
    · rcases Construct.exists_taker hmark with ⟨before, c, after, rfl, htakes, hfront⟩ | hleft
      · obtain ⟨detached, hmem⟩ := Mark.exists_mem_notes hfront
        have hread := hcourse.not_failed hreads c (by simp)
        rcases Course.accounted hcourse hrefuse htakes hread hmem with hthere | ⟨kind, hrole, rfl⟩
        · refine .inl (hthere.mono ?_)
          intro finding hfinding
          rw [htext]
          exact List.mem_append_left _
            (Construct.mem_findingsOf.mpr ⟨before, c, after, rfl, hfinding⟩)
        · exact .inr ⟨before, c, after, kind, rfl, hrole, hmem⟩
      · exact .inl (hend (List.mem_append_left _ hleft))
    · exact .inl (hend (List.mem_append_right _ hmark))
  · rintro before c after kind rfl hrole
    have hassociated := Course.associated hcourse hrole
    rw [hassociated.refused hrefuse, List.map_nil, List.append_nil]

/-- A detached note, a note of a function, and a note in front of an enumeration, which is lost. -/
theorem ofText_accounts_of_enum :
    let rules : NoteRules := ⟨["A", "B", "C"], .refuse⟩
    let text := "// @A\n\n@B\nint f(void);\n@C\nenum E \x7b X \x7d;\n"
    let lexed := Lexed.ofSegments .start 0 [] (Segment.cut 0 text.toList).1
    let setting : Setting := ⟨rules, ⟨"api.c"⟩, .input, lexed.finish⟩
    rules.detached = .refuse ∧ Lexed.ofText text = .ok lexed ∧
      Unfailing setting (start lexed.lexemes) ∧
      (∃ constructs, Course setting 0 lexed.lexemes constructs ∧
        ∀ a position, .note a position ∈ constructs.flatMap (Construct.marks rules) ++
            lexed.closing.flatMap (Trivia.marks rules) →
          Accounted setting (ofText rules ⟨"api.c"⟩ .input text) a position ∨
          ∃ before c after kind, constructs = before ++ c :: after ∧
            c.role = .declaration kind [] ∧ ⟨a, position, false⟩ ∈ notesFor rules before c) ∧
      (declared (ofText rules ⟨"api.c"⟩ .input text)).map (·.notes.map (·.text)) = [["@B"]] := by
  intro rules text lexed setting
  have hlexed : Lexed.ofText text = .ok lexed := by decide +kernel
  have hreads : Unfailing setting (start lexed.lexemes) := by
    refine .step (by decide +kernel) (by decide +kernel) ?_
    refine .step (by decide +kernel) (by decide +kernel) ?_
    refine .step (by decide +kernel) (by decide +kernel) ?_
    exact .step (by decide +kernel) (by decide +kernel) (.nil (by decide +kernel))
  obtain ⟨constructs, hcourse, haccounts, -⟩ := ofText_accounts rfl hlexed hreads
  exact ⟨rfl, hlexed, hreads, ⟨constructs, hcourse, haccounts⟩, by decide +kernel⟩

/-- The note in front of an enumeration is not accounted for: nothing at all is found. -/
theorem not_accounted_of_enum :
    ¬ ∀ (rules : NoteRules) (file : Path) (origin : Origin) (text : String) (lexed : Lexed)
      (constructs : List Construct), rules.detached = .refuse → Lexed.ofText text = .ok lexed →
      Unfailing ⟨rules, file, origin, lexed.finish⟩ (start lexed.lexemes) →
      Course ⟨rules, file, origin, lexed.finish⟩ 0 lexed.lexemes constructs →
      ∀ a position, .note a position ∈ constructs.flatMap (Construct.marks rules) ++
          lexed.closing.flatMap (Trivia.marks rules) →
        Accounted ⟨rules, file, origin, lexed.finish⟩ (ofText rules file origin text) a
          position := by
  intro hall
  let rules : NoteRules := ⟨["rpc", "SERIALIZE"], .refuse⟩
  let sign : Lexeme := ⟨.atSign, ⟨1, 1⟩, []⟩
  let name : Lexeme := ⟨.identifier "rpc", ⟨1, 2⟩, []⟩
  let enum : Lexeme := ⟨.enum, ⟨2, 1⟩, []⟩
  let others : List Lexeme := [⟨.identifier "E", ⟨2, 6⟩, []⟩, ⟨.openBrace, ⟨2, 8⟩, []⟩,
    ⟨.identifier "A", ⟨2, 10⟩, []⟩, ⟨.closeBrace, ⟨2, 12⟩, []⟩, ⟨.semicolon, ⟨2, 13⟩, []⟩]
  let lexed : Lexed := ⟨sign :: name :: enum :: others, ⟨2, 14⟩, []⟩
  let setting : Setting := ⟨rules, ⟨"api.c"⟩, .input, lexed.finish⟩
  have hlexed : Lexed.ofText "@rpc\nenum E \x7b A \x7d;" = .ok lexed := by decide +kernel
  have hreads : Unfailing setting (start lexed.lexemes) := by
    refine .step (by decide +kernel) (by decide +kernel) ?_
    exact .step (by decide +kernel) (by decide +kernel) (.nil (by decide +kernel))
  let a : Note := ⟨"rpc", [], by decide⟩
  have hnote : RoleAt setting 0 lexed.lexemes (.note (some a)) (enum :: others) 0 :=
    @RoleAt.note _ _ _ _ ⟨enum :: others, .variable, []⟩ (by decide) rfl
  have henum : RoleAt setting 0 (enum :: others) (.declaration .variable []) [] 0 :=
    @RoleAt.declaration _ _ _ _ ⟨[], .variable, []⟩ (by decide) rfl
  have hcourse : Course setting 0 lexed.lexemes
      [⟨sign, [name], .note (some a)⟩, ⟨enum, others, .declaration .variable []⟩] :=
    @Course.cons _ _ _ ⟨sign, [name], _⟩ (enum :: others) _ hnote
      (@Course.cons _ _ _ ⟨enum, others, _⟩ [] _ henum .nil)
  have hnothing : (ofText rules ⟨"api.c"⟩ .input "@rpc\nenum E \x7b A \x7d;").isEmpty = true := by
    decide +kernel
  have haccounted := hall rules ⟨"api.c"⟩ .input _ lexed _ rfl hlexed hreads hcourse a ⟨1, 1⟩
    List.mem_cons_self
  rw [List.isEmpty_iff.mp hnothing] at haccounted
  rcases haccounted with ⟨d, hd, -⟩ | ⟨diagnostic, hmem, -⟩
  · cases hd
  · cases hmem

end Outline

end RemoteCalls
