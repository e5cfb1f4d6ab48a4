import RemoteCalls.Proofs.Catalog.Histories
import RemoteCalls.Proofs.Catalog.Names
import RemoteCalls.Proofs.Outline.Gathering

/-!
# Notes and their declarations

Each declaration at file scope gets the notes that are written in front of it, behind the last
construct that leaves none waiting, and behind these the notes of its own body that are not among
them. Detached notes are reported instead if they are refused. A note is lost only in front of a
declaration that declares nothing.
-/

namespace RemoteCalls

/-- Notes that are put together first make no difference. -/
theorem Note.union_union (into mid new : List Note) :
    union into (union mid new) = union (union into mid) new := by
  induction new generalizing mid with
  | nil => rfl
  | cons a new ih =>
    rw [union_cons, ih, union_cons]
    have hinsert : union into (insert mid a) = insert (union into mid) a := by
      by_cases ha : a ∈ mid
      · simp [insert, ha, mem_union]
      · rw [show insert mid a = mid ++ [a] from if_neg ha, union_append]
        rfl
    rw [hinsert]

/-- The notes of an annotated declaration are those in front of it, and behind them those of its
body that are not among them, each once. -/
theorem Declaration.notes_annotate {setting : Setting} {lexemes behind : List Lexeme}
    {d : Declaration} {body : List Note} (hd : d.BodyNotes setting lexemes behind body)
    (hnotes : d.notes = Note.union [] body) (attached : List Note) :
    (d.annotate attached).notes = attached ++ (body.removeAll attached).eraseDups := by
  have hunion : (d.annotate attached).notes = Note.union attached d.notes := by
    cases hd <;> rfl
  rw [hunion, hnotes, Note.union_union, Note.union_nil, Note.union_eq_append]

namespace Construct

variable {rules : NoteRules} {before between : List Construct} {c : Construct}

theorem sinceTaken_of_takesNotes (h : c.role.takesNotes = true) :
    sinceTaken (before ++ c :: between) = sinceTaken between := by
  unfold sinceTaken
  induction between using List.reverseRecOn with
  | nil => simp [List.rtakeWhile_concat_neg, h]
  | append_singleton between last ih =>
    rw [show before ++ c :: (between ++ [last]) = (before ++ c :: between) ++ [last] by simp,
      List.rtakeWhile_concat, List.rtakeWhile_concat, ih]

/-- What is written in front of a construct that leaves no note waiting does not matter behind
it. -/
theorem notesFor_of_takesNotes (h : c.role.takesNotes = true) (next : Construct) :
    notesFor rules (before ++ c :: between) next = notesFor rules between next := by
  simp only [notesFor, marksSince, sinceTaken_of_takesNotes h]

end Construct

namespace Outline

open Construct (marksSince notesFor findingsOf)

/-- How the notes in front of a declaration behind some constructs are associated with what it
declares. -/
structure Associated (setting : Setting) (before : List Construct) (c : Construct)
    (after : List Construct) (kind : DeclKind) (found : List Declaration) : Prop where
  /-- Where detached notes are attached, all of the notes belong to what is declared. -/
  attached : setting.rules.detached = .attach → c.findings setting before =
    found.map fun d => .declaration
      (d.annotate ((notesFor setting.rules before c).map (·.note)))
  /-- Where they are refused, each of them is reported once, and the others belong to what is
  declared. -/
  refused : setting.rules.detached = .refuse → c.findings setting before =
    (((notesFor setting.rules before c).filter (·.detached)).map fun p =>
      .diagnostic ⟨setting.place p.position, some kind, .detached p.note⟩) ++
    found.map fun d => .declaration
      (d.annotate (((notesFor setting.rules before c).filter (!·.detached)).map (·.note)))
  /-- Behind the notes in front of it a declaration has those of its own body that are not yet
  there. -/
  bodies : ∀ d ∈ found, ∃ body, d.BodyNotes setting (c.row ++ after.flatMap Construct.row)
      (after.flatMap Construct.row) body ∧
    ∀ attached, (d.annotate attached).notes = attached ++ (body.removeAll attached).eraseDups
  /-- The notes in front of the declaration and in front of all before it reach nothing behind
  it. -/
  apart : ∀ between next rest, after = between ++ next :: rest →
    notesFor setting.rules (before ++ c :: between) next = notesFor setting.rules between next

variable {setting : Setting} {lexemes : List Lexeme} {constructs : List Construct}

/-- What is declared has its role among the constructs of a file. -/
theorem RoleAt.declares {linkage linkage' : Nat} {behind : List Lexeme} {role : Role}
    (h : RoleAt setting linkage lexemes role behind linkage') {kind : DeclKind}
    {found : List Declaration} (hrole : role = .declaration kind found) :
    ∃ cursor, Reader.readExternal setting lexemes = .ok (found, cursor) ∧ cursor.rest = behind := by
  cases h with
  | declaration hfront hread =>
    cases hrole
    exact ⟨_, hread, rfl⟩
  | _ => cases hrole

/-- The declarations among the constructs of a file are associated with the notes in front of
them. -/
theorem Course.associated {linkage : Nat} {before after : List Construct} {c : Construct}
    (h : Course setting linkage lexemes (before ++ c :: after)) {kind : DeclKind}
    {found : List Declaration} (hrole : c.role = .declaration kind found) :
    Associated setting before c after kind found := by
  obtain ⟨_, _, hat⟩ := h.exists_roleAt
  obtain ⟨cursor, hread, hbehind⟩ := hat.declares hrole
  have hfindings : c.findings setting before =
      declarations setting kind (notesFor setting.rules before c) found := by
    rw [Construct.findings, hrole]
    rfl
  refine ⟨?_, ?_, ?_, ?_⟩
  · intro hattach
    have hne : (DetachedPolicy.attach == DetachedPolicy.refuse) = false := rfl
    simp [hfindings, declarations, PendingNote.refused, hattach, hne]
  · intro hrefuse
    simp [hfindings, declarations, PendingNote.refused, hrefuse]
  · intro d hd
    obtain ⟨body, hbody, hnotes, -⟩ := Reader.annotated_of_readExternal hread d hd
    rw [hbehind] at hbody
    exact ⟨body, hbody, Declaration.notes_annotate hbody hnotes⟩
  · intro between next rest _
    exact Construct.notesFor_of_takesNotes (by rw [hrole]; rfl) next

/-- What is found in a text is what is found at its constructs, and the reports on the notes that
are left at its end. -/
theorem ofText_of_course {rules : NoteRules} {file : Path} {origin : Origin} {text : String}
    {lexed : Lexed} (hlexed : Lexed.ofText text = .ok lexed)
    (hcourse : Course ⟨rules, file, origin, lexed.finish⟩ 0 lexed.lexemes constructs) :
    ofText rules file origin text =
      findingsOf ⟨rules, file, origin, lexed.finish⟩ [] constructs ++
        PendingNote.dangling ⟨rules, file, origin, lexed.finish⟩
          (Mark.notes (marksSince rules constructs ++
            lexed.closing.flatMap (Trivia.marks rules))) := by
  obtain ⟨hfound, hleft⟩ := @scan_of_course _ (start lexed.lexemes) _ [] hcourse rfl
  unfold ofText
  rw [hlexed]
  dsimp only
  rw [ofLexed_eq, hfound, hleft, PendingNote.absorb_notes, List.nil_append]

/-- Let a text be read without failures. It is a row of constructs, and each declaration among them
is associated with the notes in front of it: those behind the last declaration, placeholder or
include directive, in written order. What is found in the text is what is found at the constructs,
and at the end the notes that are left. -/
theorem ofText_associates {rules : NoteRules} {file : Path} {origin : Origin} {text : String}
    {lexed : Lexed} (hlexed : Lexed.ofText text = .ok lexed)
    (hreads : Unfailing ⟨rules, file, origin, lexed.finish⟩ (start lexed.lexemes)) :
    let setting : Setting := ⟨rules, file, origin, lexed.finish⟩
    ∃ constructs, Course setting 0 lexed.lexemes constructs ∧
      (∀ c ∈ constructs, ∀ found, c.role ≠ .failed found) ∧
      ofText rules file origin text =
        findingsOf setting [] constructs ++ PendingNote.dangling setting (Mark.notes
          (marksSince rules constructs ++ lexed.closing.flatMap (Trivia.marks rules))) ∧
      ∀ before c after kind found, constructs = before ++ c :: after →
        c.role = .declaration kind found → Associated setting before c after kind found := by
  intro setting
  obtain ⟨constructs, hcourse⟩ := exists_course setting (start lexed.lexemes)
  refine ⟨constructs, hcourse, hcourse.not_failed hreads, ofText_of_course hlexed hcourse, ?_⟩
  intro before c after kind found hconstructs hrole
  rw [hconstructs] at hcourse
  exact Course.associated hcourse hrole

/-- A function behind a comment, an attribute, a blank line and another attribute, with three marker
statements in its body, and a variable. -/
theorem ofText_associates_of_blank_line :
    let rules : NoteRules := ⟨["A", "B", "C", "D"], .refuse⟩
    let text := "// @A\n@B(x)\n\n@C\nint f(void) \x7b A; D(1); C; \x7d\nint g;\n"
    let lexed := Lexed.ofSegments .start 0 [] (Segment.cut 0 text.toList).1
    let setting : Setting := ⟨rules, ⟨"api.c"⟩, .input, lexed.finish⟩
    Lexed.ofText text = .ok lexed ∧ Unfailing setting (start lexed.lexemes) ∧
      (∃ constructs, Course setting 0 lexed.lexemes constructs ∧
        ∀ before c after kind found, constructs = before ++ c :: after →
          c.role = .declaration kind found → Associated setting before c after kind found) ∧
      (declared (ofText rules ⟨"api.c"⟩ .input text)).map (·.notes.map (·.text)) =
        [["@C", "@A", "@D(1)"], []] := by
  intro rules text lexed setting
  have hlexed : Lexed.ofText text = .ok lexed := by decide +kernel
  have hreads : Unfailing setting (start lexed.lexemes) := by
    refine .step (by decide +kernel) (by decide +kernel) ?_
    refine .step (by decide +kernel) (by decide +kernel) ?_
    refine .step (by decide +kernel) (by decide +kernel) ?_
    exact .step (by decide +kernel) (by decide +kernel) (.nil (by decide +kernel))
  obtain ⟨constructs, hcourse, -, -, hassociated⟩ := ofText_associates hlexed hreads
  exact ⟨hlexed, hreads, ⟨constructs, hcourse, hassociated⟩, by decide +kernel⟩

end Outline

end RemoteCalls
