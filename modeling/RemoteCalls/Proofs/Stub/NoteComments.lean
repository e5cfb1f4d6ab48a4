import RemoteCalls.Proofs.Outline.Markers
import RemoteCalls.Proofs.Outline.NoteSources
import RemoteCalls.Proofs.Stub.Uncommented
import RemoteCalls.Proofs.Token.Relisting

/-!
# Notes that are written as comments

A note is written as a comment, and so is a placeholder together with its place. The text is one
comment just if the mark that closes a comment is in none of them. The note is read again from the
comment if its arguments were read into lexemes, no directive stands in them, and their parentheses
match.
-/

namespace RemoteCalls

/-! ## Texts that are one comment -/

/-- At the end of a text without tokens stand all of its comments. -/
theorem Layout.comments_of_nil {position finish : Position} {segments : List Segment}
    {closing : List Trivia} (h : Layout position segments ⟨[], finish, closing⟩) :
    closing.filterMap Trivia.comment? = Segment.commentsAt position segments := by
  cases h with
  | finish _ hclosing => exact hclosing

namespace Lexed

/-- A text is one comment and nothing else. -/
def IsComment (text body : String) : Prop :=
  ∃ finish, ofText text = .ok ⟨[], finish, [.comment body .start]⟩

theorem toList_between (body : String) : ("/*" ++ body ++ "*/\n").toList =
    '/' :: '*' :: (body.toList ++ ['*', '/']) ++ ['\n'] := by
  simp

/-- The closing mark is not in what stands in a comment. -/
theorem not_infix_of_isComment {body : String} (h : IsComment ("/*" ++ body ++ "*/\n") body) :
    ¬ ['*', '/'] <:+: body.toList := by
  obtain ⟨finish, hread⟩ := h
  obtain ⟨hclosed, hlexed⟩ := ofText_eq_ok_iff.mp hread
  rw [toList_between, List.cons_append, List.cons_append] at hclosed hlexed
  cases hfound : Segment.commentBody (body.toList ++ ['*', '/'] ++ ['\n']) with
  | none =>
    rw [Segment.cut_of_error (Segment.first_of_commentBody_eq_none hfound)] at hclosed
    cases hclosed
  | some found =>
    have hfirst := Segment.first_of_commentBody hfound
    obtain ⟨⟨behind, hbehind⟩, -⟩ := Segment.covers_first hfirst
    rw [Segment.cut_of_ok hfirst hbehind.symm] at hlexed
    let segments := ⟨'/' :: '*' :: found ++ ['*', '/'], .comment (String.ofList found)⟩ ::
      (Segment.cut 0 behind).1
    have hlayout : Layout .start segments (ofSegments .start 0 [] segments) :=
      layout_ofSegments .start [] segments 0 []
        (fun _ hsegment => absurd hsegment List.not_mem_nil) rfl
    rw [← hlexed] at hlayout
    have hsame := hlayout.comments_of_nil
    obtain rfl : body = String.ofList found := congrArg Prod.fst (List.cons.inj hsame).1
    rw [String.toList_ofList]
    exact Segment.not_infix_of_commentBody hfound

/-- A text between the marks of a comment is one just if the closing mark is not in it. -/
theorem isComment_iff (body : String) :
    IsComment ("/*" ++ body ++ "*/\n") body ↔ ¬ ['*', '/'] <:+: body.toList := by
  refine ⟨not_infix_of_isComment, fun hopen => ?_⟩
  have hcut := Segment.cut_comment (@Segment.Stretch.blockComment body ['\n'] hopen)
  have hline : Segment.cut 0 ['\n'] = ([⟨['\n'], .newline⟩], none) := rfl
  rw [hline, ← toList_between] at hcut
  refine ⟨(Position.start.after ('/' :: '*' :: (body.toList ++ ['*', '/']))).after ['\n'],
    ofText_eq_ok_iff.mpr ⟨by rw [hcut], ?_⟩⟩
  rw [hcut]
  rfl

end Lexed

namespace Note

/-! ## Notes that are read again -/

/-- A note whose arguments can be written again: no directive is in one of them, and the parentheses
of their list match. -/
structure Relistable (a : Note) : Prop where
  plain : ∀ argument ∈ a.arguments, WithoutDirective argument
  parens : ∀ lexed, Lexed.ofText (", ".intercalate a.arguments) = .ok lexed →
    Lexeme.parensMatch 0 lexed.lexemes = true

/-- A note that stands in a comment of a file with arguments that are not read into lexemes, but cut
at their commas. -/
def CutAtCommas (lexed : Lexed) (a : Note) : Prop :=
  ∃ trivia ∈ lexed.trivia, ∃ body position inner fault, .comment body position ∈ trivia ∧
    a.StandsIn body.toList inner ∧ Lexed.ofChars inner = .error fault ∧
    a.arguments = Text.commaPieces inner

variable {rules : NoteRules} {a : Note}

/-- The arguments of a note of a file are those of a row, unless they are cut at their commas. -/
theorem WrittenInFile.exists_arguments {text : String} {lexed : Lexed}
    (hlexed : Lexed.ofText text = .ok lexed) (h : a.WrittenInFile lexed)
    (hread : ¬ a.CutAtCommas lexed) :
    ∃ row, Lexeme.Legible row ∧ a.arguments = Lexeme.arguments row := by
  cases h with
  | outside h =>
    obtain ⟨part, hpart, harguments⟩ := h
    exact ⟨part, (Lexed.legible_of_ofText hlexed).part hpart, harguments⟩
  | @inside trivia body position inner htrivia hcomment hstands harguments =>
    unfold textArguments at harguments
    split at harguments
    · next row hrow =>
      refine ⟨row.lexemes, @Lexed.legible_of_ofText (String.ofList inner) row ?_, harguments⟩
      rw [Lexed.ofText, String.toList_ofList]
      exact hrow
    · next fault hfault =>
      exact absurd ⟨trivia, htrivia, body, position, inner, fault, hcomment, hstands, hfault,
        harguments⟩ hread

/-- A note alone in a comment is read as the same note. -/
theorem ofComment_text (hmarker : rules.isMarker a.name = true)
    (hname : Configuration.isIdentifier a.name = true) {row : List Lexeme}
    (hrow : Lexeme.Legible row) (harguments : a.arguments = Lexeme.arguments row)
    (hagain : a.Relistable) :
    ofComment rules false 0 (" " ++ a.text ++ " ").toList = [a] := by
  have hnote : of? a.name a.arguments = some a := dif_pos a.name_not_blank
  have hspace : ∀ cs, ofComment rules false 0 (' ' :: cs) = ofComment rules false 0 cs :=
    fun _ => rfl
  by_cases hnone : a.arguments = []
  · have htext : (" " ++ a.text ++ " ").toList = ' ' :: '@' :: (a.name.toList ++ [' ']) := by
      simp [text, hnone]
    have hbegun : begun rules (a.name.toList ++ [' ']) = (some a, a.name.toList.length) := by
      unfold begun
      dsimp only
      rw [takeWhile_of_isIdentifier hname (by decide), String.ofList_toList, if_pos hmarker,
        List.drop_left, ← hnote, hnone]
      rfl
    rw [htext, hspace, ofComment_of_atSign, hbegun, ofComment_of_skipped]
    rfl
  · obtain ⟨read, hread, hsame, hbare⟩ :=
      Lexeme.ofText_arguments hrow (harguments ▸ hagain.plain)
    rw [← harguments] at hread hsame hbare
    have hwritten : (" " ++ a.text ++ " ").toList =
        ' ' :: ((noteText a.name (", ".intercalate a.arguments)).toList ++ [' ']) := by
      simp [text, noteText, hnone]
    obtain ⟨hclosed, hlexed⟩ := Lexed.ofText_eq_ok_iff.mp hread
    have hmatch := hagain.parens read hread
    rw [hlexed] at hmatch
    have hends := Segment.closedText_of_cut hclosed hbare hmatch [' ']
    have hchars : Lexed.ofChars (", ".intercalate a.arguments).toList = .ok read := hread
    have hgiven : textArguments (", ".intercalate a.arguments).toList = a.arguments := by
      rw [textArguments, hchars]
      exact hsame
    rw [hwritten, hspace, ofComment_of_closedText hmarker hname hends, hgiven, hnote]
    rfl

end Note

namespace Stub

open Lexed (IsComment)

/-! ## The comments that are written -/

theorem unlines_singleton (line : String) : unlines [line] = line ++ "\n" := by
  simp [unlines]

/-- What stands in the comment of a note. -/
def noteBody (a : Note) : String := " " ++ a.text ++ " "

/-- What stands in the comment of a placeholder. -/
def placeholderBody (p : Placeholder) : String :=
  " Autogenerated: " ++ p.note.text ++ " at " ++ p.place.text ++ " "

theorem ofNote_eq (a : Note) : ofNote a = "/*" ++ noteBody a ++ "*/\n" := by
  have hopening : "/* " = "/*" ++ " " := by decide +kernel
  have hclosing : " */" ++ "\n" = " " ++ "*/\n" := by decide +kernel
  unfold ofNote noteBody
  rw [unlines_singleton]
  -- comparing the literals themselves would take Lean through all of their characters
  generalize "/* " = opening at *
  subst hopening
  simp only [String.append_assoc, hclosing]

theorem ofPlaceholder_eq (p : Placeholder) :
    ofPlaceholder p = "/*" ++ placeholderBody p ++ "*/\n" := by
  have hopening : "/* Autogenerated: " = "/*" ++ " Autogenerated: " := by decide +kernel
  have hclosing : " */" ++ "\n" = " " ++ "*/\n" := by decide +kernel
  unfold ofPlaceholder placeholderBody
  rw [unlines_singleton]
  generalize "/* Autogenerated: " = opening at *
  subst hopening
  simp only [String.append_assoc, hclosing]

theorem not_close_of_not_mem {cs : List Char} (h : '*' ∉ cs) : ¬ ['*', '/'] <:+: cs :=
  fun hclose => h (hclose.mem (by simp))

/-- The text of a note is one comment just if no comment is closed in the note. -/
theorem isComment_ofNote (a : Note) :
    IsComment (ofNote a) (noteBody a) ↔ ¬ ['*', '/'] <:+: a.text.toList := by
  have hspace : ¬ ['*', '/'] <:+: " ".toList := not_close_of_not_mem (by decide)
  rw [ofNote_eq, Lexed.isComment_iff, noteBody]
  simp only [String.toList_append, Text.pair_infix_append_iff, hspace]
  simp

/-- The text of a placeholder is one comment just if no comment is closed in its note or in its
place. -/
theorem isComment_ofPlaceholder (p : Placeholder) :
    IsComment (ofPlaceholder p) (placeholderBody p) ↔
      ¬ ['*', '/'] <:+: p.note.text.toList ∧ ¬ ['*', '/'] <:+: p.place.text.toList := by
  have hfront : ¬ ['*', '/'] <:+: " Autogenerated: ".toList := not_close_of_not_mem (by decide)
  have hmiddle : ¬ ['*', '/'] <:+: " at ".toList := not_close_of_not_mem (by decide)
  have hspace : ¬ ['*', '/'] <:+: " ".toList := not_close_of_not_mem (by decide)
  have hlast : ∀ cs : List Char, (cs ++ " at ".toList).getLast? = some ' ' := by
    simp [List.getLast?_append]
  rw [ofPlaceholder_eq, Lexed.isComment_iff]
  unfold placeholderBody
  simp only [String.toList_append, Text.pair_infix_append_iff, hfront, hmiddle, hspace, hlast]
  simp

/-- A note that a file has, with a configured name, is written as one comment just if no comment is
closed in it, and so is a placeholder, with its place. From its comment the note is read again, if
it can be written again and was not cut at its commas. -/
theorem note_staysComment {config : Configuration} (hvalid : config.validated = .ok config)
    {file : Path} {origin : Origin} {text : String} {d : Declaration}
    (hd : .declaration d ∈ Outline.ofText config.noteRules file origin text) {a : Note}
    (ha : a ∈ d.recorded) (hmarker : config.noteRules.isMarker a.name = true) :
    ∃ lexed, Lexed.ofText text = .ok lexed ∧
      (IsComment (ofNote a) (noteBody a) ↔ ¬ ['*', '/'] <:+: a.text.toList) ∧
      (∀ p : Placeholder, p.note = a → (IsComment (ofPlaceholder p) (placeholderBody p) ↔
        ¬ ['*', '/'] <:+: a.text.toList ∧ ¬ ['*', '/'] <:+: p.place.text.toList)) ∧
      (a.Relistable → ¬ a.CutAtCommas lexed →
        Note.ofComment config.noteRules false 0 (noteBody a).toList = [a]) := by
  have hlexed : ∃ lexed, Lexed.ofText text = .ok lexed := by
    unfold Outline.ofText at hd
    split at hd
    · next lexed hread => exact ⟨lexed, hread⟩
    · cases List.mem_singleton.mp hd
  obtain ⟨lexed, hlexed⟩ := hlexed
  refine ⟨lexed, hlexed, isComment_ofNote a, ?_, ?_⟩
  · rintro p rfl
    exact isComment_ofPlaceholder p
  · intro hagain hread
    have hname := Configuration.isIdentifier_of_validated hvalid (List.contains_iff_mem.mp hmarker)
    have hwritten := Outline.writtenInFile_of_mem_ofText hlexed hd a ha
    obtain ⟨row, hrow, harguments⟩ := hwritten.exists_arguments hlexed hread
    exact Note.ofComment_text hmarker hname hrow harguments hagain

/-- A note on something in a list of what is declared. -/
theorem exists_recorded {found : List Finding} {a : Note}
    (h : a ∈ (Outline.declared found).flatMap Declaration.recorded) :
    ∃ d, .declaration d ∈ found ∧ a ∈ d.recorded := by
  obtain ⟨d, hd, ha⟩ := List.mem_flatMap.mp h
  exact ⟨d, Outline.mem_of_mem_declared hd, ha⟩

/-- A placeholder with a parenthesis in a literal, and with a comma inside of another argument. -/
theorem note_staysComment_of_placeholder :
    let config := Configuration.ofMarkers ["rpc"]
    let text := "rpc(\"a)\", f(b, c));\n"
    let a : Note := ⟨"rpc", ["\"a)\"", "f(b, c)"], by decide⟩
    let p : Placeholder := ⟨a, .input, ⟨⟨"api.c"⟩, .start⟩⟩
    config.validated = .ok config ∧
      (∃ d, .declaration d ∈ Outline.ofText config.noteRules ⟨"api.c"⟩ .input text ∧
        a ∈ d.recorded) ∧
      config.noteRules.isMarker a.name = true ∧
      IsComment (ofNote a) (noteBody a) ∧ IsComment (ofPlaceholder p) (placeholderBody p) ∧
      Note.ofComment config.noteRules false 0 (noteBody a).toList = [a] := by
  intro config text a p
  have hvalid : config.validated = .ok config := by decide
  obtain ⟨d, hd, ha⟩ : ∃ d, .declaration d ∈
      Outline.ofText config.noteRules ⟨"api.c"⟩ .input text ∧ a ∈ d.recorded :=
    exists_recorded (by decide +kernel)
  have hmarker : config.noteRules.isMarker a.name = true := by decide
  obtain ⟨lexed, hlexed, hnote, hplaceholder, hagain⟩ := note_staysComment hvalid hd ha hmarker
  have hopen : ¬ ['*', '/'] <:+: a.text.toList := by decide +kernel
  have hplace : ¬ ['*', '/'] <:+: p.place.text.toList := by decide +kernel
  refine ⟨hvalid, ⟨d, hd, ha⟩, hmarker, hnote.mpr hopen, (hplaceholder p rfl).mpr ⟨hopen, hplace⟩,
    hagain ⟨by decide +kernel, ?_⟩ ?_⟩
  · intro row hrow
    obtain ⟨-, rfl⟩ := Lexed.ofText_eq_ok_iff.mp hrow
    decide +kernel
  · -- there is no comment in the file
    obtain ⟨-, rfl⟩ := Lexed.ofText_eq_ok_iff.mp hlexed
    rintro ⟨trivia, htrivia, body, position, inner, fault, hcomment, -⟩
    have hnone : ∀ trivia ∈ (Lexed.ofSegments .start 0 []
        (Segment.cut 0 text.toList).1).trivia, trivia = [] := by
      decide +kernel
    rw [hnone trivia htrivia] at hcomment
    cases hcomment

/-- A placeholder can have the argument `"*/"`, and then the text of its note is no comment. -/
theorem not_note_staysComment_of_close : ¬ ∀ (config : Configuration) (file : Path)
    (origin : Origin) (text : String) (d : Declaration) (a : Note),
    config.validated = .ok config →
    .declaration d ∈ Outline.ofText config.noteRules file origin text → a ∈ d.recorded →
    config.noteRules.isMarker a.name = true → ∃ body, IsComment (ofNote a) body := by
  intro h
  let config := Configuration.ofMarkers ["rpc"]
  let a : Note := ⟨"rpc", ["\"*/\""], by decide⟩
  obtain ⟨d, hd, ha⟩ : ∃ d, .declaration d ∈
      Outline.ofText config.noteRules ⟨"api.c"⟩ .input "rpc(\"*/\");\n" ∧ a ∈ d.recorded :=
    exists_recorded (by decide +kernel)
  obtain ⟨body, finish, hread⟩ := h config ⟨"api.c"⟩ .input _ d a (by decide) hd ha (by decide)
  have hunclosed : (Segment.cut 0 (ofNote a).toList).2 ≠ none := by decide +kernel
  exact hunclosed (Lexed.ofText_eq_ok_iff.mp hread).1

end Stub

end RemoteCalls
