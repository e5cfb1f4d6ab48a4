import RemoteCalls.Proofs.Outline.Association
import RemoteCalls.Proofs.Outline.NoteForms

/-!
# Configured markers

The markers of a usable configuration have the form of C identifiers. Such a word is read as an
identifier just if it is no keyword. A marker that is none can be used in both ways: an attribute
with its name annotates the declaration behind it, and a statement that is its name alone is a
placeholder. With a keyword the attribute is reported, and the statement is no placeholder.
-/

namespace RemoteCalls

namespace Token

/-- The words that are no identifiers. -/
def keywords : List String :=
  builtinWords ++ qualifierWords ++ storageWords ++ ["struct", "union", "enum", "typedef"]

/-- A word is read as an identifier just if it is no keyword. -/
theorem ofWord_eq_identifier_iff {word : String} : ofWord word = .identifier word ↔
    word ∉ keywords := by
  unfold ofWord keywords
  simp only [List.mem_append, List.contains_iff_mem, List.mem_cons, List.not_mem_nil, or_false]
  repeat' split
  all_goals simp_all

/-- A keyword is no name at all. -/
theorem ofWord_ne_identifier {word : String} (h : word ∈ keywords) (name : String) :
    ofWord word ≠ .identifier name := by
  intro hname
  have htext : name = word := by
    have htext := text_ofWord word
    rwa [hname] at htext
  exact ofWord_eq_identifier_iff.mp (htext ▸ hname) h

end Token

/-- A word with no more of it behind is cut off in one piece. -/
theorem Segment.cut_word {word : String} (hword : Configuration.isIdentifier word = true)
    {rest : List Char} (hrest : ∀ d ∈ rest.head?, isWordChar d = false) :
    cut 0 (word.toList ++ rest) =
      (⟨word.toList, .token (.ofWord word)⟩ :: (cut 0 rest).1, (cut 0 rest).2) := by
  obtain ⟨c, tail, hchars, hstart, htail⟩ := exists_chars_of_isIdentifier hword
  have hend : (tail ++ rest).takeWhile isWordChar = tail := by
    rw [List.takeWhile_append_of_pos htail]
    cases rest with
    | nil => simp
    | cons d rest => simp [hrest d rfl]
  have hfirst := firstToken_of_isWordStart hstart (tail ++ rest)
  rw [hend, ← hchars, String.ofList_toList] at hfirst
  rw [hchars] at hfirst ⊢
  exact cut_of_ok hfirst rfl

namespace Configuration

variable {config : Configuration} {marker : String}

/-- The markers of a usable configuration have the form of identifiers. -/
theorem isIdentifier_of_validated (h : config.validated = .ok config)
    (hmarker : marker ∈ config.markers) : isIdentifier marker = true := by
  have hfault : config.fault? = none := by
    unfold validated at h
    split at h
    · cases h
    · assumption
  by_contra hbad
  unfold fault? at hfault
  split at hfault
  · cases hfault
  · rw [Option.map_eq_none_iff, List.find?_eq_none] at hfault
    have hgood := hfault marker hmarker
    simp [hbad] at hgood

theorem isMarker_of_mem (hmarker : marker ∈ config.markers) :
    config.noteRules.isMarker marker = true :=
  List.contains_iff_mem.mpr hmarker

end Configuration

namespace Outline

variable {setting : Setting} {linkage linkage' : Nat} {sign word semicolon : Lexeme}
  {row behind : List Lexeme} {role : Role} {marker : String}

/-! ## The constructs that begin with a marker -/

/-- An attribute at file scope is a note, or it cannot be read. -/
theorem RoleAt.note_cases {lexemes : List Lexeme}
    (h : RoleAt setting linkage lexemes role behind linkage')
    (hfront : Front.of setting.rules lexemes = .note) :
    (∃ note cursor, attributeNote setting ⟨lexemes, .variable, []⟩ = .ok (note, cursor) ∧
      role = .note note) ∨
    (∃ diagnostic, attributeNote setting ⟨lexemes, .variable, []⟩ =
      .error (.malformed diagnostic) ∧ role = .brokenNote diagnostic) ∨
    (∃ diagnostic, attributeNote setting ⟨lexemes, .variable, []⟩ = .error (.fatal diagnostic) ∧
      role = .brokenNote diagnostic ∧ behind = []) := by
  cases h with
  | note _ hread => exact .inl ⟨_, _, hread, rfl⟩
  | malformedNote _ hread => exact .inr (.inl ⟨_, hread, rfl⟩)
  | fatalNote _ hread => exact .inr (.inr ⟨_, hread, rfl, rfl⟩)
  | failed hfails => cases hfails <;> simp_all
  | _ => simp_all

/-- A marker statement at file scope that has a note is a placeholder. -/
theorem RoleAt.placeholder_of_front {lexemes : List Lexeme} {note : Note} {cursor : Cursor}
    (h : RoleAt setting linkage lexemes role behind linkage')
    (hfront : Front.of setting.rules lexemes = .marker)
    (hread : Reader.marker setting ⟨lexemes, .variable, []⟩ = .ok (some note, cursor)) :
    role = .placeholder note := by
  cases h with
  | failed hfails => cases hfails <;> simp_all
  | _ => simp_all

/-- Placeholders begin with names. -/
theorem RoleAt.front_of_placeholder {lexemes : List Lexeme} {note : Note}
    (h : RoleAt setting linkage lexemes role behind linkage') (hrole : role = .placeholder note) :
    Front.of setting.rules lexemes = .marker := by
  cases h with
  | placeholder hfront _ => exact hfront
  | _ => cases hrole

theorem Front.of_atSign (rules : NoteRules) (hsign : sign.token = .atSign) :
    Front.of rules (sign :: row) = .note := by
  unfold Front.of
  rw [Reader.headToken, hsign]
  rfl

/-- Reading arguments fails at the end of the file only. -/
theorem noteArguments_error {cursor : Cursor} {failure : Failure}
    (h : noteArguments setting cursor = .error failure) :
    ∃ diagnostic, failure = .fatal diagnostic := by
  rw [noteArguments_apply] at h
  split at h
  · rw [Reader.bind_apply, Reader.group_apply] at h
    cases hgroup : Lexeme.splitGroup 0 cursor.rest.tail with
    | some split =>
      rw [hgroup] at h
      cases h
    | none =>
      rw [hgroup] at h
      cases h
      exact ⟨_, rfl⟩
  · cases h

/-- An attribute with the name of a marker is a note of this name, unless its parentheses are open
to the end of the file. -/
theorem RoleAt.note_of_marker
    (h : RoleAt setting linkage (sign :: word :: row) role behind linkage')
    (hsign : sign.token = .atSign) (hword : word.token = .identifier marker)
    (hmarker : setting.rules.isMarker marker = true)
    (hname : Configuration.isIdentifier marker = true) :
    (∃ note, role = .note (some note) ∧ note.name = marker) ∨ behind = [] := by
  obtain ⟨token, position, trivia⟩ := word
  cases hword
  have hrun := attributeNote_cons setting sign marker position trivia row
  have hcases := h.note_cases (Front.of_atSign setting.rules hsign)
  rw [hrun] at hcases
  cases harguments : noteArguments setting ⟨row, .variable, []⟩ with
  | ok result =>
    obtain ⟨note, hnote, hnamed, -⟩ := Note.exists_of_isIdentifier hname result.1
    left
    simp only [harguments, hmarker, if_true, hnote] at hcases
    obtain ⟨_, _, hread, rfl⟩ | ⟨_, hread, -⟩ | ⟨_, hread, -, -⟩ := hcases
    · cases hread
      exact ⟨note, rfl, hnamed⟩
    · cases hread
    · cases hread
  | error failure =>
    obtain ⟨diagnostic, rfl⟩ := noteArguments_error harguments
    right
    simp only [harguments] at hcases
    obtain ⟨_, _, hread, -⟩ | ⟨_, hread, -⟩ | ⟨_, -, -, hbehind⟩ := hcases
    · cases hread
    · cases hread
    · exact hbehind

/-- An attribute whose name is no identifier is reported at its place. -/
theorem RoleAt.brokenNote_of_ne_identifier
    (h : RoleAt setting linkage (sign :: word :: row) role behind linkage')
    (hsign : sign.token = .atSign) (hword : ∀ name, word.token ≠ .identifier name) :
    role = .brokenNote
      ⟨setting.place sign.position, some .placeholder, .expected .noteName word.token⟩ := by
  have hrun : attributeNote setting ⟨sign :: word :: row, .variable, []⟩ = .error (.malformed
      ⟨setting.place sign.position, some .placeholder, .expected .noteName word.token⟩) := by
    obtain ⟨token, position, trivia⟩ := word
    cases token with
    | identifier name => exact absurd rfl (hword name)
    | _ => rfl
  have hcases := h.note_cases (Front.of_atSign setting.rules hsign)
  rw [hrun] at hcases
  obtain ⟨_, _, hread, -⟩ | ⟨_, hread, hrole⟩ | ⟨_, hread, -, -⟩ := hcases
  · cases hread
  · cases hread
    exact hrole
  · cases hread

/-- A marker with a semicolon behind it is a placeholder. -/
theorem RoleAt.placeholder_of_marker
    (h : RoleAt setting linkage (word :: semicolon :: row) role behind linkage')
    (hword : word.token = .identifier marker) (hsemicolon : semicolon.token = .semicolon)
    (hmarker : setting.rules.isMarker marker = true)
    (hname : Configuration.isIdentifier marker = true) :
    ∃ note, role = .placeholder note ∧ note.name = marker ∧ note.arguments = [] := by
  obtain ⟨note, hnote, hnamed, harguments⟩ := Note.exists_of_isIdentifier hname []
  have hfront : Front.of setting.rules (word :: semicolon :: row) = .marker := by
    unfold Front.of
    rw [List.tail_cons, Reader.headToken, Reader.headToken, hword, hsemicolon]
    simp [Front.ofTokens, beginsLinkage, Reader.beginsMarker, hmarker]
  have hread : Reader.marker setting ⟨word :: semicolon :: row, .variable, []⟩ =
      .ok (some note, ⟨row, .variable, []⟩) := by
    obtain ⟨token, position, trivia⟩ := word
    obtain ⟨token', position', trivia'⟩ := semicolon
    cases hword
    cases hsemicolon
    rw [← hnote]
    rfl
  exact ⟨note, h.placeholder_of_front hfront hread, hnamed, harguments⟩

/-- A marker statement begins with the name of a marker. -/
theorem Front.beginsMarker_of_ofTokens {rules : NoteRules} {first second third : Token}
    (h : Front.ofTokens rules first second third = .marker) :
    Reader.beginsMarker rules first second = true := by
  unfold ofTokens at h
  split at h
  any_goals cases h
  by_contra hbegins
  rw [if_neg hbegins] at h
  repeat' split at h
  all_goals cases h

/-- What begins with a word that is no identifier is no placeholder. -/
theorem RoleAt.ne_placeholder (h : RoleAt setting linkage (word :: row) role behind linkage')
    (hword : ∀ name, word.token ≠ .identifier name) (note : Note) : role ≠ .placeholder note := by
  intro hrole
  have hbegins := Front.beginsMarker_of_ofTokens (h.front_of_placeholder hrole)
  rw [List.tail_cons, Reader.headToken] at hbegins
  unfold Reader.beginsMarker at hbegins
  split at hbegins
  · exact hword _ (by assumption)
  · exact hword _ (by assumption)
  · cases hbegins

end Outline

/-! ## The note of an attribute in front of a declaration -/

namespace Construct

variable {rules : NoteRules} {before between : List Construct} {c d : Construct} {note : Note}

/-- Constructs that leave notes waiting leave those in front of them. -/
theorem marksSince_append (h : ∀ e ∈ between, e.role.takesNotes = false) :
    marksSince rules (before ++ between) =
      marksSince rules before ++ between.flatMap (marks rules) := by
  induction between using List.reverseRecOn with
  | nil => simp
  | append_singleton between last ih =>
    have hlast : last.role.takesNotes = false := h last (by simp)
    have hfront := ih fun e he => h e (List.mem_append_left _ he)
    unfold marksSince sinceTaken at hfront ⊢
    rw [← List.append_assoc, List.rtakeWhile_concat_pos _ _ _ (by simp [hlast]),
      List.flatMap_append, hfront]
    simp

/-- The note of an attribute is among the notes for the next declaration. It is detached if a blank
line is behind it. -/
theorem mem_notesFor_of_note (hc : c.role = .note (some note))
    (hbetween : ∀ e ∈ between, e.role.takesNotes = false) :
    ⟨note, c.first.position, decide
        (.blankLine ∈ between.flatMap (marks rules) ++ d.marksInFront rules)⟩ ∈
      notesFor rules (before ++ c :: between) d := by
  have hown : marks rules c = c.marksInFront rules ++ [.note note c.first.position] := by
    unfold marks ownMark
    rw [hc]
  have hall : ∀ e ∈ c :: between, e.role.takesNotes = false := by
    refine List.forall_mem_cons.mpr ⟨?_, hbetween⟩
    rw [hc]
    rfl
  have hmarks : marksSince rules (before ++ c :: between) ++ d.marksInFront rules =
      (marksSince rules before ++ c.marksInFront rules) ++
        .note note c.first.position ::
          (between.flatMap (marks rules) ++ d.marksInFront rules) := by
    rw [marksSince_append hall, List.flatMap_cons, hown]
    simp
  unfold notesFor
  rw [hmarks, Mark.notes_append, Mark.notes]
  exact List.mem_append_right _ (List.mem_cons_self ..)

end Construct

namespace Outline

/-- A marker can be used as an attribute: the declaration behind it is annotated with a note of this
name, unless a blank line stands between them and detached notes are refused. -/
def Annotates (rules : NoteRules) (marker : String) : Prop :=
  ∀ {file : Path} {origin : Origin} {text : String} {lexed : Lexed}
    {before between after : List Construct} {c d : Construct} {kind : DeclKind}
    {found : List Declaration},
    Lexed.ofText text = .ok lexed →
    Course ⟨rules, file, origin, lexed.finish⟩ 0 lexed.lexemes
      (before ++ c :: (between ++ d :: after)) →
    [.atSign, .ofWord marker] <+:
      Lexeme.tokens ((c :: (between ++ d :: after)).flatMap Construct.row) →
    (∀ e ∈ between, e.role.takesNotes = false) →
    d.role = .declaration kind found →
    (rules.detached = .attach ∨
      .blankLine ∉ between.flatMap (Construct.marks rules) ++ d.marksInFront rules) →
    ∀ x ∈ found, ∃ attached, .declaration (x.annotate attached) ∈ ofText rules file origin text ∧
      ∃ note ∈ attached, note.name = marker

/-- A marker can be used as a statement: behind its name a semicolon makes a placeholder. -/
def MakesPlaceholders (rules : NoteRules) (marker : String) : Prop :=
  ∀ {file : Path} {origin : Origin} {text : String} {lexed : Lexed}
    {before after : List Construct} {c : Construct},
    Lexed.ofText text = .ok lexed →
    Course ⟨rules, file, origin, lexed.finish⟩ 0 lexed.lexemes (before ++ c :: after) →
    [.ofWord marker, .semicolon] <+: Lexeme.tokens ((c :: after).flatMap Construct.row) →
    ∃ note : Note, note.name = marker ∧ note.arguments = [] ∧
      .declaration (.placeholder ⟨note, origin, ⟨file, c.first.position⟩⟩) ∈
        ofText rules file origin text

/-- A marker cannot be used: as an attribute it is reported, and as a statement it is no
placeholder. -/
def Refuses (rules : NoteRules) (marker : String) : Prop :=
  ∀ {file : Path} {origin : Origin} {text : String} {lexed : Lexed}
    {before after : List Construct} {c : Construct},
    Lexed.ofText text = .ok lexed →
    Course ⟨rules, file, origin, lexed.finish⟩ 0 lexed.lexemes (before ++ c :: after) →
    ([.atSign, .ofWord marker] <+: Lexeme.tokens ((c :: after).flatMap Construct.row) →
      (∀ note, c.role ≠ .note note) ∧
      .diagnostic ⟨⟨file, c.first.position⟩, some .placeholder,
          .expected .noteName (.ofWord marker)⟩ ∈ ofText rules file origin text) ∧
    ([.ofWord marker, .semicolon] <+: Lexeme.tokens ((c :: after).flatMap Construct.row) →
      ∀ note, c.role ≠ .placeholder note)

section

variable {rules : NoteRules} {setting : Setting} {marker : String}

/-- Two tokens in front of a row are those of its first two lexemes. -/
theorem exists_pair_of_prefix {first second : Token} {row : List Lexeme}
    (h : [first, second] <+: Lexeme.tokens row) : ∃ a b rest, row = a :: b :: rest ∧
      a.token = first ∧ b.token = second := by
  obtain ⟨more, hmore⟩ := h
  rcases row with _ | ⟨a, _ | ⟨b, rest⟩⟩
  · cases hmore
  · cases hmore
  · cases hmore
    exact ⟨a, b, rest, rfl, rfl, rfl⟩

/-- A construct of a file has its role in front of the lexemes from there on, the first of which is
its own. -/
theorem Course.roleAt_pair {linkage : Nat} {lexemes : List Lexeme}
    {before after : List Construct} {c : Construct} {first second : Token}
    (h : Course setting linkage lexemes (before ++ c :: after))
    (hfront : [first, second] <+: Lexeme.tokens ((c :: after).flatMap Construct.row)) :
    ∃ word rest linkage linkage', c.first.token = first ∧ word.token = second ∧
      RoleAt setting linkage (c.first :: word :: rest) c.role (after.flatMap Construct.row)
        linkage' := by
  obtain ⟨a, b, rest, hrow, ha, hb⟩ := exists_pair_of_prefix hfront
  obtain ⟨linkage, linkage', hrole⟩ := h.exists_roleAt
  rw [List.flatMap_cons] at hrow
  obtain ⟨rfl, -⟩ := List.cons.inj hrow
  rw [hrow] at hrole
  exact ⟨b, rest, linkage, linkage', ha, hb, hrole⟩

/-- What is found at one construct of a file is found in the file. -/
theorem mem_ofText_of_course {file : Path} {origin : Origin} {text : String} {lexed : Lexed}
    {before after : List Construct} {c : Construct} {finding : Finding}
    (hlexed : Lexed.ofText text = .ok lexed)
    (hcourse : Course ⟨rules, file, origin, lexed.finish⟩ 0 lexed.lexemes (before ++ c :: after))
    (hfinding : finding ∈ c.findings ⟨rules, file, origin, lexed.finish⟩ before) :
    finding ∈ ofText rules file origin text := by
  rw [ofText_of_course hlexed hcourse]
  exact List.mem_append_left _
    (Construct.mem_findingsOf.mpr ⟨before, c, after, rfl, by simpa using hfinding⟩)

/-- A marker that is an identifier annotates the declaration behind its attribute. -/
theorem annotates_of_not_keyword (hmarker : rules.isMarker marker = true)
    (hname : Configuration.isIdentifier marker = true)
    (hword : Token.ofWord marker = .identifier marker) : Annotates rules marker := by
  intro file origin text lexed before between after c d kind found hlexed hcourse hfront hbetween
    hd hline x hx
  obtain ⟨word, rest, _, _, hsign, hword', hrole⟩ := hcourse.roleAt_pair hfront
  have hnote := hrole.note_of_marker hsign (hword'.trans hword) hmarker hname
  obtain ⟨note, hc, hnamed⟩ : ∃ note, c.role = .note (some note) ∧ note.name = marker := by
    refine hnote.resolve_right ?_
    simp [Construct.row]
  have hmem : _ ∈ Construct.notesFor rules (before ++ c :: between) d :=
    Construct.mem_notesFor_of_note hc hbetween
  have hassociate : before ++ c :: (between ++ d :: after) =
      (before ++ c :: between) ++ d :: after := by simp
  rw [hassociate] at hcourse
  have hassociated := hcourse.associated hd
  suffices h : ∃ attached, .declaration (x.annotate attached) ∈
      d.findings ⟨rules, file, origin, lexed.finish⟩ (before ++ c :: between) ∧ note ∈ attached by
    obtain ⟨attached, hfound, hattached⟩ := h
    exact ⟨attached, mem_ofText_of_course hlexed hcourse hfound, note, hattached, hnamed⟩
  cases hpolicy : rules.detached with
  | attach =>
    let waiting := Construct.notesFor rules (before ++ c :: between) d
    refine ⟨waiting.map (·.note), ?_, List.mem_map.mpr ⟨_, hmem, rfl⟩⟩
    rw [hassociated.attached hpolicy]
    exact List.mem_map_of_mem hx
  | refuse =>
    have hkept : ¬.blankLine ∈ between.flatMap (Construct.marks rules) ++ d.marksInFront rules :=
      hline.resolve_left (by simp [hpolicy])
    let waiting := Construct.notesFor rules (before ++ c :: between) d
    refine ⟨(waiting.filter (!·.detached)).map (·.note), ?_,
      List.mem_map.mpr ⟨_, List.mem_filter.mpr ⟨hmem, ?_⟩, rfl⟩⟩
    · rw [hassociated.refused hpolicy]
      exact List.mem_append_right _ (List.mem_map_of_mem hx)
    · simpa using hkept

/-- A marker that is an identifier makes placeholders. -/
theorem makesPlaceholders_of_not_keyword (hmarker : rules.isMarker marker = true)
    (hname : Configuration.isIdentifier marker = true)
    (hword : Token.ofWord marker = .identifier marker) : MakesPlaceholders rules marker := by
  intro file origin text lexed before after c hlexed hcourse hfront
  obtain ⟨semicolon, rest, _, _, hfirst, hsemicolon, hrole⟩ := hcourse.roleAt_pair hfront
  obtain ⟨note, hc, hnamed, harguments⟩ :=
    hrole.placeholder_of_marker (hfirst.trans hword) hsemicolon hmarker hname
  refine ⟨note, hnamed, harguments, mem_ofText_of_course hlexed hcourse ?_⟩
  unfold Construct.findings
  rw [hc]
  exact List.mem_append_right _ (List.mem_singleton_self _)

/-- A keyword is no marker for the reader, whatever the configuration says. -/
theorem refuses_of_keyword (hkeyword : marker ∈ Token.keywords) : Refuses rules marker := by
  intro file origin text lexed before after c hlexed hcourse
  constructor
  · intro hfront
    obtain ⟨word, rest, _, _, hsign, hword, hrole⟩ := hcourse.roleAt_pair hfront
    have hc := hrole.brokenNote_of_ne_identifier hsign
      (by rw [hword]; exact Token.ofWord_ne_identifier hkeyword)
    rw [hword] at hc
    constructor
    · intro note hnote
      rw [hnote] at hc
      cases hc
    · refine mem_ofText_of_course hlexed hcourse ?_
      unfold Construct.findings
      rw [hc]
      exact List.mem_singleton_self _
  · intro hfront
    obtain ⟨semicolon, rest, _, _, hfirst, -, hrole⟩ := hcourse.roleAt_pair hfront
    exact hrole.ne_placeholder (by rw [hfirst]; exact Token.ofWord_ne_identifier hkeyword)

end

/-- A marker of a usable configuration is read as one word. It can be used just if it is no keyword:
then attributes with its name annotate what is declared behind them, and statements of its name
are placeholders. -/
theorem marker_usable {config : Configuration} {marker : String}
    (hvalid : config.validated = .ok config) (hmarker : marker ∈ config.markers) :
    (∀ rest : List Char, (∀ d ∈ rest.head?, Segment.isWordChar d = false) →
      Segment.cut 0 (marker.toList ++ rest) =
        (⟨marker.toList, .token (.ofWord marker)⟩ :: (Segment.cut 0 rest).1,
          (Segment.cut 0 rest).2)) ∧
    (marker ∉ Token.keywords → Token.ofWord marker = .identifier marker ∧
      Annotates config.noteRules marker ∧ MakesPlaceholders config.noteRules marker) ∧
    (marker ∈ Token.keywords → Refuses config.noteRules marker) := by
  have hname := Configuration.isIdentifier_of_validated hvalid hmarker
  have hlisted := Configuration.isMarker_of_mem hmarker
  refine ⟨fun rest hrest => Segment.cut_word hname hrest, ?_, refuses_of_keyword⟩
  intro hkeyword
  have hword := Token.ofWord_eq_identifier_iff.mpr hkeyword
  exact ⟨hword, annotates_of_not_keyword hlisted hname hword,
    makesPlaceholders_of_not_keyword hlisted hname hword⟩

/-- A configuration with a name and a keyword. -/
theorem marker_usable_of_two :
    let config := Configuration.ofMarkers ["rpc", "int"]
    config.validated = .ok config ∧ "rpc" ∈ config.markers ∧ "int" ∈ config.markers ∧
      Annotates config.noteRules "rpc" ∧ MakesPlaceholders config.noteRules "rpc" ∧
      Refuses config.noteRules "int" := by
  intro config
  have hvalid : config.validated = .ok config := by decide
  have hname : "rpc" ∈ config.markers := by decide
  have hkeyword : "int" ∈ config.markers := by decide
  obtain ⟨-, hannotates, hplaceholders⟩ := (marker_usable hvalid hname).2.1 (by decide)
  exact ⟨hvalid, hname, hkeyword, hannotates, hplaceholders,
    (marker_usable hvalid hkeyword).2.2 (by decide)⟩

/-- A usable configuration can have the marker `int`, and then `int;` makes no placeholder. -/
theorem not_marker_usable_of_int : ¬ ∀ (config : Configuration) (marker : String),
    config.validated = .ok config → marker ∈ config.markers →
      Annotates config.noteRules marker ∧ MakesPlaceholders config.noteRules marker := by
  intro h
  let config := Configuration.ofMarkers ["int"]
  let lexed := Lexed.ofSegments .start 0 [] (Segment.cut 0 "int;".toList).1
  have hlexed : Lexed.ofText "int;" = .ok lexed := rfl
  obtain ⟨constructs, hcourse⟩ :=
    exists_course ⟨config.noteRules, ⟨"api.c"⟩, .input, lexed.finish⟩ (start lexed.lexemes)
  have hrow : constructs.flatMap Construct.row = lexed.lexemes := hcourse.flatMap_row
  obtain ⟨c, after, rfl⟩ : ∃ c after, constructs = c :: after := by
    refine List.exists_cons_of_ne_nil fun hnil => ?_
    rw [hnil] at hrow
    cases hrow
  have hfirst : Course ⟨config.noteRules, ⟨"api.c"⟩, .input, lexed.finish⟩ 0 lexed.lexemes
      ([] ++ c :: after) := hcourse
  obtain ⟨note, -, -, hfound⟩ := (h config "int" (by decide) (by decide)).2 hlexed hfirst
    (by rw [hrow]; decide)
  have hnothing : ofText config.noteRules ⟨"api.c"⟩ .input "int;" = [] := by decide +kernel
  rw [hnothing] at hfound
  exact absurd hfound List.not_mem_nil

end Outline

end RemoteCalls
