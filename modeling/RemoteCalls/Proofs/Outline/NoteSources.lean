import RemoteCalls.Proofs.Outline.Functions
import RemoteCalls.Proofs.Outline.Gathering
import RemoteCalls.Proofs.Outline.NoteForms

/-!
# Where notes are written

The notes that a file has on its declarations, and those that are placeholders, are written in the
file: their arguments are those of a part of its lexemes, or they stand in one of its comments.
-/

namespace RemoteCalls

namespace Note

variable {rules : NoteRules} {afterWord : Bool} {a : Note} {cs : List Char}

/-! ## Notes in comments -/

/-- A note stands in a text with the given characters between its parentheses. -/
def StandsIn (body : List Char) (a : Note) (inner : List Char) : Prop :=
  ∃ before after, body = before ++ '@' :: (a.name.toList ++ '(' :: (inner ++ ')' :: after))

theorem StandsIn.cons {body inner : List Char} (h : a.StandsIn body inner) (c : Char) :
    a.StandsIn (c :: body) inner := by
  obtain ⟨before, after, rfl⟩ := h
  exact ⟨c :: before, after, rfl⟩

/-- What stands in front of a closing parenthesis is a piece of the text. -/
theorem closedText_eq_some {depth : Nat} {quote : Option Char} {escaped : Bool} {inner : List Char}
    (h : closedText depth quote escaped cs = some inner) : ∃ after, cs = inner ++ ')' :: after := by
  induction cs generalizing depth quote escaped inner with
  | nil => cases quote <;> cases h
  | cons c cs ih =>
    cases quote with
    | some quote =>
      obtain ⟨rest, hrest, rfl⟩ := Option.map_eq_some_iff.mp h
      obtain ⟨after, rfl⟩ := ih hrest
      exact ⟨after, rfl⟩
    | none =>
      unfold closedText at h
      split at h
      · next hends =>
        cases h
        obtain ⟨rfl, -⟩ := hends
        exact ⟨cs, rfl⟩
      · obtain ⟨rest, hrest, rfl⟩ := Option.map_eq_some_iff.mp h
        obtain ⟨after, rfl⟩ := ih hrest
        exact ⟨after, rfl⟩

/-- A note that begins behind an at sign has no arguments, or has them in parentheses. -/
theorem begun_eq_some (h : (begun rules cs).1 = some a) : a.arguments = [] ∨
    ∃ inner after, cs = a.name.toList ++ '(' :: (inner ++ ')' :: after) ∧
      a.arguments = textArguments inner := by
  let name := cs.takeWhile Segment.isWordChar
  obtain ⟨rest, hrest⟩ : name <+: cs := List.takeWhile_prefix _
  have hdrop : cs.drop name.length = rest := by rw [← hrest, List.drop_left]
  unfold begun at h
  dsimp only at h
  split at h
  · split at h
    · next inner hparen =>
      obtain ⟨hname, harguments⟩ := of?_eq_some h
      refine .inr ⟨inner, ?_⟩
      rw [show cs.drop (cs.takeWhile Segment.isWordChar).length = rest from hdrop] at hparen
      unfold parenthesized? at hparen
      split at hparen
      · obtain ⟨after, rfl⟩ := closedText_eq_some hparen
        refine ⟨after, ?_, harguments⟩
        rw [hname, String.toList_ofList]
        exact hrest.symm
      · cases hparen
    · exact .inl (of?_eq_some h).2
  · cases h

/-- A note of a comment has no arguments, or stands there with the text that they are read from. -/
theorem standsIn_of_mem_ofComment {skip : Nat} (h : a ∈ ofComment rules afterWord skip cs) :
    a.arguments = [] ∨ ∃ inner, a.StandsIn cs inner ∧ a.arguments = textArguments inner := by
  induction cs generalizing afterWord skip with
  | nil => cases skip <;> cases h
  | cons c cs ih =>
    have hbehind : ∀ {afterWord skip}, a ∈ ofComment rules afterWord skip cs →
        a.arguments = [] ∨
          ∃ inner, a.StandsIn (c :: cs) inner ∧ a.arguments = textArguments inner := by
      intro afterWord skip hmem
      rcases ih hmem with hnone | ⟨inner, hstands, harguments⟩
      · exact .inl hnone
      · exact .inr ⟨inner, hstands.cons c, harguments⟩
    cases skip with
    | succ skip => exact hbehind h
    | zero =>
      by_cases hnote : c = '@' ∧ afterWord = false
      · obtain ⟨rfl, rfl⟩ := hnote
        rw [ofComment_of_atSign] at h
        rcases List.mem_append.mp h with hfirst | hmem
        · rcases begun_eq_some (Option.mem_toList.mp hfirst) with
            hnone | ⟨inner, after, rfl, harguments⟩
          · exact .inl hnone
          · exact .inr ⟨inner, ⟨[], after, rfl⟩, harguments⟩
        · exact hbehind hmem
      · rw [ofComment, if_neg hnote] at h
        exact hbehind h

/-! ## Notes in files -/

/-- A note is written in a file: outside of comments, or in one of them. -/
inductive WrittenInFile (lexed : Lexed) (a : Note) : Prop
  | outside (h : a.WrittenIn lexed.lexemes)
  | inside {trivia : List Trivia} {body : String} {position : Position} {inner : List Char}
      (htrivia : trivia ∈ lexed.trivia) (hcomment : .comment body position ∈ trivia)
      (hstands : a.StandsIn body.toList inner) (harguments : a.arguments = textArguments inner)

/-- The notes of a comment of a file are written in it. -/
theorem writtenInFile_of_comment {lexed : Lexed} {trivia : List Trivia} {body : String}
    {position : Position} (htrivia : trivia ∈ lexed.trivia)
    (hcomment : .comment body position ∈ trivia) (h : a ∈ ofComment rules false 0 body.toList) :
    a.WrittenInFile lexed := by
  rcases standsIn_of_mem_ofComment h with hnone | ⟨inner, hstands, harguments⟩
  · exact .outside ⟨[], List.nil_infix, hnone⟩
  · exact .inside htrivia hcomment hstands harguments

end Note

/-- The notes on a declaration; a placeholder is one itself. -/
def Declaration.recorded : Declaration → List Note
  | placeholder p => [p.note]
  | other => other.notes

namespace Outline

variable {setting : Setting} {lexed : Lexed} {lexemes behind : List Lexeme} {a : Note}

/-- The arguments of an attribute are those of a part of the row behind its name. -/
theorem exists_part_of_noteArguments {arguments : List String} {next : Cursor}
    (h : noteArguments setting ⟨lexemes, .variable, []⟩ = .ok (arguments, next)) :
    ∃ part, part <:+: lexemes ∧ arguments = Lexeme.arguments part := by
  rw [noteArguments_apply] at h
  split at h
  · obtain ⟨inner, _, hgroup, hgiven⟩ := Reader.bind_eq_ok.mp h
    obtain ⟨behind, hsplit, rfl⟩ := Reader.group_eq_ok hgroup
    cases hgiven
    obtain ⟨closer, -, hrow⟩ := Lexeme.splitGroup_eq_some hsplit
    have hinner : inner <+: lexemes.tail := ⟨closer :: behind, hrow.symm⟩
    exact ⟨inner, hinner.isInfix.trans (List.tail_suffix lexemes).isInfix, rfl⟩
  · cases h
    exact ⟨[], List.nil_infix, rfl⟩

/-- The note of an attribute is written in it. -/
theorem writtenIn_of_attributeNote {cursor : Cursor}
    (h : attributeNote setting ⟨lexemes, .variable, []⟩ = .ok (some a, cursor)) :
    a.WrittenIn lexemes := by
  cases lexemes with
  | nil => cases h
  | cons sign lexemes =>
    cases lexemes with
    | nil => cases h
    | cons word row =>
      obtain ⟨token, position, trivia⟩ := word
      cases token with
      | identifier name =>
        rw [attributeNote_cons] at h
        cases hread : noteArguments setting ⟨row, .variable, []⟩ with
        | error failure =>
          rw [hread] at h
          cases h
        | ok read =>
          rw [hread] at h
          have hnote := congrArg Prod.fst (Except.ok.inj h)
          dsimp only at hnote
          split at hnote
          · obtain ⟨part, hpart, harguments⟩ := exists_part_of_noteArguments hread
            have hrow : row <:+: sign :: ⟨.identifier name, position, trivia⟩ :: row :=
              ⟨[sign, ⟨.identifier name, position, trivia⟩], [], List.append_nil _⟩
            exact ⟨part, hpart.trans hrow, (Note.of?_eq_some hnote).2.trans harguments⟩
          · cases hnote
      | _ => cases h

/-- All notes that wait are written in the file. -/
def AllWritten (lexed : Lexed) (pending : List PendingNote) : Prop :=
  ∀ p ∈ pending, p.note.WrittenInFile lexed

variable {pending : List PendingNote}

/-- So are those of the comments in front of the next lexeme. -/
theorem allWritten_absorb (rules : NoteRules) {trivia : List Trivia}
    (htrivia : trivia ∈ lexed.trivia) {rest : List Trivia} (hrest : ∀ t ∈ rest, t ∈ trivia)
    (h : AllWritten lexed pending) : AllWritten lexed (PendingNote.absorb rules pending rest) := by
  induction rest generalizing pending with
  | nil => exact h
  | cons first rest ih =>
    obtain ⟨hfirst, hothers⟩ := List.forall_mem_cons.mp hrest
    cases first with
    | blankLine position =>
      refine ih hothers fun p hp => ?_
      obtain ⟨q, hq, rfl⟩ := List.mem_map.mp hp
      exact h q hq
    | comment body position =>
      refine ih hothers fun p hp => ?_
      rcases List.mem_append.mp hp with hp | hp
      · exact h p hp
      · obtain ⟨b, hb, rfl⟩ := List.mem_map.mp hp
        exact Note.writtenInFile_of_comment htrivia hfirst hb

/-- The notes of what is declared are those in front of it and those of its body. -/
theorem writtenInFile_of_declared {found : List Declaration} {cursor : Cursor}
    (hlexemes : lexemes <:+ lexed.lexemes) (h : AllWritten lexed pending)
    (hread : Reader.readExternal setting lexemes = .ok (found, cursor)) {kind : DeclKind}
    {d : Declaration} (hd : .declaration d ∈ declarations setting kind pending found) :
    ∀ a ∈ d.recorded, a.WrittenInFile lexed := by
  rcases List.mem_append.mp hd with hd | hd
  · obtain ⟨p, -, hp⟩ := List.mem_map.mp hd
    cases hp
  obtain ⟨e, he, hannotated⟩ := List.mem_map.mp hd
  cases hannotated
  obtain ⟨body, hbody, -, hwritten⟩ := Reader.annotated_of_readExternal hread e he
  let attached := (pending.filter fun p => !p.refused setting.rules).map (·.note)
  have hrecorded : (e.annotate attached).recorded = Note.union attached e.notes := by
    cases hbody <;> rfl
  intro a ha
  rw [hrecorded, Note.mem_union] at ha
  rcases ha with ha | ha
  · obtain ⟨p, hp, rfl⟩ := List.mem_map.mp ha
    exact h p (List.mem_of_mem_filter hp)
  · exact .outside ((hwritten a ha).mono hlexemes.isInfix)

/-- A construct declares things whose notes are written in the file, and leaves such notes, if those
that wait in front of it are. -/
theorem RoleAt.writtenInFile {linkage linkage' : Nat} {role : Role}
    (h : RoleAt setting linkage lexemes role behind linkage')
    (hlexemes : lexemes <:+ lexed.lexemes) (hpending : AllWritten lexed pending)
    (position : Position) :
    (∀ d, .declaration d ∈ role.findings setting position pending →
      ∀ a ∈ d.recorded, a.WrittenInFile lexed) ∧
    AllWritten lexed (role.leaves position pending) := by
  have hnone : AllWritten lexed [] := fun p hp => absurd hp List.not_mem_nil
  cases h with
  | @note _ _ b cursor hfront hread =>
    refine ⟨fun d hd => absurd hd List.not_mem_nil, ?_⟩
    cases b with
    | none => exact hpending
    | some b =>
      intro p hp
      rcases List.mem_append.mp hp with hp | hp
      · exact hpending p hp
      · rw [List.mem_singleton.mp hp]
        exact .outside ((writtenIn_of_attributeNote hread).mono hlexemes.isInfix)
  | malformedNote _ _ | fatalNote _ _ =>
    refine ⟨fun d hd => ?_, hpending⟩
    cases List.mem_singleton.mp hd
  | declaration _ hread =>
    exact ⟨fun d hd => writtenInFile_of_declared hlexemes hpending hread hd, hnone⟩
  | placeholder _ hread =>
    refine ⟨fun d hd => ?_, hnone⟩
    rcases List.mem_append.mp hd with hd | hd
    · exact absurd hd (declaration_not_mem_dangling d _)
    · cases List.mem_singleton.mp hd
      intro a ha
      rw [List.mem_singleton.mp ha]
      exact .outside ((Reader.writtenIn_of_marker hread).mono hlexemes.isInfix)
  | inclusion _ =>
    refine ⟨fun d hd => ?_, hnone⟩
    rcases List.mem_append.mp hd with hd | hd
    · exact absurd hd (declaration_not_mem_dangling d _)
    · cases List.mem_singleton.mp hd
  | nothing _ _ | macroCall _ _ | semicolon _ | linkage _ | closeBrace _ =>
    exact ⟨fun d hd => absurd hd List.not_mem_nil, hpending⟩
  | strayBrace _ =>
    refine ⟨fun d hd => ?_, hpending⟩
    cases List.mem_singleton.mp hd
  | failed _ => exact ⟨fun d hd => absurd hd (declaration_not_mem_recover d _), hnone⟩

/-- What is declared from where reading stands has notes that are written in the file. -/
theorem writtenInFile_of_scan {outline : Outline} (hrest : outline.rest <:+ lexed.lexemes)
    (hpending : AllWritten lexed outline.pending) {d : Declaration}
    (hd : .declaration d ∈ (scan setting outline).1) : ∀ a ∈ d.recorded, a.WrittenInFile lexed := by
  induction outline using scan_induction setting with
  | nil outline hnil =>
    rw [scan_of_nil hnil] at hd
    cases hd
  | step outline hne ih =>
    have hlocal := (local_step setting hne).takes.suffix
    rw [scan_of_ne_nil hne] at hd
    obtain ⟨_ | ⟨first, rest⟩, pending, linkage⟩ := outline
    · exact absurd rfl hne
    have hfirst : first.trivia ∈ lexed.trivia :=
      List.mem_append_left _ (List.mem_map_of_mem (hrest.subset List.mem_cons_self))
    have habsorbed := allWritten_absorb setting.rules hfirst (fun _ ht => ht) hpending
    obtain ⟨role, behind, linkage', hrole⟩ := exists_roleAt setting hne linkage
    obtain ⟨hfound, hleft⟩ := hrole.writtenInFile hrest habsorbed first.position
    rw [step_of_roleAt hrole] at hd hlocal ih
    rcases List.mem_append.mp hd with hd | hd
    · exact hfound d hd
    · exact ih (hlocal.trans hrest) hleft hd

/-- The notes on what is declared in a file, and its placeholders, are written in the file. -/
theorem writtenInFile_of_mem_ofText {rules : NoteRules} {file : Path} {origin : Origin}
    {text : String} (hlexed : Lexed.ofText text = .ok lexed) {d : Declaration}
    (hd : .declaration d ∈ ofText rules file origin text) :
    ∀ a ∈ d.recorded, a.WrittenInFile lexed := by
  unfold ofText at hd
  rw [hlexed] at hd
  dsimp only at hd
  rw [ofLexed_eq] at hd
  rcases List.mem_append.mp hd with hd | hd
  · exact writtenInFile_of_scan (List.suffix_refl _) (fun p hp => absurd hp List.not_mem_nil) hd
  · exact absurd hd (declaration_not_mem_dangling d _)

end Outline

end RemoteCalls
