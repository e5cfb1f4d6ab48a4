import RemoteCalls.Proofs.Outline.Scanned
import RemoteCalls.Proofs.Outline.Steps
import RemoteCalls.Proofs.Token.Alike
import RemoteCalls.Proofs.Token.Arguments
import RemoteCalls.Proofs.Token.Comments
import RemoteCalls.Proofs.Token.Lists

/-!
# Notes in comments and outside of them

A note with its arguments is written in a comment or in front of a declaration. In a comment its end
is looked for among characters, and its arguments are read by themselves; outside its end is looked
for among the tokens of the file. Both give the same note, unless the note in the comment stands
among the arguments of another one there.
-/

namespace RemoteCalls

namespace Note

open Segment (isWordChar)

variable {rules : NoteRules} {afterWord : Bool}

/-! ## Notes one behind the other -/

/-- The text in a pair of parentheses in front. -/
def parenthesized? : List Char → Option (List Char)
  | '(' :: behind => closedText 0 none false behind
  | _ => none

/-- What begins behind an at sign: a note or nothing, and how many characters belong to it. -/
def begun (rules : NoteRules) (cs : List Char) : Option Note × Nat :=
  let name := cs.takeWhile isWordChar
  if rules.isMarker (String.ofList name) then
    match parenthesized? (cs.drop name.length) with
    | some inner =>
      (of? (String.ofList name) (textArguments inner), name.length + inner.length + 2)
    | none => (of? (String.ofList name) [], name.length)
  else (none, name.length)

/-- How many characters of the text behind belong to a note that begins in the text before. -/
def overhang (rules : NoteRules) : (afterWord : Bool) → (skip : Nat) →
    (before behind : List Char) → Nat
  | _, skip, [], _ => skip
  | _, skip + 1, c :: cs, behind => overhang rules (isWordChar c) skip cs behind
  | afterWord, 0, c :: cs, behind =>
    if c = '@' ∧ afterWord = false then overhang rules false (begun rules (cs ++ behind)).2 cs behind
    else overhang rules (isWordChar c) 0 cs behind

/-- Whether a character of a word stands at the end of a text. -/
def endsInWord (afterWord : Bool) (cs : List Char) : Bool :=
  cs.foldl (fun _ c => isWordChar c) afterWord

theorem ofComment_of_atSign (cs : List Char) :
    ofComment rules false 0 ('@' :: cs) =
      (begun rules cs).1.toList ++ ofComment rules false (begun rules cs).2 cs := by
  rw [ofComment, if_pos ⟨rfl, rfl⟩, begun]
  dsimp only
  generalize cs.drop (cs.takeWhile isWordChar).length = rest
  split
  · split
    · next behind =>
      rw [parenthesized?]
      cases closedText 0 none false behind <;> rfl
    · next hother =>
      have hnone : parenthesized? rest = none := by
        unfold parenthesized?
        split
        · next behind => exact (hother behind rfl).elim
        · rfl
      rw [hnone]
  · rfl

/-- The notes of a text are those that begin in its front, and those behind the characters that
belong to them. -/
theorem ofComment_append (skip : Nat) (before behind : List Char) :
    ∃ earlier, ofComment rules afterWord skip (before ++ behind) =
      earlier ++ ofComment rules (endsInWord afterWord before)
        (overhang rules afterWord skip before behind) behind := by
  induction before generalizing afterWord skip with
  | nil => exact ⟨[], rfl⟩
  | cons c cs ih =>
    cases skip with
    | succ skip => exact ih skip
    | zero =>
      rw [List.cons_append]
      by_cases hnote : c = '@' ∧ afterWord = false
      · obtain ⟨rfl, rfl⟩ := hnote
        have hrest : ∃ earlier, ofComment rules false (begun rules (cs ++ behind)).2 (cs ++ behind) =
            earlier ++ ofComment rules (endsInWord false cs)
              (overhang rules false (begun rules (cs ++ behind)).2 cs behind) behind := ih _
        obtain ⟨earlier, hearlier⟩ := hrest
        refine ⟨(begun rules (cs ++ behind)).1.toList ++ earlier, ?_⟩
        rw [ofComment_of_atSign, hearlier, List.append_assoc]
        rfl
      · rw [ofComment, if_neg hnote, overhang, if_neg hnote]
        exact ih 0

/-- The characters of a note that is read already have no notes. -/
theorem ofComment_of_skipped (front behind : List Char) :
    ofComment rules afterWord front.length (front ++ behind) =
      ofComment rules (endsInWord afterWord front) 0 behind := by
  induction front generalizing afterWord with
  | nil => rfl
  | cons c cs ih => exact ih

end Note

/-! ## Names of notes -/

/-- A name goes as far as the word that it begins. -/
theorem takeWhile_of_isIdentifier {name : String} (h : Configuration.isIdentifier name = true)
    {d : Char} (hd : Segment.isWordChar d = false) (rest : List Char) :
    (name.toList ++ d :: rest).takeWhile Segment.isWordChar = name.toList := by
  rw [List.takeWhile_append_of_pos (isWordChar_of_isIdentifier h), List.takeWhile_cons, hd]
  exact List.append_nil _

/-- A text that is read as one name is a name. -/
theorem isName_of_ofText {name : String} {word : Lexed} (h : Lexed.ofText name = .ok word)
    (htokens : Lexeme.tokens word.lexemes = [.identifier name]) : IsName name := by
  obtain ⟨lexeme, rest, hlexemes, htoken, -⟩ := List.map_eq_cons_iff.mp htokens
  have hlegible := Lexed.legible_of_ofText h
  rw [hlexemes] at hlegible
  have hscanned := hlegible.scanned
  rw [htoken] at hscanned
  exact hscanned

/-- A name that is an identifier is not blank, and so it has a note. -/
theorem Note.exists_of_isIdentifier {name : String} (h : Configuration.isIdentifier name = true)
    (arguments : List String) :
    ∃ note, of? name arguments = some note ∧ note.name = name ∧ note.arguments = arguments :=
  ⟨⟨name, arguments, isAllBlank_of_isIdentifier h⟩, dif_pos (isAllBlank_of_isIdentifier h), rfl,
    rfl⟩

/-! ## Texts of arguments -/

/-- Whether a segment is a string or a character. -/
def Segment.isLiteral (segment : Segment) : Bool :=
  match segment.content with
  | .token (.string _) | .token (.character _) => true
  | _ => false

/-- Whether a segment is a comment. -/
def Segment.isComment (segment : Segment) : Bool :=
  match segment.content with
  | .comment _ => true
  | _ => false

/-- A text that is read into properly nested groups, without comments, and without the mark of a
directive outside of literals. -/
structure ArgumentText (text : String) (lexed : Lexed) : Prop where
  read : Lexed.ofText text = .ok lexed
  nested : Token.Nested (Lexeme.tokens lexed.lexemes)
  no_comment : ∀ segment ∈ (Segment.cut 0 text.toList).1, segment.isComment = false
  no_mark : ∀ segment ∈ (Segment.cut 0 text.toList).1, '#' ∈ segment.source →
    segment.isLiteral = true

namespace ArgumentText

open Segment (cut)

variable {text : String} {lexed : Lexed}

theorem closed (h : ArgumentText text lexed) : (cut 0 text.toList).2 = none ∧
    lexed = Lexed.ofSegments .start 0 [] (cut 0 text.toList).1 :=
  Lexed.ofText_eq_ok_iff.mp h.read

/-- Neither a comment nor a directive stands among the arguments. -/
theorem isBare (h : ArgumentText text lexed) :
    ∀ segment ∈ (cut 0 text.toList).1, segment.isBare = true := by
  intro segment hsegment
  have hcomment := h.no_comment segment hsegment
  have hmark := h.no_mark segment hsegment
  obtain ⟨behind, hstretch⟩ := (Segment.tiles_cut h.closed.1).exists_stretch hsegment
  obtain ⟨source, content⟩ := segment
  cases content with
  | comment body => cases hcomment
  | directive included =>
    obtain ⟨rest, rfl⟩ := List.head?_eq_some_iff.mp hstretch.begins
    cases hmark (List.mem_cons_self ..)
  | _ => rfl

/-- In front of a parenthesis the arguments are cut as they are alone. -/
theorem cut_append (h : ArgumentText text lexed) (more : List Char) :
    cut 0 (text.toList ++ ')' :: more) =
      ((cut 0 text.toList).1 ++ ⟨[')'], .token .closeParen⟩ :: (cut 0 more).1,
        (cut 0 more).2) := by
  have hparen : cut 0 (')' :: more) =
      (⟨[')'], .token .closeParen⟩ :: (cut 0 more).1, (cut 0 more).2) :=
    Segment.cut_of_ok rfl rfl
  rw [Segment.cut_append_of_bare (by decide) (by decide) h.closed.1 h.isBare, hparen]

/-- In a comment the arguments end in front of the parenthesis. -/
theorem closedText (h : ArgumentText text lexed) (more : List Char) :
    Note.closedText 0 none false (text.toList ++ ')' :: more) = some text.toList := by
  obtain ⟨hclosed, hlexed⟩ := h.closed
  have hmatch : Lexeme.parensMatch 0
      (Lexed.ofSegments .start 0 [] (cut 0 text.toList).1).lexemes = true := by
    rw [← hlexed, ← List.append_nil lexed.lexemes, Lexeme.parensMatch_of_nested h.nested]
    rfl
  exact Segment.closedText_of_cut hclosed h.isBare hmatch more

/-- Wherever the arguments stand they are the same. -/
theorem alike (h : ArgumentText text lexed) (position : Position) (newlines : Nat)
    (pending : List Trivia) :
    Lexeme.Alike (Lexed.ofSegments position newlines pending (cut 0 text.toList).1).lexemes
      lexed.lexemes := by
  rw [h.closed.2]
  exact (Lexed.alike_ofSegments _).1 _ _ _ _ _ _

end ArgumentText

/-- A note as it is written. -/
def noteText (name arguments : String) : String :=
  "@" ++ name ++ "(" ++ arguments ++ ")"

theorem toList_noteText (name arguments : String) (rest : List Char) :
    (noteText name arguments).toList ++ rest =
      '@' :: (name.toList ++ '(' :: (arguments.toList ++ ')' :: rest)) := by
  simp [noteText]

/-! ## Notes in comments -/

namespace Note

variable {rules : NoteRules} {name arguments : String} {lexed : Lexed}

/-- A note in a comment whose arguments end in front of a parenthesis is found, and the notes behind
it are those of the text behind it. -/
theorem ofComment_of_closedText (hmarker : rules.isMarker name = true)
    (hname : Configuration.isIdentifier name = true) {after : List Char}
    (hclosed : closedText 0 none false (arguments.toList ++ ')' :: after) =
      some arguments.toList) :
    ofComment rules false 0 ((noteText name arguments).toList ++ after) =
      (of? name (textArguments arguments.toList)).toList ++ ofComment rules false 0 after := by
  have hparen : Segment.isWordChar '(' = false := by decide
  let cs := name.toList ++ '(' :: (arguments.toList ++ ')' :: after)
  have hword : cs.takeWhile Segment.isWordChar = name.toList :=
    takeWhile_of_isIdentifier hname hparen _
  have hbegun : begun rules cs = (of? name (textArguments arguments.toList),
      name.toList.length + arguments.toList.length + 2) := by
    unfold begun
    dsimp only
    rw [hword, String.ofList_toList, if_pos hmarker, List.drop_left, parenthesized?, hclosed]
  have hskip : ofComment rules false (name.toList.length + arguments.toList.length + 2) cs =
      ofComment rules false 0 after := by
    let front := name.toList ++ '(' :: (arguments.toList ++ [')'])
    have hlength : name.toList.length + arguments.toList.length + 2 = front.length := by
      simp [front]
      omega
    have hcs : cs = front ++ after := by simp [cs, front]
    have hend : endsInWord false front = false := by simp [endsInWord, front, Segment.isWordChar]
    rw [hlength, hcs, ofComment_of_skipped, hend]
  rw [toList_noteText, ofComment_of_atSign, hbegun, hskip]

/-- A note in a comment is found, and the notes behind it are those of the text behind it. -/
theorem ofComment_noteText (hmarker : rules.isMarker name = true) (hname : IsName name)
    (harguments : ArgumentText arguments lexed) (after : List Char) :
    ofComment rules false 0 ((noteText name arguments).toList ++ after) =
      (of? name (Lexeme.arguments lexed.lexemes)).toList ++ ofComment rules false 0 after := by
  have hread : Lexed.ofChars arguments.toList = .ok lexed := harguments.read
  rw [ofComment_of_closedText hmarker hname.word (harguments.closedText after), textArguments,
    hread]

end Note

namespace Segment

/-- A comment is cut off in one piece. -/
theorem cut_comment {source rest : List Char} {body : String}
    (h : Stretch ⟨source, .comment body⟩ rest) :
    cut 0 (source ++ rest) = (⟨source, .comment body⟩ :: (cut 0 rest).1, (cut 0 rest).2) := by
  cases h with
  | lineComment hbody hend =>
    have hline : (body.toList ++ rest).takeWhile (· ≠ '\n') = body.toList := by
      have hall : ∀ d ∈ body.toList, decide (d ≠ '\n') = true :=
        fun d hd => decide_eq_true fun hbreak => hbody (hbreak ▸ hd)
      rw [List.takeWhile_append_of_pos hall]
      cases rest with
      | nil => simp
      | cons d rest => simp [hend d rfl]
    have hfirst : first '/' ('/' :: (body.toList ++ rest)) =
        .ok ⟨'/' :: '/' :: body.toList, .comment body⟩ := by
      have hwhole : first '/' ('/' :: (body.toList ++ rest)) =
          .ok ⟨'/' :: ('/' :: (body.toList ++ rest)).takeWhile (· ≠ '\n'), .comment (String.ofList
            (('/' :: ('/' :: (body.toList ++ rest)).takeWhile (· ≠ '\n')).drop 2))⟩ := rfl
      rw [hwhole, List.takeWhile_cons_of_pos (by decide), hline]
      simp
    exact cut_of_ok hfirst rfl
  | blockComment hbody =>
    have hclosed := commentBody_of_not_infix hbody rest
    have hfirst := first_of_commentBody hclosed
    rw [String.ofList_toList] at hfirst
    rw [List.cons_append, List.cons_append, List.append_assoc]
    exact cut_of_ok hfirst (by simp)

end Segment

/-! ## Notes outside of comments -/

/-- The segments of a note. -/
def noteSegments (name arguments : String) : List Segment :=
  ⟨['@'], .token .atSign⟩ :: ⟨name.toList, .token (.identifier name)⟩ ::
    ⟨['('], .token .openParen⟩ ::
    ((Segment.cut 0 arguments.toList).1 ++ [⟨[')'], .token .closeParen⟩])

section

variable {name arguments : String} {lexed : Lexed}

/-- A note is cut into its own segments, whatever stands behind it. -/
theorem cut_noteText (hname : IsName name) (harguments : ArgumentText arguments lexed)
    (rest : List Char) :
    Segment.cut 0 ((noteText name arguments).toList ++ rest) =
      (noteSegments name arguments ++ (Segment.cut 0 rest).1, (Segment.cut 0 rest).2) := by
  have hparen : Segment.isWordChar '(' = false := by decide
  obtain ⟨c, tail, hchars, hc, htail⟩ := exists_chars_of_isIdentifier hname.word
  have hword : Segment.cut 0 (name.toList ++ '(' :: (arguments.toList ++ ')' :: rest)) =
      (⟨name.toList, .token (.identifier name)⟩ ::
        (Segment.cut 0 ('(' :: (arguments.toList ++ ')' :: rest))).1,
        (Segment.cut 0 ('(' :: (arguments.toList ++ ')' :: rest))).2) := by
    have hfirst := Segment.firstToken_of_isWordStart hc
      (tail ++ '(' :: (arguments.toList ++ ')' :: rest))
    rw [List.takeWhile_append_of_pos htail, List.takeWhile_cons, hparen, if_neg Bool.false_ne_true,
      List.append_nil, ← hchars, String.ofList_toList, hname.token] at hfirst
    rw [hchars] at hfirst ⊢
    exact Segment.cut_of_ok hfirst rfl
  have hopen : ∀ cs, Segment.cut 0 ('(' :: cs) =
      (⟨['('], .token .openParen⟩ :: (Segment.cut 0 cs).1, (Segment.cut 0 cs).2) :=
    fun cs => Segment.cut_of_ok rfl rfl
  have hsign : ∀ cs, Segment.cut 0 ('@' :: cs) =
      (⟨['@'], .token .atSign⟩ :: (Segment.cut 0 cs).1, (Segment.cut 0 cs).2) :=
    fun cs => Segment.cut_of_ok rfl rfl
  rw [toList_noteText, hsign, hword, hopen, harguments.cut_append]
  simp [noteSegments]

/-- The lexemes of a note: those of its arguments stand between parentheses. -/
theorem exists_noteRow (name : String) (harguments : ArgumentText arguments lexed)
    (position : Position) (newlines : Nat) (trivia : List Trivia) (more : List Segment) :
    ∃ word opener closer inner, Lexeme.Alike inner lexed.lexemes ∧
      word.token = .identifier name ∧ opener.token = .openParen ∧ closer.token = .closeParen ∧
      (Lexed.ofSegments position newlines trivia (noteSegments name arguments ++ more)).lexemes =
        ⟨.atSign, position, trivia⟩ :: word :: opener :: (inner ++ closer ::
          (Lexed.ofSegments (position.after (noteText name arguments).toList) 0 [] more).lexemes) := by
  let first := position.after ['@']
  let second := first.after name.toList
  let third := second.after ['(']
  obtain ⟨newlines', trivia', hsplit⟩ := Lexed.exists_ofSegments_append third 0 []
    (Segment.cut 0 arguments.toList).1 (⟨[')'], .token .closeParen⟩ :: more)
  have hfinish : third.after ((Segment.cut 0 arguments.toList).1.flatMap Segment.source) =
      third.after arguments.toList := by
    rw [Segment.flatMap_source_cut harguments.closed.1]
  have hbehind : position.after (noteText name arguments).toList =
      (third.after arguments.toList).after [')'] := by
    simp [noteText, Position.after_append, first, second, third]
  rw [hfinish] at hsplit
  refine ⟨⟨.identifier name, first, []⟩, ⟨.openParen, second, []⟩,
    ⟨.closeParen, third.after arguments.toList, trivia'⟩, _, harguments.alike third 0 [], rfl, rfl,
    rfl, ?_⟩
  have hlexemes := congrArg Lexed.lexemes hsplit
  rw [noteSegments, hbehind]
  simp only [List.cons_append, List.append_assoc, List.nil_append]
  change (⟨.atSign, position, trivia⟩ :: ⟨.identifier name, first, []⟩ :: ⟨.openParen, second, []⟩ ::
    (Lexed.ofSegments third 0 [] _).lexemes : List Lexeme) = _
  rw [hlexemes]
  rfl

end

namespace Outline

/-- A note in front of a row is taken, and waits. -/
theorem step_of_noteRow {setting : Setting} {sign word opener closer : Lexeme}
    {inner : List Lexeme} {name : String} {note : Note} (hsign : sign.token = .atSign)
    (hword : word.token = .identifier name) (hopener : opener.token = .openParen)
    (hcloser : closer.token = .closeParen) (hbalanced : Token.Balanced (Lexeme.tokens inner))
    (hmarker : setting.rules.isMarker name = true)
    (hnote : Note.of? name (Lexeme.arguments inner) = some note) (behind : List Lexeme)
    (waiting : List PendingNote) (linkage : Nat) :
    step setting ⟨sign :: word :: opener :: (inner ++ closer :: behind), waiting, linkage⟩ =
      ([], ⟨behind, PendingNote.absorb setting.rules waiting sign.trivia ++
        [⟨note, sign.position, false⟩], linkage⟩) := by
  let row := inner ++ closer :: behind
  have hfront : Front.of setting.rules (sign :: word :: opener :: row) = .note := by
    unfold Front.of
    rw [Reader.headToken, hsign]
    rfl
  have hsplit : Lexeme.splitGroup 0 row = some (inner, behind) :=
    Lexeme.splitGroup_of_balanced hbalanced (by rw [hcloser]; rfl) behind
  have hgroup : noteArguments setting ⟨opener :: row, .variable, []⟩ =
      .ok (Lexeme.arguments inner, ⟨behind, .variable, []⟩) := by
    have hhead : Reader.headToken (opener :: row) = .openParen := hopener
    rw [noteArguments_apply, if_pos hhead, Reader.bind_apply, Reader.group_apply]
    simp only [List.tail_cons, hsplit]
    rfl
  obtain ⟨token, position, trivia⟩ := word
  cases hword
  have hrun : attributeNote setting
      ⟨sign :: ⟨.identifier name, position, trivia⟩ :: opener :: row, .variable, []⟩ =
        .ok (some note, ⟨behind, .variable, []⟩) := by
    rw [attributeNote_cons, hgroup]
    simp only [hmarker, if_true, hnote]
  simp only [step, stepAt, row, stepNote, run] at hfront hrun ⊢
  simp only [hfront, hrun]

/-! ## Both forms -/

open Segment (cut)

/-- A comment with the given body brings a note: it is cut off in one piece, wherever it stands, and
what waits behind it is what waited before, the note, and the other notes of the comment. -/
def CommentBrings (rules : NoteRules) (body : String) (note : Note) : Prop :=
  ∃ earlier later : List Note,
    (∀ source rest, Segment.Stretch ⟨source, .comment body⟩ rest →
      cut 0 (source ++ rest) = (⟨source, .comment body⟩ :: (cut 0 rest).1, (cut 0 rest).2)) ∧
    ∀ waiting position, PendingNote.absorb rules waiting [.comment body position] =
      waiting ++ (earlier ++ note :: later).map (⟨·, position, false⟩)

/-- A text outside of comments brings a note: it is cut into its own segments, wherever it stands,
and a step that begins with their lexemes takes just these, and leaves the note waiting. -/
def AttributeBrings (setting : Setting) (text : String) (note : Note) : Prop :=
  ∃ segments : List Segment,
    (∀ rest, cut 0 (text.toList ++ rest) = (segments ++ (cut 0 rest).1, (cut 0 rest).2)) ∧
    ∀ position newlines trivia more waiting linkage,
      step setting ⟨(Lexed.ofSegments position newlines trivia (segments ++ more)).lexemes,
          waiting, linkage⟩ =
        ([], ⟨(Lexed.ofSegments (position.after text.toList) 0 [] more).lexemes,
          PendingNote.absorb setting.rules waiting trivia ++ [⟨note, position, false⟩], linkage⟩)

/-- A note is the same in a comment and outside of comments: its name is the marker, and its
arguments are those of the text between its parentheses. In a comment it must not stand behind a
character of a word, nor belong to a note that begins before it. -/
theorem comment_and_attribute_bring (setting : Setting) {name arguments : String}
    {word lexed : Lexed} (hmarker : setting.rules.isMarker name = true)
    (hread : Lexed.ofText name = .ok word)
    (hword : Lexeme.tokens word.lexemes = [.identifier name])
    (harguments : ArgumentText arguments lexed) :
    ∃ note : Note, note.name = name ∧ note.arguments = Lexeme.arguments lexed.lexemes ∧
      AttributeBrings setting (noteText name arguments) note ∧
      ∀ before after : String, Note.endsInWord false before.toList = false →
        Note.overhang setting.rules false 0 before.toList
          (noteText name arguments ++ after).toList = 0 →
        CommentBrings setting.rules (before ++ noteText name arguments ++ after) note := by
  have hname := isName_of_ofText hread hword
  obtain ⟨note, hnote, hsame, hwritten⟩ :=
    Note.exists_of_isIdentifier hname.word (Lexeme.arguments lexed.lexemes)
  refine ⟨note, hsame, hwritten, ?_, ?_⟩
  · refine ⟨noteSegments name arguments, cut_noteText hname harguments, ?_⟩
    intro position newlines trivia more waiting linkage
    obtain ⟨second, opener, closer, inner, halike, hsecond, hopener, hcloser, hrow⟩ :=
      exists_noteRow name harguments position newlines trivia more
    have hbalanced : Token.Balanced (Lexeme.tokens inner) := by
      rw [halike.tokens_eq]
      exact harguments.nested.balanced
    rw [← halike.arguments_eq] at hnote
    rw [hrow, step_of_noteRow rfl hsecond hopener hcloser hbalanced hmarker hnote]
  · intro before after hbefore hoverhang
    rw [String.toList_append] at hoverhang
    let behind := (noteText name arguments).toList ++ after.toList
    have hsplit : ∃ earlier, Note.ofComment setting.rules false 0 (before.toList ++ behind) =
        earlier ++ Note.ofComment setting.rules (Note.endsInWord false before.toList)
          (Note.overhang setting.rules false 0 before.toList behind) behind :=
      Note.ofComment_append 0 before.toList behind
    obtain ⟨earlier, hearlier⟩ := hsplit
    rw [hbefore, hoverhang, Note.ofComment_noteText hmarker hname harguments, hnote] at hearlier
    refine ⟨earlier, Note.ofComment setting.rules false 0 after.toList,
      fun source rest hcomment => Segment.cut_comment hcomment, ?_⟩
    intro waiting position
    unfold PendingNote.absorb PendingNote.absorb
    rw [String.toList_append, String.toList_append, List.append_assoc, hearlier]
    rfl

/-- A parenthesis in a literal and commas in brackets, behind another note of the same comment. -/
theorem comment_and_attribute_bring_of_literal :
    let setting : Setting := ⟨⟨["rpc"], .attach⟩, ⟨"api.c"⟩, .input, ⟨2, 1⟩⟩
    let arguments := "\"a)\", [b, c]"
    setting.rules.isMarker "rpc" = true ∧
    ∃ note : Note, note.name = "rpc" ∧ note.arguments = ["\"a)\"", "[b, c]"] ∧
      AttributeBrings setting (noteText "rpc" arguments) note ∧
      CommentBrings setting.rules (" @rpc(x), " ++ noteText "rpc" arguments ++ " @rpc") note := by
  intro setting arguments
  have hmarker : setting.rules.isMarker "rpc" = true := by decide +kernel
  have hread : Lexed.ofText "rpc" = .ok ⟨[⟨.identifier "rpc", ⟨1, 1⟩, []⟩], ⟨1, 4⟩, []⟩ := by
    decide +kernel
  let lexed := Lexed.ofSegments .start 0 [] (cut 0 arguments.toList).1
  have htokens : Lexeme.tokens lexed.lexemes = [.string "\"a)\"", .comma, .openBracket,
      .identifier "b", .comma, .identifier "c", .closeBracket] := by decide +kernel
  have hnested : Token.Nested (Lexeme.tokens lexed.lexemes) := by
    have hinner : Token.Nested [.identifier "b", .comma, .identifier "c"] :=
      .plain rfl rfl (.plain rfl rfl (.plain rfl rfl .nil))
    rw [htokens]
    exact .plain rfl rfl (.plain rfl rfl (.group rfl hinner .nil))
  have harguments : ArgumentText arguments lexed :=
    ⟨by decide +kernel, hnested, by decide +kernel, by decide +kernel⟩
  obtain ⟨note, hname, hwritten, hattribute, hcomment⟩ :=
    comment_and_attribute_bring setting hmarker hread rfl harguments
  refine ⟨hmarker, note, hname, ?_, hattribute, ?_⟩
  · rw [hwritten]
    decide +kernel
  · exact hcomment " @rpc(x), " " @rpc" (by decide +kernel) (by decide +kernel)

/-- A comment does not bring a note that stands among the arguments of another one: the comment
` @rpc(@OUT(a)) ` only brings the outer note. -/
theorem not_commentBrings_of_inner :
    ¬ ∀ (rules : NoteRules) (name arguments before after : String) (word lexed : Lexed),
      rules.isMarker name = true → Lexed.ofText name = .ok word →
      Lexeme.tokens word.lexemes = [.identifier name] → ArgumentText arguments lexed →
      Note.endsInWord false before.toList = false →
      ∃ note : Note, note.name = name ∧ note.arguments = Lexeme.arguments lexed.lexemes ∧
        CommentBrings rules (before ++ noteText name arguments ++ after) note := by
  intro hall
  let rules : NoteRules := ⟨["rpc", "OUT"], .attach⟩
  have hread : Lexed.ofText "OUT" = .ok ⟨[⟨.identifier "OUT", ⟨1, 1⟩, []⟩], ⟨1, 4⟩, []⟩ := by
    decide +kernel
  have harguments : ArgumentText "a" ⟨[⟨.identifier "a", ⟨1, 1⟩, []⟩], ⟨1, 2⟩, []⟩ :=
    ⟨by decide +kernel, .plain rfl rfl .nil, by decide +kernel, by decide +kernel⟩
  obtain ⟨note, hname, -, earlier, later, -, hbrings⟩ := hall rules "OUT" "a" " @rpc(" ") " _ _
    (by decide +kernel) hread rfl harguments (by decide +kernel)
  have honly : (PendingNote.absorb rules []
      [.comment (" @rpc(" ++ noteText "OUT" "a" ++ ") ") .start]).map (·.note.name) = ["rpc"] := by
    decide +kernel
  rw [hbrings [] .start] at honly
  have hmem : "OUT" ∈ ["rpc"] := by
    rw [← honly, ← hname]
    simp
  exact absurd hmem (by decide)

end Outline

end RemoteCalls
