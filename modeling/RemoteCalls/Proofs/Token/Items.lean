import RemoteCalls.Configuration
import RemoteCalls.Proofs.Token.Sizes

/-!
# Texts that are written item by item

A text that is put together from tokens, the brackets of dimensions and the widths of bit-fields is
read into just these if each token ends where the next item begins. How a token ends depends on what
stands behind it, so that an item is written with the text behind it in view.
-/

namespace RemoteCalls

namespace Segment

/-- A character that begins a word begins a token, which is no literal and no number. -/
theorem firstToken_of_isWordStart {c : Char} (hc : isWordStart c = true) (cs : List Char) :
    first c cs = .ok ⟨c :: cs.takeWhile isWordChar,
      .token (.ofWord (String.ofList (c :: cs.takeWhile isWordChar)))⟩ := by
  have hne : ∀ d, isWordStart d = false → c ≠ d := fun d hd => ne_of_isWordStart hc hd
  have hbegins : BeginsToken c cs := by
    refine ⟨hne _ (by decide), ?_, ?_, ?_, ?_, hne _ (by decide)⟩
    · simp [isSpace, hne ' ' (by decide), hne '\t' (by decide), hne '\r' (by decide),
        hne '\x0c' (by decide)]
    · exact fun h => hne _ (by decide) h.1
    · exact fun h => hne _ (by decide) h.1
    · exact fun h => hne _ (by decide) h.1
  exact (FrontSegment.token hbegins (.word hc)).first_eq

/-- An operator of one character ends where no longer operator goes on. -/
theorem operatorText_of_ne {c : Char} {cs : List Char}
    (h : ∀ op ∈ operators.map String.toList, op.head? = some c → op.tail.head? ≠ cs.head?) :
    operatorText c cs = [c] := by
  have hlong : ∀ op ∈ operators.map String.toList, op.tail.head?.isSome = true := by decide
  unfold operatorText
  rw [List.find?_eq_none.mpr]
  · rfl
  · intro op hop hprefix
    obtain ⟨rest, hrest⟩ := List.isPrefixOf_iff_prefix.mp hprefix
    have htail := hlong op hop
    have hne := h op hop
    cases op with
    | nil => cases htail
    | cons d op =>
      obtain ⟨rfl, hcs⟩ := List.cons.inj hrest
      refine hne rfl ?_
      cases op with
      | nil => cases htail
      | cons e op =>
        rw [← hcs]
        rfl

end Segment

/-- What a text is written from: a token, the brackets of a dimension with its size, or the colon of
a bit-field with its width. -/
inductive Item where
  | token (t : Token)
  | dimension (size : Option String)
  | width (text : String)
deriving DecidableEq, Repr

/-- What may stand between two items: blanks, line breaks, and comments without a note. -/
def Content.isGap : Content → Bool
  | .newline | .blank | .joinedLine => true
  | .comment body => !body.toList.contains '@'
  | .token _ | .directive _ => false

/-- `Written cs items rest`: the text `cs` is written from the items, with gaps between them, and
the text `rest` is left behind them. -/
inductive Written : List Char → List Item → List Char → Prop
  | done (rest : List Char) : Written rest [] rest
  | gap {c : Char} {source behind rest : List Char} {content : Content} {items : List Item}
      (hfirst : Segment.first c (source ++ behind) = .ok ⟨c :: source, content⟩)
      (hgap : content.isGap = true) (hbehind : Written behind items rest) :
      Written (c :: source ++ behind) items rest
  | token {c : Char} {source behind rest : List Char} {t : Token} {items : List Item}
      (hfirst : Segment.first c (source ++ behind) = .ok ⟨c :: source, .token t⟩)
      (hbehind : Written behind items rest) :
      Written (c :: source ++ behind) (.token t :: items) rest
  | dimension {behind rest : List Char} {items : List Item} (size : Option String)
      (hsize : ∀ text ∈ size, PlainSize text) (hbehind : Written behind items rest) :
      Written ('[' :: ((size.getD "").toList ++ ']' :: behind)) (.dimension size :: items) rest
  | width {behind rest : List Char} {items : List Item} (text : String) (hwidth : PlainWidth text)
      (hstop : ∀ d ∈ behind.head?, Segment.isStop d = true) (hbehind : Written behind items rest) :
      Written (':' :: ' ' :: (text.toList ++ behind)) (.width text :: items) rest

/-- A word is made of the characters of one, and the first of them begins one. -/
theorem exists_chars_of_isIdentifier {word : String}
    (h : Configuration.isIdentifier word = true) : ∃ c tail, word.toList = c :: tail ∧
      Segment.isWordStart c = true ∧ ∀ d ∈ tail, Segment.isWordChar d = true := by
  unfold Configuration.isIdentifier at h
  cases hchars : word.toList with
  | nil =>
    rw [hchars] at h
    cases h
  | cons c tail =>
    rw [hchars] at h
    simp only [Bool.and_eq_true, List.all_eq_true] at h
    exact ⟨c, tail, rfl, h.1, h.2⟩

/-- All characters of a word can stand inside of a word. -/
theorem isWordChar_of_isIdentifier {word : String} (h : Configuration.isIdentifier word = true) :
    ∀ c ∈ word.toList, Segment.isWordChar c = true := by
  obtain ⟨c, tail, hchars, hc, htail⟩ := exists_chars_of_isIdentifier h
  rw [hchars]
  exact List.forall_mem_cons.mpr ⟨Segment.isWordChar_of_isWordStart hc, htail⟩

namespace Written

variable {cs behind rest : List Char} {items more : List Item}

theorem append (h : Written cs items behind) (hmore : Written behind more rest) :
    Written cs (items ++ more) rest := by
  induction h with
  | done behind => exact hmore
  | gap hfirst hgap _ ih => exact .gap hfirst hgap (ih hmore)
  | token hfirst _ ih => exact .token hfirst (ih hmore)
  | dimension size hsize _ ih => exact .dimension size hsize (ih hmore)
  | width text hwidth hstop _ ih => exact .width text hwidth hstop (ih hmore)

theorem space (h : Written cs items rest) : Written (' ' :: cs) items rest :=
  @Written.gap ' ' [] cs rest .blank items rfl rfl h

theorem newline (h : Written cs items rest) : Written ('\n' :: cs) items rest :=
  @Written.gap '\n' [] cs rest .newline items rfl rfl h

/-- A word is written where no other character of a word is behind it. -/
theorem word {text : String} (htext : Configuration.isIdentifier text = true)
    (hrest : ∀ d ∈ rest.head?, Segment.isWordChar d = false) :
    Written (text.toList ++ rest) [.token (.ofWord text)] rest := by
  obtain ⟨c, tail, hchars, hstart, hword⟩ := exists_chars_of_isIdentifier htext
  have htail : (tail ++ rest).takeWhile Segment.isWordChar = tail := by
    rw [List.takeWhile_append_of_pos hword]
    cases rest with
    | nil => simp
    | cons d rest => simp [hrest d rfl]
  have hfirst := Segment.firstToken_of_isWordStart hstart (tail ++ rest)
  rw [htail, ← hchars, String.ofList_toList, hchars] at hfirst
  rw [hchars]
  exact .token hfirst (.done rest)

/-- A mark that stands for itself is written whatever is behind it. -/
theorem mark {c : Char} {t : Token} (h : Token.ofMark? c = some t) (hrest : Written cs items rest) :
    Written (c :: cs) (.token t :: items) rest := by
  refine @Written.token c [] cs rest t items ?_ hrest
  unfold Token.ofMark? at h
  split at h <;> cases h <;> rfl

/-- A star is written where no equals sign is behind it. -/
theorem star (hcs : cs.head? ≠ some '=') (hrest : Written cs items rest) :
    Written ('*' :: cs) (.token .star :: items) rest := by
  refine @Written.token '*' [] cs rest .star items ?_ hrest
  have hstars : ∀ op ∈ Segment.operators.map String.toList, op.head? = some '*' →
      op.tail.head? = some '=' := by
    decide
  have hoperator : Segment.operatorText '*' cs = ['*'] := by
    refine Segment.operatorText_of_ne fun op hop hhead => ?_
    rw [hstars op hop hhead]
    exact hcs.symm
  change Except.ok (Segment.mk (Segment.operatorText '*' cs)
    (.token (.ofOperator (String.ofList (Segment.operatorText '*' cs))))) = _
  rw [hoperator]
  rfl

theorem ellipsis (hrest : Written cs items rest) :
    Written ('.' :: '.' :: '.' :: cs) (.token .ellipsis :: items) rest :=
  @Written.token '.' ['.', '.'] cs rest .ellipsis items rfl hrest

end Written

/-! ## Rows of lexemes that spell items -/

/-- A row of lexemes spells some items: a token is one lexeme, a dimension is a pair of brackets
around a row whose text is the size, and a width is a colon in front of an expression. -/
inductive Spells : List Item → List Lexeme → Prop
  | nil : Spells [] []
  | token {lexeme : Lexeme} {items : List Item} {row : List Lexeme} (hrest : Spells items row) :
      Spells (.token lexeme.token :: items) (lexeme :: row)
  | dimension {opener closer : Lexeme} {inner row : List Lexeme} {items : List Item}
      (size : Option String) (hopener : opener.token = .openBracket)
      (hcloser : closer.token = .closeBracket) (hbalanced : Token.Balanced (Lexeme.tokens inner))
      (hsize : (if (Lexeme.join inner).isEmpty then none else some (Lexeme.join inner)) = size)
      (hrest : Spells items row) :
      Spells (.dimension size :: items) (opener :: (inner ++ closer :: row))
  | width {colon : Lexeme} {inner row : List Lexeme} {items : List Item}
      (hcolon : colon.token = .colon) (hexpression : Token.IsExpression 0 (Lexeme.tokens inner))
      (htext : Lexeme.join inner ≠ "") (hrest : Spells items row) :
      Spells (.width (Lexeme.join inner) :: items) (colon :: (inner ++ row))

/-- Two rows that spell some items spell them one behind the other. -/
theorem Spells.append {items more : List Item} {row behind : List Lexeme} (h : Spells items row)
    (hmore : Spells more behind) : Spells (items ++ more) (row ++ behind) := by
  induction h with
  | nil => exact hmore
  | token _ ih => exact .token ih
  | dimension size hopener hcloser hbalanced hsize _ ih =>
    simpa using Spells.dimension size hopener hcloser hbalanced hsize ih
  | width hcolon hexpression htext _ ih => simpa using Spells.width hcolon hexpression htext ih

/-- Each row spells its own tokens. -/
theorem spells_tokens (row : List Lexeme) : Spells ((Lexeme.tokens row).map .token) row := by
  induction row with
  | nil => exact .nil
  | cons lexeme rest ih => exact .token ih

/-- A row that spells two rows of items is two rows. -/
theorem Spells.of_append {items more : List Item} {row : List Lexeme}
    (h : Spells (items ++ more) row) :
    ∃ front back, row = front ++ back ∧ Spells items front ∧ Spells more back := by
  induction items generalizing row with
  | nil => exact ⟨[], row, rfl, .nil, h⟩
  | cons item items ih =>
    cases h with
    | token hrest =>
      obtain ⟨front, back, rfl, hfront, hback⟩ := ih hrest
      exact ⟨_ :: front, back, rfl, .token hfront, hback⟩
    | @dimension opener closer inner _ _ size hopener hcloser hbalanced hsize hrest =>
      obtain ⟨front, back, rfl, hfront, hback⟩ := ih hrest
      exact ⟨opener :: (inner ++ closer :: front), back, by simp,
        .dimension size hopener hcloser hbalanced hsize hfront, hback⟩
    | @width colon inner _ _ hcolon hexpression htext hrest =>
      obtain ⟨front, back, rfl, hfront, hback⟩ := ih hrest
      exact ⟨colon :: (inner ++ front), back, by simp,
        .width hcolon hexpression htext hfront, hback⟩

/-- The token in front of some items, or else the one behind them. -/
def Item.front (behind : Token) : List Item → Token
  | [] => behind
  | .token t :: _ => t
  | .dimension _ :: _ => .openBracket
  | .width _ :: _ => .colon

@[simp] theorem Item.front_append (behind : Token) (items more : List Item) :
    Item.front behind (items ++ more) = Item.front (Item.front behind more) items := by
  cases items with
  | nil => rfl
  | cons item items => cases item <;> rfl

/-- Some trivia have no notes in them. -/
def Quiet (trivia : List Trivia) : Prop :=
  ∀ body position, Trivia.comment body position ∈ trivia → '@' ∉ body.toList

theorem quiet_nil : Quiet [] := nofun

theorem Quiet.append {trivia more : List Trivia} (h : Quiet trivia) (hmore : Quiet more) :
    Quiet (trivia ++ more) := by
  intro body position hmem
  rcases List.mem_append.mp hmem with hmem | hmem
  · exact h body position hmem
  · exact hmore body position hmem

/-- `Reread position newlines pending segments items more`: behind the given state, some segments
are read into a row that spells the items, and `more` is read behind it. -/
def Reread (position : Position) (newlines : Nat) (pending : List Trivia)
    (segments : List Segment) (items : List Item) (more : List Segment) : Prop :=
  ∃ row finish count left, Spells items row ∧ (∀ lexeme ∈ row, Quiet lexeme.trivia) ∧
    Quiet left ∧ Lexed.ofSegments position newlines pending (segments ++ more) =
      { Lexed.ofSegments finish count left more with
        lexemes := row ++ (Lexed.ofSegments finish count left more).lexemes }

variable {position : Position} {newlines : Nat} {pending : List Trivia} {segments more : List Segment}
  {items : List Item}

/-- What stands in a gap leaves quiet trivia behind. -/
theorem Reread.gap {source : List Char} {content : Content} (hgap : content.isGap = true)
    (h : ∀ position newlines pending, Quiet pending →
      Reread position newlines pending segments items more) (hpending : Quiet pending) :
    Reread position newlines pending (⟨source, content⟩ :: segments) items more := by
  cases content with
  | newline =>
    refine h (position.after source) (newlines + 1) _ ?_
    split
    · exact hpending.append fun body position hmem => by simp at hmem
    · exact hpending
  | blank => exact h (position.after source) newlines _ hpending
  | joinedLine => exact h (position.after source) newlines _ hpending
  | comment body =>
    refine h (position.after source) 0 _ (hpending.append ?_)
    intro other position hmem
    obtain ⟨rfl, rfl⟩ : other = body ∧ position = _ := by simpa using hmem
    simpa [Content.isGap] using hgap
  | token t => cases hgap
  | directive included => cases hgap

theorem Reread.token {source : List Char} {t : Token}
    (h : ∀ position, Reread position 0 [] segments items more) (hpending : Quiet pending) :
    Reread position newlines pending (⟨source, .token t⟩ :: segments) (.token t :: items) more := by
  obtain ⟨row, finish, count, left, hspells, hrow, hleft, heq⟩ := h (position.after source)
  refine ⟨⟨t, position, pending⟩ :: row, finish, count, left,
    @Spells.token ⟨t, position, pending⟩ _ _ hspells, ?_, hleft, ?_⟩
  · intro lexeme hlexeme
    rcases List.mem_cons.mp hlexeme with rfl | hlexeme
    · exact hpending
    · exact hrow lexeme hlexeme
  · change Lexed.cons _ (Lexed.ofSegments (position.after source) 0 [] (segments ++ more)) = _
    rw [heq]
    rfl

/-- The text of a size is not empty. -/
theorem Lexeme.join_ne_empty {cs : List Char} {row : List Lexeme} (h : Read cs row)
    (hplain : TokensOnly row) (hrow : row ≠ []) : join row ≠ "" := by
  cases h with
  | nil => exact absurd rfl hrow
  | inclusion _ htoken _ => exact absurd htoken (hplain _ (List.mem_cons_self ..) _)
  | token hfirst htouches hrest =>
    intro hempty
    have htext := Segment.toList_text_of_first hfirst
    rw [join_cons, ← String.toList_inj, String.toList_append, htext] at hempty
    cases hempty

/-- A plain row is read again from its segments, into lexemes without trivia. -/
theorem Lexeme.exists_quiet_again {row : List Lexeme} (h : Legible row) (hplain : TokensOnly row)
    (hrow : row ≠ []) (position : Position) (more : List Segment) :
    ∃ again finish, tokens again = tokens row ∧ join again = join row ∧
      (∀ lexeme ∈ again, Quiet lexeme.trivia) ∧
      Lexed.ofSegments position 0 [] (Lexeme.segments row ++ more) =
        { Lexed.ofSegments finish 0 [] more with
          lexemes := again ++ (Lexed.ofSegments finish 0 [] more).lexemes } := by
  obtain ⟨cs, hread⟩ := h
  obtain ⟨again, finish, hagain, heq⟩ := exists_again hread hplain hrow position 0 [] more
  refine ⟨again, finish, hagain.tokens, hagain.text, fun lexeme hlexeme => ?_, heq⟩
  rw [(hagain.trivia lexeme hlexeme).elim id id]
  exact quiet_nil

/-- The segments of a size, which are read into a row with the text of the size. -/
structure SizeSegments (size : Option String) (inner : List Segment) : Prop where
  cut : ∀ behind, Segment.cut 0 ((size.getD "").toList ++ ']' :: behind) =
    (inner ++ (Segment.cut 0 (']' :: behind)).1, (Segment.cut 0 (']' :: behind)).2)
  read : ∀ position more, ∃ row finish, Token.Balanced (Lexeme.tokens row) ∧
    (if (Lexeme.join row).isEmpty then none else some (Lexeme.join row)) = size ∧
    (∀ lexeme ∈ row, Quiet lexeme.trivia) ∧
    Lexed.ofSegments position 0 [] (inner ++ more) =
      { Lexed.ofSegments finish 0 [] more with
        lexemes := row ++ (Lexed.ofSegments finish 0 [] more).lexemes }

theorem exists_sizeSegments {size : Option String} (hsize : ∀ text ∈ size, PlainSize text) :
    ∃ inner, SizeSegments size inner := by
  cases size with
  | none =>
    exact ⟨[], fun _ => rfl, fun position more => ⟨[], position, .nil, rfl, nofun, rfl⟩⟩
  | some text =>
    obtain ⟨row, hlegible, hplain, hbalanced, hrow, rfl⟩ := hsize text rfl
    obtain ⟨cs, hread⟩ := hlegible
    have hstop : ∀ behind : List Char, ∀ d ∈ (']' :: behind).head?, Segment.isStop d = true := by
      rintro behind d hd
      cases hd
      rfl
    refine ⟨Lexeme.segments row, fun behind => Lexeme.cut_join hread hplain (hstop behind), ?_⟩
    intro position more
    obtain ⟨again, finish, htokens, htext, hquiet, heq⟩ :=
      Lexeme.exists_quiet_again ⟨cs, hread⟩ hplain hrow position more
    have hempty : (Lexeme.join row).isEmpty = false := by
      rw [← Bool.not_eq_true, String.isEmpty_iff]
      exact Lexeme.join_ne_empty hread hplain hrow
    refine ⟨again, finish, ?_, ?_, hquiet, heq⟩
    · rw [htokens]
      exact hbalanced
    · rw [htext, hempty]
      rfl

theorem Reread.dimension {size : Option String} {inner : List Segment}
    (hinner : SizeSegments size inner)
    (h : ∀ position, Reread position 0 [] segments items more) (hpending : Quiet pending) :
    Reread position newlines pending (⟨['['], .token .openBracket⟩ :: (inner ++
      ⟨[']'], .token .closeBracket⟩ :: segments)) (.dimension size :: items) more := by
  obtain ⟨row, middle, hbalanced, hsize, hquiet, hread⟩ :=
    hinner.read (position.after ['[']) (⟨[']'], .token .closeBracket⟩ :: (segments ++ more))
  obtain ⟨behind, finish, count, left, hspells, hbehind, hleft, heq⟩ := h (middle.after [']'])
  let opener : Lexeme := ⟨.openBracket, position, pending⟩
  let closer : Lexeme := ⟨.closeBracket, middle, []⟩
  refine ⟨opener :: (row ++ closer :: behind), finish, count, left,
    .dimension size rfl rfl hbalanced hsize hspells, ?_, hleft, ?_⟩
  · intro lexeme hlexeme
    rcases List.mem_cons.mp hlexeme with rfl | hlexeme
    · exact hpending
    rcases List.mem_append.mp hlexeme with hlexeme | hlexeme
    · exact hquiet lexeme hlexeme
    rcases List.mem_cons.mp hlexeme with rfl | hlexeme
    · exact quiet_nil
    · exact hbehind lexeme hlexeme
  · have hcloser : Lexed.ofSegments middle 0 []
          (⟨[']'], .token .closeBracket⟩ :: (segments ++ more)) =
        Lexed.cons closer (Lexed.ofSegments (middle.after [']']) 0 [] (segments ++ more)) := rfl
    have hopener : ∀ rest, Lexed.ofSegments position newlines pending
          (⟨['['], .token .openBracket⟩ :: rest) =
        Lexed.cons opener (Lexed.ofSegments (position.after ['[']) 0 [] rest) := fun _ => rfl
    rw [List.cons_append, List.append_assoc, List.cons_append, hopener, hread, hcloser, heq]
    simp [Lexed.cons]

/-- A width is read again behind its colon. -/
theorem Reread.width {row : List Lexeme} (hlegible : Lexeme.Legible row)
    (hplain : Lexeme.TokensOnly row) (hexpression : Token.IsExpression 0 (Lexeme.tokens row))
    (hrow : row ≠ []) (h : ∀ position, Reread position 0 [] segments items more)
    (hpending : Quiet pending) :
    Reread position newlines pending (⟨[':'], .token .colon⟩ :: ⟨[' '], .blank⟩ ::
      (Lexeme.segments row ++ segments)) (.width (Lexeme.join row) :: items) more := by
  obtain ⟨again, middle, htokens, htext, hquiet, hread⟩ := Lexeme.exists_quiet_again hlegible hplain
    hrow ((position.after [':']).after [' ']) (segments ++ more)
  obtain ⟨behind, finish, count, left, hspells, hbehind, hleft, heq⟩ := h middle
  let colon : Lexeme := ⟨.colon, position, pending⟩
  have hne : Lexeme.join again ≠ "" := by
    rw [htext]
    obtain ⟨cs, hread⟩ := hlegible
    exact Lexeme.join_ne_empty hread hplain hrow
  have hitem : Spells (.width (Lexeme.join again) :: items) (colon :: (again ++ behind)) :=
    .width rfl (htokens ▸ hexpression) hne hspells
  rw [htext] at hitem
  refine ⟨colon :: (again ++ behind), finish, count, left, hitem, ?_, hleft, ?_⟩
  · intro lexeme hlexeme
    rcases List.mem_cons.mp hlexeme with rfl | hlexeme
    · exact hpending
    · exact (List.mem_append.mp hlexeme).elim (hquiet lexeme) (hbehind lexeme)
  · have hcolon : ∀ rest, Lexed.ofSegments position newlines pending
          (⟨[':'], .token .colon⟩ :: ⟨[' '], .blank⟩ :: rest) =
        Lexed.cons colon
          (Lexed.ofSegments ((position.after [':']).after [' ']) 0 [] rest) := fun _ => rfl
    rw [List.cons_append, List.cons_append, List.append_assoc, hcolon, hread, heq]
    simp [Lexed.cons]

/-- A text that is written from items is read into a row that spells them. -/
theorem Written.reread {cs rest : List Char} (h : Written cs items rest) :
    ∃ segments, Segment.cut 0 cs =
        (segments ++ (Segment.cut 0 rest).1, (Segment.cut 0 rest).2) ∧
      ∀ position newlines pending more, Quiet pending →
        Reread position newlines pending segments items more := by
  induction h with
  | done rest =>
    refine ⟨[], rfl, fun position newlines pending more hpending => ?_⟩
    exact ⟨[], position, newlines, pending, .nil, nofun, hpending, rfl⟩
  | @gap c source behind rest content items hfirst hgap hbehind ih =>
    obtain ⟨segments, hcut, hreread⟩ := ih
    refine ⟨⟨c :: source, content⟩ :: segments, ?_, ?_⟩
    · rw [List.cons_append, Segment.cut_of_ok hfirst rfl, hcut]
      rfl
    · intro position newlines pending more hpending
      exact .gap hgap (fun p n pending => hreread p n pending more) hpending
  | @token c source behind rest t items hfirst hbehind ih =>
    obtain ⟨segments, hcut, hreread⟩ := ih
    refine ⟨⟨c :: source, .token t⟩ :: segments, ?_, ?_⟩
    · rw [List.cons_append, Segment.cut_of_ok hfirst rfl, hcut]
      rfl
    · intro position newlines pending more hpending
      exact .token (fun p => hreread p 0 [] more quiet_nil) hpending
  | @dimension behind rest items size hsize hbehind ih =>
    obtain ⟨segments, hcut, hreread⟩ := ih
    obtain ⟨inner, hinner⟩ := exists_sizeSegments hsize
    refine ⟨⟨['['], .token .openBracket⟩ :: (inner ++ ⟨[']'], .token .closeBracket⟩ :: segments),
      ?_, ?_⟩
    · have hcloser : Segment.cut 0 (']' :: behind) = (⟨[']'], .token .closeBracket⟩ ::
          (Segment.cut 0 behind).1, (Segment.cut 0 behind).2) := Segment.cut_of_ok rfl rfl
      have hopener : ∀ cs, Segment.cut 0 ('[' :: cs) = (⟨['['], .token .openBracket⟩ ::
          (Segment.cut 0 cs).1, (Segment.cut 0 cs).2) := fun _ => Segment.cut_of_ok rfl rfl
      rw [hopener, hinner.cut, hcloser, hcut]
      simp
    · intro position newlines pending more hpending
      exact .dimension hinner (fun p => hreread p 0 [] more quiet_nil) hpending
  | @width behind rest items text hwidth hstop hbehind ih =>
    obtain ⟨segments, hcut, hreread⟩ := ih
    obtain ⟨row, hlegible, hplain, hexpression, hrow, rfl⟩ := hwidth
    refine ⟨⟨[':'], .token .colon⟩ :: ⟨[' '], .blank⟩ :: (Lexeme.segments row ++ segments), ?_, ?_⟩
    · have hcolon : ∀ cs, Segment.cut 0 (':' :: cs) = (⟨[':'], .token .colon⟩ ::
          (Segment.cut 0 cs).1, (Segment.cut 0 cs).2) := fun _ => Segment.cut_of_ok rfl rfl
      obtain ⟨cs, hread⟩ := hlegible
      rw [hcolon, Lexeme.cut_blank, Lexeme.cut_join hread hplain hstop, hcut]
      simp
    · intro position newlines pending more hpending
      have hbehind := fun p => hreread p 0 [] more quiet_nil
      exact .width hlegible hplain hexpression hrow hbehind hpending

/-- A text that is written from items to its end is read into a row that spells them. -/
theorem Written.ofChars {cs : List Char} (h : Written cs items []) :
    ∃ lexed, Lexed.ofChars cs = .ok lexed ∧ Spells items lexed.lexemes ∧
      (∀ lexeme ∈ lexed.lexemes, Quiet lexeme.trivia) ∧ Quiet lexed.closing := by
  obtain ⟨segments, hcut, hreread⟩ := h.reread
  obtain ⟨row, finish, count, left, hspells, hrow, hleft, heq⟩ :=
    hreread .start 0 [] [] quiet_nil
  have hsegments : Segment.cut 0 cs = (segments, none) := by
    rw [hcut]
    simp [Segment.cut]
  refine ⟨Lexed.ofSegments .start 0 [] segments, ?_, ?_⟩
  · unfold Lexed.ofChars
    rw [hsegments]
  · rw [List.append_nil] at heq
    rw [heq]
    simp only [Lexed.ofSegments, List.append_nil]
    exact ⟨hspells, hrow, hleft⟩

end RemoteCalls
