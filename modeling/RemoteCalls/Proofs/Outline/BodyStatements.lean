import RemoteCalls.Proofs.Token.Arguments

/-!
# The statements of a body

The body of a function is a row of statements: simple ones, which go up to a semicolon outside of
groups, and blocks, with labels and words of control in front of them. Every row of lexemes that
closes the groups it opens is such a body, and there is just one way to cut it into statements.
-/

namespace RemoteCalls

namespace Token

/-- A row of tokens with `depth` groups open closes them all, and its semicolons are inside of
groups. -/
def IsStatement : (depth : Nat) → List Token → Prop
  | depth, [] => depth = 0
  | depth, t :: ts =>
    (depth = 0 → t.isCloser = false ∧ t ≠ .semicolon) ∧
      IsStatement (Lexeme.depthBehind depth t) ts

/-- Whether the colons of a row of tokens belong to question marks in front of them; `waiting`
question marks are without a colon so far. -/
def colonsMatch : (waiting : Nat) → List Token → Bool
  | waiting, [] => waiting == 0
  | waiting, t :: ts =>
    if t = .operator "?" then colonsMatch (waiting + 1) ts
    else if t = .colon then waiting != 0 && colonsMatch (waiting - 1) ts
    else colonsMatch waiting ts

end Token

/-- The body of a function, cut into its statements. -/
inductive Body where
  | done
  /-- An expression, a declaration, a jump or a marker statement, with the semicolon behind it. -/
  | simple (row : List Lexeme) (semicolon : Lexeme) (rest : Body)
  /-- What is left at the end of a block without a semicolon. -/
  | unfinished (row : List Lexeme)
  /-- What leads to a statement: a label, a word of control with its group, or a directive. -/
  | leading (row : List Lexeme) (rest : Body)
  /-- A block, with the macro that heads it if there is one. -/
  | block (head : List Lexeme) (opener : Lexeme) (inner : Body) (closer : Lexeme) (rest : Body)

namespace Body

/-- The words of control with a group behind them. -/
def groupWords : List String := ["if", "while", "for", "switch"]

/-- The words of control that stand alone. -/
def loneWords : List String := ["else", "do"]

/-- Whether a name is a word of control. A configured marker is none. -/
def isControl (rules : NoteRules) (word : String) : Bool :=
  ("case" :: groupWords ++ loneWords).contains word && !rules.isMarker word

/-- A row leads to a statement. -/
inductive Leads (rules : NoteRules) : List Lexeme → Prop
  | label {name colon : Lexeme} {word : String} (hname : name.token = .identifier word)
      (hword : isControl rules word = false) (hcolon : colon.token = .colon) :
      Leads rules [name, colon]
  | case {name colon : Lexeme} {value : List Lexeme} (hname : name.token = .identifier "case")
      (hword : isControl rules "case" = true)
      (hvalue : Token.IsStatement 0 (Lexeme.tokens value))
      (hmatch : Token.colonsMatch 0 (Lexeme.tokens value) = true) (hcolon : colon.token = .colon) :
      Leads rules (name :: (value ++ [colon]))
  | group {name opener closer : Lexeme} {inner : List Lexeme} {word : String}
      (hname : name.token = .identifier word) (hword : isControl rules word = true)
      (hgroup : word ∈ groupWords) (hopener : opener.token = .openParen)
      (hinner : Token.Balanced (Lexeme.tokens inner)) (hcloser : closer.token.isCloser = true) :
      Leads rules (name :: opener :: (inner ++ [closer]))
  | word {name : Lexeme} {word : String} (hname : name.token = .identifier word)
      (hword : isControl rules word = true) (hlone : word ∈ loneWords) : Leads rules [name]
  | inclusion {lexeme : Lexeme} {header : Inclusion} (hlexeme : lexeme.token = .inclusion header) :
      Leads rules [lexeme]

/-- A row can stand in front of a block: nothing, or a macro. -/
inductive Heads (rules : NoteRules) : List Lexeme → Prop
  | nil : Heads rules []
  | name {name : Lexeme} {word : String} (hname : name.token = .identifier word)
      (hword : isControl rules word = false) : Heads rules [name]
  | call {name opener closer : Lexeme} {inner : List Lexeme} {word : String}
      (hname : name.token = .identifier word) (hword : isControl rules word = false)
      (hopener : opener.token = .openParen) (hinner : Token.Balanced (Lexeme.tokens inner))
      (hcloser : closer.token.isCloser = true) : Heads rules (name :: opener :: (inner ++ [closer]))

/-- Something that leads to a statement is in front of a row. -/
def LeadsAt (rules : NoteRules) (row : List Lexeme) : Prop :=
  ∃ front behind, row = front ++ behind ∧ Leads rules front

/-- A block is in front of a row. -/
def BlockAt (rules : NoteRules) (row : List Lexeme) : Prop :=
  ∃ head opener behind, row = head ++ opener :: behind ∧ Heads rules head ∧
    opener.token = .openBrace

/-- A row is a simple statement without its semicolon. -/
structure Simple (rules : NoteRules) (row : List Lexeme) : Prop where
  whole : Token.IsStatement 0 (Lexeme.tokens row)
  not_leadsAt : ¬LeadsAt rules row
  not_blockAt : ¬BlockAt rules row

/-- The lexemes of a body. -/
def row : Body → List Lexeme
  | done => []
  | simple row semicolon rest => row ++ semicolon :: rest.row
  | unfinished row => row
  | leading row rest => row ++ rest.row
  | block head opener inner closer rest => head ++ opener :: (inner.row ++ closer :: rest.row)

/-- Each statement of a body is what it is taken for. -/
def WellFormed (rules : NoteRules) : Body → Prop
  | done => True
  | simple row semicolon rest =>
    Simple rules row ∧ semicolon.token = .semicolon ∧ rest.WellFormed rules
  | unfinished row => Simple rules row ∧ row ≠ []
  | leading row rest => Leads rules row ∧ rest.WellFormed rules
  | block head opener inner closer rest =>
    Heads rules head ∧ opener.token = .openBrace ∧ inner.WellFormed rules ∧
      closer.token.isCloser = true ∧ rest.WellFormed rules

end Body

/-! ## Groups and statements -/

/-- Two cuts of a row are the same if each is at the first stop behind a front of its kind. -/
theorem eq_of_stop {α : Type} (good : List α → Prop) (stop : α → Prop)
    {front front' behind behind' : List α} {last last' : α}
    (hstop : ∀ {front last more}, good front → stop last → ¬good (front ++ last :: more))
    (hfront : good front) (hlast : stop last) (hfront' : good front') (hlast' : stop last')
    (heq : front ++ last :: behind = front' ++ last' :: behind') :
    front = front' ∧ last = last' ∧ behind = behind' := by
  rcases List.append_eq_append_iff.mp heq with ⟨more, rfl, htail⟩ | ⟨more, rfl, htail⟩
  · cases more with
    | nil =>
      obtain ⟨rfl, rfl⟩ := List.cons.inj htail
      simp
    | cons next more =>
      obtain ⟨rfl, -⟩ := List.cons.inj htail
      exact absurd hfront' (hstop hfront hlast)
  · cases more with
    | nil =>
      obtain ⟨rfl, rfl⟩ := List.cons.inj htail
      simp
    | cons next more =>
      obtain ⟨rfl, -⟩ := List.cons.inj htail
      exact absurd hfront (hstop hfront' hlast')

namespace Token

variable {ts us : List Token}

theorem IsStatement.nest {depth : Nat} (h : IsStatement depth ts) : nest depth ts = some 0 := by
  induction ts generalizing depth with
  | nil => exact congrArg some h
  | cons t ts ih => exact nest_cons_eq_some.mpr ⟨fun hdepth => (h.1 hdepth).1, ih h.2⟩

theorem IsStatement.append {depth : Nat} (h : IsStatement depth ts) (hmore : IsStatement 0 us) :
    IsStatement depth (ts ++ us) := by
  induction ts generalizing depth with
  | nil =>
    obtain rfl : depth = 0 := h
    exact hmore
  | cons t ts ih => exact ⟨h.1, ih h.2⟩

/-- A statement does not go on behind a semicolon. -/
theorem IsStatement.not_append {depth : Nat} (h : IsStatement depth ts) :
    ¬IsStatement depth (ts ++ .semicolon :: us) := by
  induction ts generalizing depth with
  | nil =>
    obtain rfl : depth = 0 := h
    exact fun hmore => (hmore.1 rfl).2 rfl
  | cons t ts ih => exact fun hmore => ih h.2 hmore.2

/-- Inside of a group semicolons do not count. -/
theorem IsStatement.of_nest {depth : Nat} {closer : Token} (h : Token.nest depth ts = some 0)
    (hcloser : closer.isCloser = true) : IsStatement (depth + 1) (ts ++ [closer]) := by
  induction ts generalizing depth with
  | nil =>
    obtain rfl : depth = 0 := Option.some.inj h
    have hopener := isOpener_of_isCloser hcloser
    refine ⟨fun hdepth => absurd hdepth (Nat.succ_ne_zero _), ?_⟩
    simp [Lexeme.depthBehind, hopener, hcloser, IsStatement]
  | cons t ts ih =>
    obtain ⟨hclosed, hrest⟩ := nest_cons_eq_some.mp h
    refine ⟨fun hdepth => absurd hdepth (Nat.succ_ne_zero _), ?_⟩
    change IsStatement (Lexeme.depthBehind (depth + 1) t) (ts ++ [closer])
    rw [depthBehind_add hclosed]
    exact ih hrest

/-- Behind colons that match the next colon does not. -/
theorem colonsMatch_append {waiting : Nat} (h : colonsMatch waiting ts = true) :
    colonsMatch waiting (ts ++ .colon :: us) = false := by
  induction ts generalizing waiting with
  | nil =>
    obtain rfl : waiting = 0 := beq_iff_eq.mp h
    rfl
  | cons t ts ih =>
    rw [List.cons_append]
    unfold colonsMatch at h ⊢
    split at h
    · next hquestion => simpa [hquestion] using ih h
    split at h
    · next hcolon =>
      rw [Bool.and_eq_true] at h
      simp [hcolon, ih h.2]
    · next hquestion hcolon => simpa [hquestion, hcolon] using ih h

/-- A row that closes more groups than it opens has the end of the group around it. -/
theorem exists_closer {depth : Nat} (outer : Nat) (h : nest (depth + outer + 1) ts = some 0) :
    ∃ inner closer rest, ts = inner ++ closer :: rest ∧ closer.isCloser = true ∧
      nest depth inner = some 0 ∧ nest outer rest = some 0 := by
  induction ts generalizing depth with
  | nil => cases Option.some.inj h
  | cons t ts ih =>
    obtain ⟨-, hrest⟩ := nest_cons_eq_some.mp h
    by_cases hclosed : depth = 0 → t.isCloser = false
    · rw [Nat.add_assoc, depthBehind_add hclosed, ← Nat.add_assoc] at hrest
      obtain ⟨inner, closer, rest, rfl, hcloser, hinner, hbehind⟩ := ih hrest
      exact ⟨t :: inner, closer, rest, rfl, hcloser, nest_cons_eq_some.mpr ⟨hclosed, hinner⟩,
        hbehind⟩
    · -- The token closes the group around the row.
      obtain ⟨rfl, hcloser⟩ := Classical.not_imp.mp hclosed
      rw [Bool.not_eq_false] at hcloser
      refine ⟨[], t, ts, rfl, hcloser, rfl, ?_⟩
      simpa [Lexeme.depthBehind, isOpener_of_isCloser hcloser, hcloser] using hrest

/-- A row that closes its groups does not go on behind the end of the group around it. -/
theorem Balanced.not_append {closer : Token} (h : Balanced ts) (hcloser : closer.isCloser = true) :
    ¬Balanced (ts ++ closer :: us) := by
  intro hmore
  have hclosed := (nest_cons_eq_some.mp (hmore.of_append h)).1 rfl
  rw [hcloser] at hclosed
  cases hclosed

/-- A group that is properly nested has the delimiters of one kind, and what is inside and what is
behind it is nested. -/
theorem Nested.of_group {opener closer : Token} (h : Nested (opener :: (ts ++ closer :: us)))
    (hopener : opener.isOpener = true) (hinner : Balanced ts) (hcloser : closer.isCloser = true) :
    opener.closer? = some closer ∧ Nested ts ∧ Nested us := by
  generalize hrow : opener :: (ts ++ closer :: us) = row at h
  cases h with
  | nil => cases hrow
  | plain hplain =>
    obtain ⟨rfl, -⟩ := List.cons.inj hrow
    rw [hopener] at hplain
    cases hplain
  | @group opener' closer' inner rest hcloses hinner' hrest =>
    obtain ⟨rfl, htail⟩ := List.cons.inj hrow
    obtain ⟨rfl, rfl, rfl⟩ := eq_of_stop Balanced (fun t => t.isCloser = true)
      (fun hfront hlast => hfront.not_append hlast) hinner hcloser hinner'.balanced
      (isOpener_of_closer? hcloses).2 htail
    exact ⟨hcloses, hinner', hrest⟩

/-- A nested row is nested on both sides of a place outside of its groups. -/
theorem Nested.of_append (h : Nested (ts ++ us)) (hfront : Balanced ts) :
    Nested ts ∧ Nested us := by
  induction hlength : ts.length using Nat.strong_induction_on generalizing ts with
  | h length ih =>
  subst hlength
  cases ts with
  | nil => exact ⟨.nil, h⟩
  | cons t ts =>
    have hrest := (nest_cons_eq_some.mp hfront).2
    by_cases hopener : t.isOpener = true
    · rw [Lexeme.depthBehind, if_pos hopener] at hrest
      obtain ⟨inner, closer, rest, rfl, hcloser, hinner, hbehind⟩ := @exists_closer _ 0 0 hrest
      rw [List.cons_append, List.append_assoc, List.cons_append] at h
      obtain ⟨hcloses, hnested, hmore⟩ := h.of_group hopener hinner hcloser
      obtain ⟨htail, hus⟩ := ih rest.length (by simp; omega) hmore hbehind rfl
      exact ⟨.group hcloses hnested htail, hus⟩
    · have hcloser := (nest_cons_eq_some.mp hfront).1 rfl
      rw [Lexeme.depthBehind, if_neg hopener, hcloser, if_neg Bool.false_ne_true] at hrest
      generalize hrow : t :: ts ++ us = row at h
      cases h with
      | nil => cases hrow
      | plain hplain hclosed htail =>
        obtain ⟨rfl, rfl⟩ := List.cons.inj hrow
        obtain ⟨hnested, hus⟩ := ih ts.length (by simp) htail hrest rfl
        exact ⟨.plain hplain hclosed hnested, hus⟩
      | group hcloses _ _ =>
        obtain ⟨rfl, -⟩ := List.cons.inj hrow
        exact absurd (isOpener_of_closer? hcloses).1 hopener

end Token

namespace Lexeme

variable {row : List Lexeme} {depth : Nat}

/-- A row of balanced groups is a statement, or one ends at a semicolon in it. -/
theorem exists_statement (h : Token.nest depth (tokens row) = some 0) :
    Token.IsStatement depth (tokens row) ∨ ∃ front semicolon rest,
      row = front ++ semicolon :: rest ∧ semicolon.token = .semicolon ∧
      Token.IsStatement depth (tokens front) ∧ Token.Balanced (tokens rest) := by
  induction row generalizing depth with
  | nil => exact .inl (Option.some.inj h)
  | cons lexeme rest ih =>
    obtain ⟨hclosed, hrest⟩ : (depth = 0 → lexeme.token.isCloser = false) ∧
        Token.nest (depthBehind depth lexeme.token) (tokens rest) = some 0 :=
      Token.nest_cons_eq_some.mp h
    by_cases hends : depth = 0 ∧ lexeme.token = .semicolon
    · obtain ⟨rfl, hsemicolon⟩ := hends
      rw [hsemicolon] at hrest
      exact .inr ⟨[], lexeme, rest, rfl, hsemicolon, rfl, hrest⟩
    have hfirst : depth = 0 → lexeme.token.isCloser = false ∧ lexeme.token ≠ .semicolon :=
      fun hdepth => ⟨hclosed hdepth, fun hsemicolon => hends ⟨hdepth, hsemicolon⟩⟩
    rcases ih hrest with hwhole | ⟨front, semicolon, behind, rfl, hsemicolon, hfront, hbehind⟩
    · exact .inl ⟨hfirst, hwhole⟩
    · exact .inr ⟨lexeme :: front, semicolon, behind, rfl, hsemicolon, ⟨hfirst, hfront⟩, hbehind⟩

end Lexeme

namespace Body

variable {rules : NoteRules} {row front front' behind behind' : List Lexeme}

/-! ## Rows in front of statements -/

/-- A name with a group behind it has its semicolons in the group. -/
theorem isStatement_of_group {name opener closer : Lexeme} {inner : List Lexeme} {word : String}
    (hname : name.token = .identifier word) (hopener : opener.token = .openParen)
    (hinner : Token.Balanced (Lexeme.tokens inner)) (hcloser : closer.token.isCloser = true) :
    Token.IsStatement 0 (Lexeme.tokens (name :: opener :: (inner ++ [closer]))) := by
  have hgroup := Token.IsStatement.of_nest hinner hcloser
  rw [Lexeme.tokens, List.map_cons, List.map_cons, List.map_append, hname, hopener]
  exact ⟨fun _ => ⟨rfl, by simp⟩, fun _ => ⟨rfl, by simp⟩, hgroup⟩

theorem isStatement_cons {lexeme : Lexeme} (hopener : lexeme.token.isOpener = false)
    (hcloser : lexeme.token.isCloser = false) (hsemicolon : lexeme.token ≠ .semicolon)
    (h : Token.IsStatement 0 (Lexeme.tokens row)) :
    Token.IsStatement 0 (Lexeme.tokens (lexeme :: row)) := by
  have hdepth : Lexeme.depthBehind 0 lexeme.token = 0 := by
    simp [Lexeme.depthBehind, hopener, hcloser]
  refine ⟨fun _ => ⟨hcloser, hsemicolon⟩, ?_⟩
  change Token.IsStatement (Lexeme.depthBehind 0 lexeme.token) (Lexeme.tokens row)
  rwa [hdepth]

theorem isStatement_nil : Token.IsStatement 0 (Lexeme.tokens []) := rfl

/-- What leads to a statement has its semicolons in groups. -/
theorem Leads.isStatement (h : Leads rules front) : Token.IsStatement 0 (Lexeme.tokens front) := by
  cases h with
  | label hname _ hcolon =>
    refine isStatement_cons ?_ ?_ ?_ (isStatement_cons ?_ ?_ ?_ isStatement_nil) <;>
      simp [hname, hcolon, Token.isOpener, Token.isCloser]
  | @case name colon value hname _ hvalue _ hcolon =>
    have hlast : Token.IsStatement 0 (Lexeme.tokens [colon]) := by
      refine isStatement_cons ?_ ?_ ?_ isStatement_nil <;>
        simp [hcolon, Token.isOpener, Token.isCloser]
    have hrow : Token.IsStatement 0 (Lexeme.tokens (value ++ [colon])) := by
      rw [Lexeme.tokens, List.map_append]
      exact hvalue.append hlast
    refine isStatement_cons ?_ ?_ ?_ hrow <;> simp [hname, Token.isOpener, Token.isCloser]
  | group hname _ _ hopener hinner hcloser =>
    exact isStatement_of_group hname hopener hinner hcloser
  | word hname _ _ =>
    refine isStatement_cons ?_ ?_ ?_ isStatement_nil <;>
      simp [hname, Token.isOpener, Token.isCloser]
  | inclusion hlexeme =>
    refine isStatement_cons ?_ ?_ ?_ isStatement_nil <;>
      simp [hlexeme, Token.isOpener, Token.isCloser]

/-- So has the macro in front of a block. -/
theorem Heads.isStatement (h : Heads rules front) : Token.IsStatement 0 (Lexeme.tokens front) := by
  cases h with
  | nil => exact isStatement_nil
  | name hname _ =>
    refine isStatement_cons ?_ ?_ ?_ isStatement_nil <;>
      simp [hname, Token.isOpener, Token.isCloser]
  | call hname _ hopener hinner hcloser => exact isStatement_of_group hname hopener hinner hcloser

theorem Leads.ne_nil (h : Leads rules row) : row ≠ [] := by
  cases h <;> exact List.cons_ne_nil _ _

/-! ## Every body has statements -/

/-- What is behind a row that closes its groups closes its own. -/
theorem balanced_of_append {front behind : List Lexeme}
    (h : Token.Balanced (Lexeme.tokens (front ++ behind)))
    (hfront : Token.Balanced (Lexeme.tokens front)) : Token.Balanced (Lexeme.tokens behind) := by
  rw [Lexeme.tokens, List.map_append] at h
  exact h.of_append hfront

theorem LeadsAt.append (h : LeadsAt rules row) (behind : List Lexeme) :
    LeadsAt rules (row ++ behind) := by
  obtain ⟨front, more, rfl, hfront⟩ := h
  exact ⟨front, more ++ behind, by simp, hfront⟩

theorem BlockAt.append (h : BlockAt rules row) (behind : List Lexeme) :
    BlockAt rules (row ++ behind) := by
  obtain ⟨head, opener, more, rfl, hhead, hopener⟩ := h
  exact ⟨head, opener, more ++ behind, by simp, hhead, hopener⟩

/-- Every row of balanced groups is a body. -/
theorem exists_of_balanced (rules : NoteRules) (h : Token.Balanced (Lexeme.tokens row)) :
    ∃ b : Body, b.WellFormed rules ∧ b.row = row := by
  induction hlength : row.length using Nat.strong_induction_on generalizing row with
  | h length ih =>
  subst hlength
  by_cases hlead : LeadsAt rules row
  · obtain ⟨front, behind, rfl, hfront⟩ := hlead
    have hpos := List.length_pos_iff.mpr hfront.ne_nil
    obtain ⟨rest, hrest, rfl⟩ :=
      ih behind.length (by simp; omega) (balanced_of_append h hfront.isStatement.nest) rfl
    exact ⟨leading front rest, ⟨hfront, hrest⟩, rfl⟩
  by_cases hblock : BlockAt rules row
  · obtain ⟨head, opener, behind, rfl, hhead, hopener⟩ := hblock
    have hbehind : Token.nest 1 (Lexeme.tokens behind) = some 0 := by
      have hbehind := balanced_of_append h hhead.isStatement.nest
      unfold Token.Balanced at hbehind
      simpa [Lexeme.tokens, Token.nest, hopener, Token.isOpener] using hbehind
    obtain ⟨_, _, _, hgroup, hcloser, hinside, hafter⟩ := @Token.exists_closer _ 0 0 hbehind
    obtain ⟨inside, tail, rfl, rfl, htail⟩ := List.map_eq_append_iff.mp hgroup
    obtain ⟨closer, after, rfl, rfl, rfl⟩ := List.map_eq_cons_iff.mp htail
    obtain ⟨inner, hinner, rfl⟩ := ih inside.length (by simp; omega) hinside rfl
    obtain ⟨rest, hrest, rfl⟩ := ih after.length (by simp; omega) hafter rfl
    exact ⟨block head opener inner closer rest, ⟨hhead, hopener, hinner, hcloser, hrest⟩, rfl⟩
  rcases Lexeme.exists_statement h with
    hwhole | ⟨front, semicolon, behind, rfl, hsemicolon, hwhole, hbehind⟩
  · by_cases hnil : row = []
    · exact ⟨done, trivial, hnil.symm⟩
    · exact ⟨unfinished row, ⟨⟨hwhole, hlead, hblock⟩, hnil⟩, rfl⟩
  · have hsimple : Simple rules front :=
      ⟨hwhole, fun hfront => hlead (hfront.append _), fun hfront => hblock (hfront.append _)⟩
    obtain ⟨rest, hrest, rfl⟩ := ih behind.length (by simp; omega) hbehind rfl
    exact ⟨simple front semicolon rest, ⟨hsimple, hsemicolon, hrest⟩, rfl⟩

/-! ## There is just one way to cut a body into statements -/

/-- Where a group ends can be told. -/
theorem eq_of_group {closer closer' : Lexeme} {inner inner' : List Lexeme}
    (hinner : Token.Balanced (Lexeme.tokens inner)) (hcloser : closer.token.isCloser = true)
    (hinner' : Token.Balanced (Lexeme.tokens inner')) (hcloser' : closer'.token.isCloser = true)
    (heq : inner ++ closer :: behind = inner' ++ closer' :: behind') :
    inner = inner' ∧ closer = closer' ∧ behind = behind' := by
  refine eq_of_stop (fun row => Token.Balanced (Lexeme.tokens row))
    (fun lexeme => lexeme.token.isCloser = true) ?_ hinner hcloser hinner' hcloser' heq
  intro front last more hfront hlast hmore
  rw [Lexeme.tokens, List.map_append] at hmore
  exact hfront.not_append hlast hmore

/-- Where a simple statement ends can be told. -/
theorem eq_of_statement {semicolon semicolon' : Lexeme}
    (hfront : Token.IsStatement 0 (Lexeme.tokens front)) (hsemicolon : semicolon.token = .semicolon)
    (hfront' : Token.IsStatement 0 (Lexeme.tokens front'))
    (hsemicolon' : semicolon'.token = .semicolon)
    (heq : front ++ semicolon :: behind = front' ++ semicolon' :: behind') :
    front = front' ∧ semicolon = semicolon' ∧ behind = behind' := by
  refine eq_of_stop (fun row => Token.IsStatement 0 (Lexeme.tokens row))
    (fun lexeme => lexeme.token = .semicolon) ?_ hfront hsemicolon hfront' hsemicolon' heq
  intro front last more hfront hlast hmore
  rw [Lexeme.tokens, List.map_append, List.map_cons, hlast] at hmore
  exact hfront.not_append hmore

/-- No word needs a group and stands alone. -/
theorem not_mem_loneWords {word : String} (h : word ∈ groupWords) : word ∉ loneWords := by
  have hall : ∀ word ∈ groupWords, word ∉ loneWords := by decide
  exact hall word h

/-- Where a `case` label ends can be told. -/
theorem eq_of_colon {colon colon' : Lexeme}
    (hfront : Token.colonsMatch 0 (Lexeme.tokens front) = true) (hcolon : colon.token = .colon)
    (hfront' : Token.colonsMatch 0 (Lexeme.tokens front') = true) (hcolon' : colon'.token = .colon)
    (heq : front ++ colon :: behind = front' ++ colon' :: behind') :
    front = front' ∧ colon = colon' ∧ behind = behind' := by
  refine eq_of_stop (fun row => Token.colonsMatch 0 (Lexeme.tokens row) = true)
    (fun lexeme => lexeme.token = .colon) ?_ hfront hcolon hfront' hcolon' heq
  intro front last more hfront hlast hmore
  have hmatch : Token.colonsMatch 0 (Lexeme.tokens front ++ last.token :: Lexeme.tokens more) =
      true := by simpa [Lexeme.tokens] using hmore
  rw [hlast, Token.colonsMatch_append hfront] at hmatch
  cases hmatch

/-- What leads to a statement can be told from what is behind it. -/
theorem Leads.eq_of_append (h : Leads rules front) (h' : Leads rules front')
    (heq : front ++ behind = front' ++ behind') : front = front' := by
  have hcase : "case" ∉ groupWords ∧ "case" ∉ loneWords := by decide
  -- The first token tells the kinds apart.
  cases h <;> cases h' <;> simp only [List.cons_append, List.cons.injEq] at heq <;>
    obtain ⟨rfl, heq⟩ := heq <;> simp_all [not_mem_loneWords]
  case case.case hmatch hcolon _ _ _ _ hmatch' hcolon' _ =>
    obtain ⟨rfl, rfl, -⟩ := eq_of_colon hmatch hcolon hmatch' hcolon' heq
    simp
  case group.group hinner hcloser _ hinner' hcloser' _ =>
    obtain ⟨rfl, rfl, -⟩ := eq_of_group hinner hcloser hinner' hcloser' heq.2
    simp

/-- The macro in front of a block can be told from what is behind it. -/
theorem Heads.eq_of_append {opener opener' : Lexeme} (h : Heads rules front)
    (h' : Heads rules front') (hopener : opener.token = .openBrace)
    (hopener' : opener'.token = .openBrace)
    (heq : front ++ opener :: behind = front' ++ opener' :: behind') : front = front' := by
  cases h <;> cases h' <;>
    simp only [List.cons_append, List.nil_append, List.cons.injEq] at heq <;>
    obtain ⟨rfl, heq⟩ := heq <;> simp_all
  case call.call hinner hcloser _ hinner' hcloser' _ =>
    obtain ⟨rfl, rfl, -⟩ := eq_of_group hinner hcloser hinner' hcloser' heq.2
    simp

/-- What leads to a statement is no block. -/
theorem Leads.not_blockAt (h : Leads rules front) : ¬BlockAt rules (front ++ behind) := by
  rintro ⟨head, opener, more, heq, hhead, hopener⟩
  cases h <;> cases hhead <;>
    simp only [List.cons_append, List.nil_append, List.cons.injEq] at heq <;>
    obtain ⟨rfl, heq⟩ := heq <;> simp_all

/-- What has its semicolons in groups and is in front of a simple statement is within it. -/
theorem exists_of_front {semicolon : Lexeme} (hrow : Token.IsStatement 0 (Lexeme.tokens row))
    (hsemicolon : semicolon.token = .semicolon)
    (hfront : Token.IsStatement 0 (Lexeme.tokens front))
    (heq : row ++ semicolon :: behind = front ++ behind') :
    ∃ more, row = front ++ more ∧ behind' = more ++ semicolon :: behind := by
  rcases List.append_eq_append_iff.mp heq with ⟨more, rfl, htail⟩ | ⟨more, rfl, htail⟩
  · cases more with
    | nil => exact ⟨[], by simp, htail.symm⟩
    | cons next more =>
      obtain ⟨rfl, -⟩ := List.cons.inj htail
      rw [Lexeme.tokens, List.map_append, List.map_cons, hsemicolon] at hfront
      exact absurd hfront hrow.not_append
  · exact ⟨more, rfl, htail⟩

/-- What is in front of a simple statement and of what is behind it is in front of the statement. -/
theorem Simple.not_leadsAt_append {semicolon : Lexeme} (h : Simple rules row)
    (hsemicolon : semicolon.token = .semicolon) (behind : List Lexeme) :
    ¬LeadsAt rules (row ++ semicolon :: behind) := by
  rintro ⟨front, more, heq, hfront⟩
  obtain ⟨rest, rfl, -⟩ := exists_of_front h.whole hsemicolon hfront.isStatement heq
  exact h.not_leadsAt ⟨front, rest, rfl, hfront⟩

theorem Simple.not_blockAt_append {semicolon : Lexeme} (h : Simple rules row)
    (hsemicolon : semicolon.token = .semicolon) (behind : List Lexeme) :
    ¬BlockAt rules (row ++ semicolon :: behind) := by
  rintro ⟨head, opener, more, heq, hhead, hopener⟩
  obtain ⟨rest, rfl, htail⟩ := exists_of_front h.whole hsemicolon hhead.isStatement heq
  cases rest with
  | nil =>
    obtain ⟨rfl, -⟩ := List.cons.inj htail
    rw [hsemicolon] at hopener
    cases hopener
  | cons next rest =>
    obtain ⟨rfl, -⟩ := List.cons.inj htail
    exact h.not_blockAt ⟨head, opener, rest, rfl, hhead, hopener⟩

/-- A statement does not go on behind its semicolon. -/
theorem Simple.ne_append {semicolon : Lexeme} (h : Simple rules front) (hrow : Simple rules row)
    (hsemicolon : semicolon.token = .semicolon) : front ≠ row ++ semicolon :: behind := by
  rintro rfl
  have hwhole := h.whole
  rw [Lexeme.tokens, List.map_append, List.map_cons, hsemicolon] at hwhole
  exact hrow.whole.not_append hwhole

/-- The lexemes of a body close the groups that they open. -/
theorem WellFormed.balanced {b : Body} (h : b.WellFormed rules) :
    Token.Balanced (Lexeme.tokens b.row) := by
  have happend : ∀ {front behind : List Lexeme}, Token.Balanced (Lexeme.tokens front) →
      Token.Balanced (Lexeme.tokens behind) → Token.Balanced (Lexeme.tokens (front ++ behind)) := by
    intro front behind hfront hbehind
    rw [Lexeme.tokens, List.map_append]
    exact hfront.append hbehind
  induction b with
  | done => exact .nil
  | simple row semicolon rest ih =>
    refine happend h.1.whole.nest (.cons ?_ ?_ (ih h.2.2)) <;>
      simp [h.2.1, Token.isOpener, Token.isCloser]
  | unfinished row => exact h.1.whole.nest
  | leading row rest ih => exact happend h.1.isStatement.nest (ih h.2)
  | block head opener inner closer rest ihinner ihrest =>
    obtain ⟨hhead, hopener, hinner, hcloser, hrest⟩ := h
    have hopens : opener.token.isOpener = true := by
      rw [hopener]
      rfl
    have hclosed : Token.Balanced (Lexeme.tokens (opener :: (inner.row ++ [closer]))) := by
      simpa [Lexeme.tokens] using (ihinner hinner).group hopens hcloser
    simpa [Body.row] using happend hhead.isStatement.nest (happend hclosed (ihrest hrest))

/-- A row of lexemes is cut into statements in one way at most. -/
theorem eq_of_row_eq {b b' : Body} (h : b.WellFormed rules) (h' : b'.WellFormed rules)
    (heq : b.row = b'.row) : b = b' := by
  induction b generalizing b' with
  | done =>
    cases b' with
    | done => rfl
    | simple row' semicolon' rest' => simp [Body.row] at heq
    | unfinished row' => exact absurd heq.symm h'.2
    | leading row' rest' => exact absurd (List.append_eq_nil_iff.mp heq.symm).1 h'.1.ne_nil
    | block head' opener' inner' closer' rest' => simp [Body.row] at heq
  | simple row semicolon rest ih =>
    obtain ⟨hrow, hsemicolon, hrest⟩ := h
    cases b' with
    | done => simp [Body.row] at heq
    | simple row' semicolon' rest' =>
      obtain ⟨rfl, rfl, hbehind⟩ :=
        eq_of_statement hrow.whole hsemicolon h'.1.whole h'.2.1 heq
      rw [ih hrest h'.2.2 hbehind]
    | unfinished row' => exact absurd heq.symm (h'.1.ne_append hrow hsemicolon)
    | leading row' rest' =>
      exact absurd ⟨row', _, heq, h'.1⟩ (hrow.not_leadsAt_append hsemicolon _)
    | block head' opener' inner' closer' rest' =>
      exact absurd ⟨head', opener', _, heq, h'.1, h'.2.1⟩ (hrow.not_blockAt_append hsemicolon _)
  | unfinished row =>
    obtain ⟨hrow, hne⟩ := h
    cases b' with
    | done => exact absurd heq hne
    | simple row' semicolon' rest' => exact absurd heq (hrow.ne_append h'.1 h'.2.1)
    | unfinished row' => exact congrArg unfinished heq
    | leading row' rest' => exact absurd ⟨row', _, heq, h'.1⟩ hrow.not_leadsAt
    | block head' opener' inner' closer' rest' =>
      exact absurd ⟨head', opener', _, heq, h'.1, h'.2.1⟩ hrow.not_blockAt
  | leading row rest ih =>
    obtain ⟨hrow, hrest⟩ := h
    cases b' with
    | done => exact absurd (List.append_eq_nil_iff.mp heq).1 hrow.ne_nil
    | simple row' semicolon' rest' =>
      exact absurd ⟨row, _, heq.symm, hrow⟩ (h'.1.not_leadsAt_append h'.2.1 _)
    | unfinished row' => exact absurd ⟨row, _, heq.symm, hrow⟩ h'.1.not_leadsAt
    | leading row' rest' =>
      obtain rfl := hrow.eq_of_append h'.1 heq
      rw [ih hrest h'.2 (List.append_cancel_left heq)]
    | block head' opener' inner' closer' rest' =>
      exact absurd ⟨head', opener', _, heq, h'.1, h'.2.1⟩ hrow.not_blockAt
  | block head opener inner closer rest ihinner ihrest =>
    obtain ⟨hhead, hopener, hinner, hcloser, hrest⟩ := h
    cases b' with
    | done => simp [Body.row] at heq
    | simple row' semicolon' rest' =>
      exact absurd ⟨head, opener, _, heq.symm, hhead, hopener⟩ (h'.1.not_blockAt_append h'.2.1 _)
    | unfinished row' => exact absurd ⟨head, opener, _, heq.symm, hhead, hopener⟩ h'.1.not_blockAt
    | leading row' rest' =>
      exact absurd ⟨head, opener, _, heq.symm, hhead, hopener⟩ h'.1.not_blockAt
    | block head' opener' inner' closer' rest' =>
      obtain ⟨hhead', hopener', hinner', hcloser', hrest'⟩ := h'
      obtain rfl := hhead.eq_of_append hhead' hopener hopener' heq
      obtain ⟨rfl, htail⟩ := List.cons.inj (List.append_cancel_left heq)
      obtain ⟨hinside, rfl, hbehind⟩ :=
        eq_of_group hinner.balanced hcloser hinner'.balanced hcloser' htail
      rw [ihinner hinner hinner' hinside, ihrest hrest hrest' hbehind]

end Body

end RemoteCalls
