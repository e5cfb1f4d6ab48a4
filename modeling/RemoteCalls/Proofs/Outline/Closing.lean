import RemoteCalls.Outline.Declarators
import RemoteCalls.Proofs.Outline.Lookahead
import RemoteCalls.Proofs.Token.Nesting

/-!
# Readers close the groups that they open

Whatever stands in front of them, the readers of specifiers, declarators, parameters and members take
a row that closes the groups it opens; the readers of a parameter list and of the members of a
structure are inside of a group, and take the delimiter that closes it too. A structure is gathered
only where a brace is opened outside of brackets. So the end of what they take is known where only
the groups of a row are.
-/

namespace RemoteCalls

namespace Reader

variable {α β : Type} {closing : Bool} {P : Token → Prop}

/-! ## What a reader takes -/

/-- A reader gets from one place to another: it takes a row that closes the groups it opens, and a
closing delimiter behind it if it is `closing` the group around the row. It gathers no structure if
no brace is opened in the row outside of brackets. -/
def Passes (closing : Bool) (cursor next : Cursor) : Prop :=
  ∃ taken behind, cursor.rest = taken ++ behind ∧ Token.Balanced (Lexeme.tokens taken) ∧
    (Token.Braceless (Lexeme.tokens taken) → next.tags = cursor.tags) ∧
    if closing then ∃ closer, behind = closer :: next.rest ∧ closer.token.isCloser = true
    else behind = next.rest

namespace Passes

variable {cursor next last : Cursor}

/-- Nothing is taken. -/
theorem refl (hrest : next.rest = cursor.rest) (htags : next.tags = cursor.tags) :
    Passes false cursor next :=
  ⟨[], next.rest, hrest.symm, rfl, fun _ => htags, rfl⟩

theorem trans (h : Passes false cursor next) (hnext : Passes closing next last) :
    Passes closing cursor last := by
  obtain ⟨taken, _, hrest, hbalanced, htags, rfl⟩ := h
  obtain ⟨more, behind, hmore, hbalanced', htags', hbehind⟩ := hnext
  have htokens : Lexeme.tokens (taken ++ more) = Lexeme.tokens taken ++ Lexeme.tokens more :=
    List.map_append
  refine ⟨taken ++ more, behind, by rw [hrest, hmore, List.append_assoc], ?_, fun hno => ?_, hbehind⟩
  · rw [htokens]
    exact hbalanced.append hbalanced'
  · rw [htokens] at hno
    obtain ⟨hfirst, hrest⟩ := hbalanced.braceless_append.mp hno
    rw [htags' hrest, htags hfirst]

/-- A token that neither opens nor closes a group is taken. At the end of the file there is none. -/
theorem advance (hopener : (headToken cursor.rest).isOpener = false)
    (hcloser : (headToken cursor.rest).isCloser = false) :
    Passes false cursor { cursor with rest := cursor.rest.tail } := by
  obtain ⟨rest, kind, tags⟩ := cursor
  cases rest with
  | nil => exact refl rfl rfl
  | cons lexeme rest => exact ⟨[lexeme], rest, rfl, .cons hopener hcloser .nil, fun _ => rfl, rfl⟩

/-- A closing delimiter is taken. -/
theorem close (hcloser : (headToken cursor.rest).isCloser = true) :
    Passes true cursor { cursor with rest := cursor.rest.tail } := by
  obtain ⟨rest, kind, tags⟩ := cursor
  cases rest with
  | nil => cases hcloser
  | cons lexeme rest => exact ⟨[], lexeme :: rest, rfl, rfl, fun _ => rfl, lexeme, rfl, hcloser⟩

/-- What is taken up to a closing delimiter is a group if an opening one is in front of it. -/
theorem enclosed (hopener : (headToken cursor.rest).isOpener = true)
    (hbracket : headToken cursor.rest ≠ .openBracket)
    (h : Passes true { cursor with rest := cursor.rest.tail } next) :
    Passes false cursor next := by
  obtain ⟨rest, kind, tags⟩ := cursor
  cases rest with
  | nil => cases hopener
  | cons lexeme rest =>
    obtain ⟨taken, _, hrest, hbalanced, htags, closer, rfl, hcloser⟩ := h
    have htokens : Lexeme.tokens (lexeme :: (taken ++ [closer])) =
        lexeme.token :: (Lexeme.tokens taken ++ [closer.token]) := by
      simp [Lexeme.tokens]
    have hrow : rest = taken ++ closer :: next.rest := hrest
    refine ⟨lexeme :: (taken ++ [closer]), next.rest, by simp [hrow], ?_, fun hno => ?_, rfl⟩
    · rw [htokens]
      exact hbalanced.group hopener hcloser
    · rw [htokens] at hno
      exact htags (Token.Braceless.inside hbalanced hbracket hno)

/-- Behind an opening brace structures may be gathered. -/
theorem braces (hbrace : headToken cursor.rest = .openBrace) {inside : Cursor}
    (h : Passes true inside next) (hinside : inside.rest = cursor.rest.tail)
    (hlast : last.rest = next.rest) : Passes false cursor last := by
  obtain ⟨rest, kind, tags⟩ := cursor
  cases rest with
  | nil => cases hbrace
  | cons lexeme rest =>
    obtain ⟨taken, _, hrest, hbalanced, -, closer, rfl, hcloser⟩ := h
    have htokens : Lexeme.tokens (lexeme :: (taken ++ [closer])) =
        .openBrace :: (Lexeme.tokens taken ++ [closer.token]) := by
      have htoken : lexeme.token = .openBrace := hbrace
      simp [Lexeme.tokens, htoken]
    have hrow : rest = taken ++ closer :: next.rest := hinside.symm.trans hrest
    refine ⟨lexeme :: (taken ++ [closer]), last.rest, by simp [hrow, hlast], ?_, fun hno => ?_, rfl⟩
    · rw [htokens]
      exact hbalanced.group rfl hcloser
    · rw [htokens, Token.Braceless, Token.bracketed, if_pos rfl] at hno
      cases hno

/-- A balanced row with a closing delimiter behind it is taken as far as the group goes. -/
theorem rest_eq {taken behind : List Lexeme} {closer : Lexeme} (h : Passes true cursor next)
    (hrest : cursor.rest = taken ++ closer :: behind)
    (hbalanced : Token.Balanced (Lexeme.tokens taken)) (hcloser : closer.token.isCloser = true) :
    next.rest = behind ∧ (Token.Braceless (Lexeme.tokens taken) → next.tags = cursor.tags) := by
  obtain ⟨row, _, hrow, hrowBalanced, htags, last, rfl, hlast⟩ := h
  have hsplit := Lexeme.splitGroup_of_balanced hbalanced hcloser behind
  rw [← hrest, hrow, Lexeme.splitGroup_of_balanced hrowBalanced hlast] at hsplit
  obtain ⟨rfl, rfl⟩ := Prod.mk.inj (Option.some.inj hsplit)
  exact ⟨rfl, htags⟩

end Passes

/-! ## Readers that pass -/

/-- Where a reader begins at a token with the property `P` and has a result, it has taken a row that
closes the groups it opens, and the delimiter behind it if it is closing. -/
def Moves (P : Token → Prop) (closing : Bool) (m : Reader α) : Prop :=
  ∀ setting cursor a next, P (headToken cursor.rest) → m setting cursor = .ok (a, next) →
    Passes closing cursor next

/-- A reader that is at no token in particular. -/
abbrev MovesAnywhere (closing : Bool) (m : Reader α) : Prop :=
  Moves (fun _ => True) closing m

namespace Moves

variable {m : Reader α}

theorem mono {P' : Token → Prop} (h : Moves P closing m) (hP : ∀ t, P' t → P t) :
    Moves P' closing m :=
  fun setting cursor a next hcursor => h setting cursor a next (hP _ hcursor)

/-- A reader without a result. -/
theorem of_error (h : ∀ setting cursor result, m setting cursor ≠ .ok result) :
    Moves P closing m :=
  fun setting cursor _ _ _ hrun => absurd hrun (h setting cursor _)

theorem outOfSteps : Moves P closing (throw .outOfSteps : Reader α) :=
  of_error fun _ _ _ h => by cases h

theorem malformed (reason : Reason) : Moves P closing (Reader.malformed reason : Reader α) :=
  of_error fun _ _ _ h => by cases h

theorem unexpected (what : Expectation) : Moves P closing (Reader.unexpected what : Reader α) :=
  of_error fun _ _ _ h => by cases h

theorem fatal (position : Position) (reason : Reason) :
    Moves P closing (Reader.fatal position reason : Reader α) :=
  of_error fun _ _ _ h => by cases h

theorem pure (a : α) : Moves P false (pure a : Reader α) := by
  intro setting cursor b next _ hrun
  cases hrun
  exact .refl rfl rfl

theorem ite {c : Prop} [Decidable c] {yes no : Reader α} (hyes : c → Moves P closing yes)
    (hno : ¬ c → Moves P closing no) : Moves P closing (if c then yes else no) := by
  by_cases h : c
  · rw [if_pos h]
    exact hyes h
  · rw [if_neg h]
    exact hno h

/-- Two readers in a row. -/
theorem bind {f : α → Reader β} (h : Moves P false m)
    (hnext : ∀ a, MovesAnywhere closing (f a)) : Moves P closing (m >>= f) := by
  intro setting cursor b last hcursor hrun
  obtain ⟨a, next, hfirst, hrest⟩ := bind_eq_ok.mp hrun
  exact (h setting cursor a next hcursor hfirst).trans
    (hnext a setting next b last trivial hrest)

/-- A closing reader, and one behind it that takes nothing. -/
theorem closed {f : α → Reader β} (h : Moves P true m)
    (hnext : ∀ a setting cursor b next, f a setting cursor = .ok (b, next) →
      next.rest = cursor.rest ∧ next.tags = cursor.tags) : Moves P true (m >>= f) := by
  intro setting cursor b last hcursor hrun
  obtain ⟨a, next, hfirst, hrest⟩ := bind_eq_ok.mp hrun
  obtain ⟨hsame, htags⟩ := hnext a setting next b last hrest
  obtain ⟨taken, behind, hrow⟩ := h setting cursor a next hcursor hfirst
  exact ⟨taken, behind, by rw [hsame, htags]; exact hrow⟩

/-- A reader that only looks, or changes neither the lexemes that are left nor the structures that are
gathered. -/
theorem look {f : α → Reader β} (hm : ∀ setting cursor a next, m setting cursor = .ok (a, next) →
      next.rest = cursor.rest ∧ next.tags = cursor.tags)
    (h : ∀ a, Moves P closing (f a)) : Moves P closing (m >>= f) := by
  intro setting cursor b last hcursor hrun
  obtain ⟨a, next, hfirst, hrest⟩ := bind_eq_ok.mp hrun
  obtain ⟨hsame, htags⟩ := hm setting cursor a next hfirst
  obtain ⟨taken, behind, hrow⟩ := h a setting next b last (hsame ▸ hcursor) hrest
  exact ⟨taken, behind, by rw [← hsame, ← htags]; exact hrow⟩

theorem position {f : Position → Reader β} (h : ∀ p, Moves P closing (f p)) :
    Moves P closing (Reader.position >>= f) :=
  look (fun _ _ _ _ hrun => by cases hrun; exact ⟨rfl, rfl⟩) h

theorem placeAt (p : Position) {f : Place → Reader β} (h : ∀ place, Moves P closing (f place)) :
    Moves P closing (Reader.placeAt p >>= f) :=
  look (fun _ _ _ _ hrun => by cases hrun; exact ⟨rfl, rfl⟩) h

theorem origin {f : Origin → Reader β} (h : ∀ origin, Moves P closing (f origin)) :
    Moves P closing (Reader.origin >>= f) :=
  look (fun _ _ _ _ hrun => by cases hrun; exact ⟨rfl, rfl⟩) h

theorem noteRules {f : NoteRules → Reader β} (h : ∀ rules, Moves P closing (f rules)) :
    Moves P closing (Reader.noteRules >>= f) :=
  look (fun _ _ _ _ hrun => by cases hrun; exact ⟨rfl, rfl⟩) h

theorem kind {f : DeclKind → Reader β} (h : ∀ kind, Moves P closing (f kind)) :
    Moves P closing (Reader.kind >>= f) :=
  look (fun _ _ _ _ hrun => by cases hrun; exact ⟨rfl, rfl⟩) h

theorem modifyKind (g : DeclKind → DeclKind) {f : Unit → Reader β}
    (h : ∀ a, Moves P closing (f a)) :
    Moves P closing ((modify fun cursor => { cursor with kind := g cursor.kind }) >>= f) :=
  look (fun _ _ _ _ hrun => by cases hrun; exact ⟨rfl, rfl⟩) h

/-- The token in front is looked at. -/
theorem token {f : Token → Reader β} (h : ∀ t, P t → Moves (· = t) closing (f t)) :
    Moves P closing (Reader.token >>= f) := by
  intro setting cursor b last hcursor hrun
  exact h _ hcursor setting cursor b last rfl hrun

/-- Two tokens in front are looked at. -/
theorem ahead {look : Token → Token → Bool} {f : Bool → Reader β}
    (h : ∀ t u, P t → Moves (· = t) closing (f (look t u))) :
    Moves P closing (Reader.ahead look >>= f) := by
  intro setting cursor b last hcursor hrun
  exact h _ (headToken cursor.rest.tail) hcursor setting cursor b last rfl hrun

/-- A token that neither opens nor closes a group is taken. -/
theorem advance {f : Unit → Reader β} (hP : ∀ t, P t → t.isOpener = false ∧ t.isCloser = false)
    (h : MovesAnywhere closing (f ())) : Moves P closing (Reader.advance >>= f) := by
  intro setting cursor b last hcursor hrun
  obtain ⟨hopener, hcloser⟩ := hP _ hcursor
  exact (Passes.advance hopener hcloser).trans (h setting _ b last trivial hrun)

/-- An opening delimiter is taken by a reader that goes on up to the closing one. -/
theorem enclosed {f : Unit → Reader β}
    (hP : ∀ t, P t → t.isOpener = true ∧ t ≠ .openBracket)
    (h : MovesAnywhere true (f ())) : Moves P false (Reader.advance >>= f) := by
  intro setting cursor b last hcursor hrun
  obtain ⟨hopener, hbracket⟩ := hP _ hcursor
  exact .enclosed hopener hbracket (h setting _ b last trivial hrun)

/-- Of two tokens that are looked at, the first is taken, and the reader goes on at the second. -/
theorem ahead_advance {look : Token → Token → Bool} {yes no : Reader β}
    (hyes : ∀ t u, P t → look t u = true →
      (t.isOpener = false ∧ t.isCloser = false) ∧ Moves (· = u) closing yes)
    (hno : Moves P closing no) :
    Moves P closing (do if ← Reader.ahead look then (do Reader.advance; yes) else no) := by
  intro setting cursor b last hcursor hrun
  have hahead : Reader.ahead look setting cursor =
      .ok (look (headToken cursor.rest) (headToken cursor.rest.tail), cursor) := rfl
  rw [bind_apply, hahead] at hrun
  dsimp only at hrun
  split at hrun
  · next hlook =>
    obtain ⟨⟨hopener, hcloser⟩, hnext⟩ := hyes _ _ hcursor hlook
    exact (Passes.advance hopener hcloser).trans (hnext setting _ b last rfl hrun)
  · exact hno setting cursor b last hcursor hrun

/-- A token that neither opens nor closes a group may be taken. -/
theorem accept {wanted : Token} (hopener : wanted.isOpener = false)
    (hcloser : wanted.isCloser = false) {yes no : Reader β} (hyes : MovesAnywhere closing yes)
    (hno : Moves P closing no) :
    Moves P closing (do if ← Reader.accept wanted then yes else no) := by
  intro setting cursor b last hcursor hrun
  rw [bind_apply, accept_apply] at hrun
  by_cases hhead : headToken cursor.rest = wanted
  · rw [if_pos hhead] at hrun
    exact (Passes.advance (by rwa [hhead]) (by rwa [hhead])).trans
      (hyes setting _ b last trivial hrun)
  · rw [if_neg hhead] at hrun
    exact hno setting cursor b last hcursor hrun

/-- The closing delimiter may be taken, and then the reader is done. -/
theorem accept_close {wanted : Token} (hcloser : wanted.isCloser = true) {b : β} {no : Reader β}
    (hno : Moves P true no) :
    Moves P true (do if ← Reader.accept wanted then return b else no) := by
  intro setting cursor b last hcursor hrun
  rw [bind_apply, accept_apply] at hrun
  by_cases hhead : headToken cursor.rest = wanted
  · rw [if_pos hhead] at hrun
    cases hrun
    exact .close (by rwa [hhead])
  · rw [if_neg hhead] at hrun
    exact hno setting cursor b last hcursor hrun

/-- The closing delimiter is there, and then the reader is done. -/
theorem advance_close (hP : ∀ t, P t → t.isCloser = true) (b : β) :
    Moves P true (do Reader.advance; return b) := by
  intro setting cursor b last hcursor hrun
  cases hrun
  exact .close (hP _ hcursor)

/-- The closing delimiter has to be there, and then the reader is done. -/
theorem expect_close {wanted : Token} (hcloser : wanted.isCloser = true) (what : Expectation)
    (b : β) : Moves P true (do Reader.expect wanted what; return b) := by
  intro setting cursor b last _ hrun
  rw [bind_apply, expect_apply] at hrun
  by_cases hhead : headToken cursor.rest = wanted
  · rw [if_pos hhead] at hrun
    cases hrun
    exact .close (by rwa [hhead])
  · rw [if_neg hhead] at hrun
    cases hrun

/-- A token that neither opens nor closes a group has to be there. -/
theorem expect {wanted : Token} (hopener : wanted.isOpener = false)
    (hcloser : wanted.isCloser = false) (what : Expectation) :
    Moves P false (Reader.expect wanted what) := by
  intro setting cursor b last _ hrun
  rw [expect_apply] at hrun
  by_cases hhead : headToken cursor.rest = wanted
  · rw [if_pos hhead] at hrun
    cases hrun
    exact .advance (by rwa [hhead]) (by rwa [hhead])
  · rw [if_neg hhead] at hrun
    cases hrun

end Moves

/-! ### The readers that all others are built from -/

/-- A group is taken as a whole, with whatever is inside of it. -/
theorem group_moves : Moves (·.isOpener = true) false group := by
  intro setting cursor inner next hcursor hrun
  obtain ⟨behind, hsplit, rfl⟩ := group_eq_ok hrun
  obtain ⟨rest, kind, tags⟩ := cursor
  cases rest with
  | nil => cases hcursor
  | cons lexeme rest =>
    rw [List.tail_cons] at hsplit
    obtain ⟨closer, hcloser, hrow⟩ := Lexeme.splitGroup_eq_some hsplit
    have hbalanced : Token.Balanced (Lexeme.tokens inner) := Lexeme.nest_of_splitGroup hsplit
    refine ⟨lexeme :: (inner ++ [closer]), behind, by simp [hrow], ?_, fun _ => rfl, rfl⟩
    have htokens : Lexeme.tokens (lexeme :: (inner ++ [closer])) =
        lexeme.token :: (Lexeme.tokens inner ++ [closer.token]) := by
      simp [Lexeme.tokens]
    rw [htokens]
    exact hbalanced.group hcursor hcloser

theorem expression_moves : MovesAnywhere false expression := by
  intro setting cursor a next _ hrun
  obtain ⟨inner, behind, hsplit, -, -, rfl⟩ := expression_eq_ok hrun
  exact ⟨inner, behind, Lexeme.splitExpression_eq_ok hsplit,
    (Lexeme.isExpression_of_splitExpression hsplit).nest, fun _ => rfl, rfl⟩

theorem expressionBehind?_moves {mark : Token} (hopener : mark.isOpener = false)
    (hcloser : mark.isCloser = false) : MovesAnywhere false (expressionBehind? mark) := by
  unfold expressionBehind?
  exact .accept hopener hcloser (expression_moves.bind fun _ => .pure _) (.pure _)

theorem name?_moves : MovesAnywhere false name? := by
  unfold name?
  refine .token fun t _ => ?_
  cases t with
  | identifier name => exact .advance (by rintro _ rfl; exact ⟨rfl, rfl⟩) (.pure _)
  | _ => exact .pure _

theorem skipAttribute_moves : Moves (isAttribute · = true) false skipAttribute := by
  have hattribute : ∀ t, isAttribute t = true → t.isOpener = false ∧ t.isCloser = false := by
    intro t ht
    cases t <;> first | exact ⟨rfl, rfl⟩ | cases ht
  unfold skipAttribute
  refine .advance hattribute (.token fun t _ => .ite (fun hparen => ?_) fun _ => .pure _)
  rw [discard_eq]
  subst hparen
  exact (group_moves.mono (by rintro _ rfl; rfl)).bind fun _ => .pure _

theorem skipAttributes_moves (steps : Nat) : MovesAnywhere false (skipAttributes steps) := by
  induction steps with
  | zero => exact .outOfSteps
  | succ steps ih =>
    unfold skipAttributes
    refine .token fun t _ => .ite (fun hattribute => ?_) fun _ => .pure _
    exact (skipAttribute_moves.mono (by rintro _ rfl; exact hattribute)).bind fun _ => ih

/-- Qualifiers neither open nor close a group. -/
theorem skipQualifiers_moves : MovesAnywhere false skipQualifiers := by
  intro setting cursor a next _ hrun
  cases hrun
  obtain ⟨rest, kind, tags⟩ := cursor
  change Passes false ⟨rest, kind, tags⟩ ⟨rest.dropWhile _, kind, tags⟩
  induction rest with
  | nil => exact .refl rfl rfl
  | cons lexeme rest ih =>
    obtain ⟨t, position, trivia⟩ := lexeme
    cases t with
    | qualifier word => exact (Passes.advance rfl rfl).trans ih
    | _ => exact .refl rfl rfl

theorem pointers_moves (steps count : Nat) : MovesAnywhere false (pointers steps count) := by
  induction steps generalizing count with
  | zero => exact .outOfSteps
  | succ steps ih =>
    unfold pointers
    refine .accept rfl rfl ?_ (.pure _)
    exact skipQualifiers_moves.bind fun _ =>
      (skipAttributes_moves (steps + 1)).bind fun _ => ih (count + 1)

/-! ### Marker statements, tags and declarators -/

theorem marker_moves :
    Moves (fun t => t.isOpener = false ∧ t.isCloser = false) false marker := by
  have hnote : Moves (fun t => t.isOpener = false ∧ t.isCloser = false) false markerNote := by
    unfold markerNote
    refine .token fun t ht => .ahead_advance ?_ (.advance (by rintro _ rfl; exact ht) (.pure _))
    rintro _ u rfl hcall
    refine ⟨ht, (group_moves.mono ?_).bind fun _ => .pure _⟩
    rintro _ rfl
    unfold beginsCall at hcall
    split at hcall
    · rfl
    · cases hcall
  have hsemicolon : MovesAnywhere false (accept .semicolon) := by
    unfold accept
    refine .token fun t _ => .ite (fun ht => ?_) fun _ => .pure _
    subst ht
    exact .advance (by rintro _ rfl; exact ⟨rfl, rfl⟩) (.pure _)
  unfold marker endStatement
  refine hnote.bind fun note => ?_
  rw [discard_eq, bind_assoc]
  exact hsemicolon.bind fun _ => .pure _

theorem tagName_moves (steps : Nat) : MovesAnywhere false (tagName steps) := by
  unfold tagName
  refine (skipAttributes_moves steps).bind fun _ => name?_moves.bind fun _ => ?_
  exact (skipAttributes_moves steps).bind fun _ => .pure _

/-- The body of a structure is taken with its braces if the members are read up to the brace behind
them, whatever becomes of the structure. -/
theorem body_moves {start : Position} {tag : String} {name : Option String} {base : Base}
    {members : Position → Structure → Reader Structure}
    (h : ∀ opened s, MovesAnywhere true (members opened s)) :
    Moves (· = .openBrace) false (do
      let s ← structureBody start tag members
      return (base, ← defineTag name s)) := by
  intro setting cursor r last hbrace hrun
  obtain ⟨s, next, hbody, hdefine⟩ := bind_eq_ok.mp hrun
  unfold structureBody at hbody
  obtain ⟨outer, _, hkind, hbody⟩ := bind_eq_ok.mp hbody
  cases hkind
  obtain ⟨_, _, hset, hbody⟩ := bind_eq_ok.mp hbody
  cases hset
  obtain ⟨opened, _, hposition, hbody⟩ := bind_eq_ok.mp hbody
  cases hposition
  obtain ⟨_, _, hadvance, hbody⟩ := bind_eq_ok.mp hbody
  cases hadvance
  obtain ⟨place, _, hplace, hbody⟩ := bind_eq_ok.mp hbody
  cases hplace
  obtain ⟨origin, _, horigin, hbody⟩ := bind_eq_ok.mp hbody
  cases horigin
  obtain ⟨_, inside, hmembers, hend⟩ := bind_eq_ok.mp hbody
  cases hend
  have hclosed := h _ _ setting _ _ inside trivial hmembers
  have hlast : last.rest = inside.rest := by
    obtain ⟨tag, _, htag, hreturn⟩ := bind_eq_ok.mp hdefine
    cases hreturn
    unfold defineTag at htag
    split at htag
    · obtain ⟨_, _, hmodify, htag⟩ := bind_eq_ok.mp htag
      cases hmodify
      cases htag
      rfl
    · cases htag
      rfl
  exact .braces hbrace hclosed rfl hlast

theorem resolved_moves (result : Except DeclaratorFault α) :
    MovesAnywhere false (resolved result) := by
  cases result with
  | ok a => exact .pure a
  | error fault => exact .malformed _

theorem memberHead_moves (base : CType) {declarator : Reader Declarator}
    (h : MovesAnywhere false declarator) : MovesAnywhere false (memberHead base declarator) := by
  unfold memberHead
  refine .token fun t _ => .ite (fun _ => .pure _) fun _ => ?_
  refine (h.mono fun _ _ => trivial).bind fun declarator => (resolved_moves _).bind fun meaning => ?_
  cases meaning with
  | object type => exact .pure _
  | function result params => exact .malformed _

theorem nameless_moves (abstract : Bool) : MovesAnywhere false (nameless abstract) := by
  unfold nameless
  exact .ite (fun _ => .pure _) fun _ => .unexpected _

theorem declaratorHead_moves {abstract : Bool} {nested : Reader Declarator}
    (h : MovesAnywhere false nested) : MovesAnywhere false (declaratorHead abstract nested) := by
  unfold declaratorHead
  refine .ahead fun t u _ => .ite (fun hnested => ?_) fun _ => ?_
  · refine .enclosed ?_ (h.bind fun inner => .expect_close rfl _ _)
    rintro _ rfl
    unfold beginsNested at hnested
    split at hnested <;> first | exact ⟨rfl, by decide⟩ | cases hnested
  · refine .token fun t _ => ?_
    cases t with
    | identifier name =>
      refine .ite (fun _ => (nameless_moves abstract).mono fun _ _ => trivial) fun _ => ?_
      exact .advance (by rintro _ rfl; exact ⟨rfl, rfl⟩) (.pure _)
    | _ => exact (nameless_moves abstract).mono fun _ _ => trivial

/-! ### The readers that call each other -/

/-- All readers of declarators close the groups that they open, in any number of steps. -/
structure AllMove (steps : Nat) : Prop where
  specifierWords : ∀ s : SpecifierWords, MovesAnywhere false (specifierWords steps s)
  tagSpecifier : Moves (fun t => t = .struct ∨ t = .union ∨ t = .enum) false (tagSpecifier steps)
  members : ∀ (opened : Position) (s : Structure), MovesAnywhere true (members steps opened s)
  member : ∀ s : Structure, MovesAnywhere false (member steps s)
  memberDeclarators : ∀ (base : CType) (s : Structure),
    MovesAnywhere false (memberDeclarators steps base s)
  specifiers : MovesAnywhere false (specifiers steps)
  declarator : ∀ abstract : Bool, MovesAnywhere false (declarator steps abstract)
  declaratorSuffixes : ∀ ops : List DeclaratorOp,
    MovesAnywhere false (declaratorSuffixes steps ops)
  parameters : ∀ {setting cursor params next}, parameters steps setting cursor = .ok (params, next) →
    Passes true { cursor with rest := cursor.rest.tail } next
  parameterList : ∀ params : List Param, MovesAnywhere true (parameterList steps params)

section

variable {steps : Nat}

theorem specifierWords_moves (ih : AllMove steps) (s : SpecifierWords) :
    MovesAnywhere false (specifierWords (steps + 1) s) := by
  unfold specifierWords
  refine .token fun t _ => ?_
  have hword : ∀ s', t.isOpener = false ∧ t.isCloser = false →
      Moves (· = t) false (do advance; specifierWords steps s') :=
    fun s' ht => .advance (by rintro _ rfl; exact ht) (ih.specifierWords s')
  have htag : t = .struct ∨ t = .union ∨ t = .enum → Moves (· = t) false
      (if s.hasType then malformed .twoTypes
        else do
          let r ← tagSpecifier steps
          specifierWords steps { s with base := some r.1, tag := r.2 }) := by
    intro ht
    refine .ite (fun _ => .malformed _) fun _ => ?_
    exact (ih.tagSpecifier.mono (by rintro _ rfl; exact ht)).bind fun r => ih.specifierWords _
  cases t with
  | storage word => exact hword _ ⟨rfl, rfl⟩
  | qualifier word => exact hword _ ⟨rfl, rfl⟩
  | typedef => exact hword _ ⟨rfl, rfl⟩
  | builtin word => exact .ite (fun _ => .malformed _) fun _ => hword _ ⟨rfl, rfl⟩
  | struct => exact htag (.inl rfl)
  | union => exact htag (.inr (.inl rfl))
  | enum => exact htag (.inr (.inr rfl))
  | identifier word =>
    refine .ite (fun hattribute => ?_) fun _ => .ite (fun _ => hword _ ⟨rfl, rfl⟩) fun _ =>
      .ite (fun _ => .pure _) fun _ => hword _ ⟨rfl, rfl⟩
    exact (skipAttribute_moves.mono (by rintro _ rfl; exact hattribute)).bind
      fun _ => ih.specifierWords s
  | _ => exact .pure _

theorem tagSpecifier_moves (ih : AllMove steps) :
    Moves (fun t => t = .struct ∨ t = .union ∨ t = .enum) false (tagSpecifier (steps + 1)) := by
  unfold tagSpecifier
  refine .position fun start => .token fun keyword hkeyword => .advance ?_ ?_
  · rintro _ rfl
    rcases hkeyword with rfl | rfl | rfl <;> exact ⟨rfl, rfl⟩
  refine (tagName_moves (steps + 1)).bind fun name => .token fun t _ => .ite (fun hbrace => ?_) ?_
  · subst hbrace
    refine .ite (fun _ => ?_) fun _ => ?_
    · exact body_moves ih.members
    · rw [discard_eq, bind_assoc]
      exact (group_moves.mono (by rintro _ rfl; rfl)).bind fun _ => .pure _
  · intro _
    cases name with
    | none => exact .malformed _
    | some name => exact .pure _

theorem members_moves (ih : AllMove steps) (opened : Position) (s : Structure) :
    MovesAnywhere true (members (steps + 1) opened s) := by
  unfold members
  refine .accept_close rfl (.token fun t _ => .ite (fun _ => .fatal _ _) fun _ => ?_)
  refine .accept rfl rfl (ih.members opened s) ?_
  unfold atMarker
  rw [bind_assoc]
  refine .noteRules fun rules => .ahead fun t u ht => .ite (fun hmarker => ?_) fun _ => ?_
  · refine (marker_moves.mono ?_).bind fun note => ih.members opened _
    rintro _ rfl
    unfold beginsMarker at hmarker
    split at hmarker <;> first | exact ⟨rfl, rfl⟩ | cases hmarker
  · exact ((ih.member s).mono fun _ _ => trivial).bind fun s => ih.members opened s

theorem member_moves (ih : AllMove steps) (s : Structure) :
    MovesAnywhere false (member (steps + 1) s) := by
  unfold member
  refine ih.specifiers.bind fun specifiers => .accept rfl rfl ?_ (ih.memberDeclarators _ s)
  cases specifiers.tag <;> exact .pure _

theorem memberDeclarators_moves (ih : AllMove steps) (base : CType) (s : Structure) :
    MovesAnywhere false (memberDeclarators (steps + 1) base s) := by
  unfold memberDeclarators
  refine (memberHead_moves base (ih.declarator false)).bind fun head => ?_
  refine (expressionBehind?_moves rfl rfl).bind fun width => ?_
  refine (skipAttributes_moves (steps + 1)).bind fun _ => ?_
  exact .accept rfl rfl (ih.memberDeclarators base _) ((Moves.expect rfl rfl _).bind fun _ => .pure _)

theorem specifiers_moves (ih : AllMove steps) : MovesAnywhere false (specifiers (steps + 1)) := by
  unfold specifiers
  refine (ih.specifierWords .empty).bind fun words => ?_
  cases words.specifiers? with
  | none => exact .unexpected _
  | some specifiers => exact .pure _

theorem declarator_moves (ih : AllMove steps) (abstract : Bool) :
    MovesAnywhere false (declarator (steps + 1) abstract) := by
  unfold declarator
  refine (pointers_moves (steps + 1) 0).bind fun count => ?_
  refine (declaratorHead_moves (ih.declarator abstract)).bind fun inner => ?_
  exact (ih.declaratorSuffixes inner.ops).bind fun ops => .pure _

theorem declaratorSuffixes_moves (ih : AllMove steps) (ops : List DeclaratorOp) :
    MovesAnywhere false (declaratorSuffixes (steps + 1) ops) := by
  unfold declaratorSuffixes
  refine .token fun t _ => ?_
  cases t with
  | openBracket =>
    exact (group_moves.mono (by rintro _ rfl; rfl)).bind fun inner => ih.declaratorSuffixes _
  | openParen =>
    refine .modifyKind (fun kind => if kind = .variable then .function else kind) fun _ => ?_
    refine Moves.bind ?_ fun params => ih.declaratorSuffixes _
    intro setting cursor params next hparen hrun
    have hopener : (headToken cursor.rest).isOpener = true := by rw [hparen]; rfl
    exact .enclosed hopener (by rw [hparen]; decide) (ih.parameters hrun)
  | _ => exact .pure _

/-- The parameters behind an opening parenthesis are read up to the closing one. -/
theorem parameters_moves (ih : AllMove steps) {setting : Setting} {cursor next : Cursor}
    {params : ParamList} (hrun : parameters (steps + 1) setting cursor = .ok (params, next)) :
    Passes true { cursor with rest := cursor.rest.tail } next := by
  have hlist : MovesAnywhere true (do
      if ← accept .closeParen then return ⟨[], false⟩
      else if ← ahead endsVoid then
        advance
        advance
        return ⟨[], false⟩
      else parameterList steps []) := by
    refine .accept_close rfl (.ahead_advance ?_ (ih.parameterList []))
    intro t u _ hvoid
    unfold endsVoid at hvoid
    split at hvoid
    · exact ⟨⟨rfl, rfl⟩, .advance_close (by rintro _ rfl; rfl) _⟩
    · cases hvoid
  unfold parameters at hrun
  obtain ⟨_, _, hadvance, hrun⟩ := bind_eq_ok.mp hrun
  cases hadvance
  exact hlist setting _ params next trivial hrun

theorem parameterList_moves (ih : AllMove steps) (params : List Param) :
    MovesAnywhere true (parameterList (steps + 1) params) := by
  unfold parameterList
  refine .accept rfl rfl (.expect_close rfl _ _) (ih.specifiers.bind fun specifiers => ?_)
  refine (ih.declarator true).bind fun declarator => (resolved_moves _).bind fun declared => ?_
  refine (skipAttributes_moves (steps + 1)).bind fun _ => ?_
  exact .accept rfl rfl (ih.parameterList _) (.expect_close rfl _ _)

end

/-- Each reader goes down one step to the others, so that one induction on the steps covers them all.
-/
theorem allMove (steps : Nat) : AllMove steps := by
  induction steps with
  | zero =>
    constructor <;> intros
    case parameters hrun => cases hrun
    all_goals exact .outOfSteps
  | succ steps ih =>
    exact {
      specifierWords := specifierWords_moves ih
      tagSpecifier := tagSpecifier_moves ih
      members := members_moves ih
      member := member_moves ih
      memberDeclarators := memberDeclarators_moves ih
      specifiers := specifiers_moves ih
      declarator := declarator_moves ih
      declaratorSuffixes := declaratorSuffixes_moves ih
      parameters := fun hrun => parameters_moves ih hrun
      parameterList := parameterList_moves ih }

end Reader

end RemoteCalls
