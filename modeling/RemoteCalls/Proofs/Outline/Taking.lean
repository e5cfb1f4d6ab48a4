import RemoteCalls.Proofs.Outline.External
import RemoteCalls.Proofs.Token.Items

/-!
# Readers in front of lexemes that are known

Where it is known what the lexemes in front spell, and something about the token behind them, it is
known what a reader takes and what it finds. The module gives the rules by which this passes from
readers to their compositions. Nothing is said of the number of steps: a reader that runs out of
steps is left to the theorem that there are always enough.
-/

namespace RemoteCalls

/-- In front of a row that spells some items stands the token that is in front of the items. -/
theorem Spells.headToken {items : List Item} {row : List Lexeme} (h : Spells items row)
    (behind : List Lexeme) : Reader.headToken (row ++ behind) =
      Item.front (Reader.headToken behind) items := by
  cases h with
  | nil => rfl
  | token hrest => rfl
  | dimension size hopener hcloser hbalanced hsize hrest => exact hopener
  | width hcolon hexpression htext hrest => exact hcolon

/-- A row that spells a token and more begins with the lexeme of the token. -/
theorem Spells.exists_cons {t : Token} {items : List Item} {row : List Lexeme}
    (h : Spells (.token t :: items) row) :
    ∃ lexeme rest, row = lexeme :: rest ∧ Spells items rest := by
  cases h with
  | token hrest => exact ⟨_, _, rfl, hrest⟩

/-- Behind a token stands what is in front of the items behind it. -/
theorem Spells.headToken_tail {t : Token} {items : List Item} {row : List Lexeme}
    (h : Spells (.token t :: items) row) (behind : List Lexeme) :
    Reader.headToken (row ++ behind).tail = Item.front (Reader.headToken behind) items := by
  cases h with
  | token hrest => exact hrest.headToken behind

/-- The tokens that show how items open and close groups. -/
def Item.tokens : Item → List Token
  | .token t => [t]
  | .dimension _ => [.openBracket, .closeBracket]
  | .width _ => [.colon]

/-- Items open and close the groups that a row opens and closes which spells them. -/
theorem Spells.nest {items : List Item} {row : List Lexeme} (h : Spells items row) (depth : Nat) :
    Token.nest depth (Lexeme.tokens row) = Token.nest depth (items.flatMap Item.tokens) := by
  induction h generalizing depth with
  | nil => rfl
  | token hrest ih =>
    simp only [Lexeme.tokens, List.map_cons, List.flatMap_cons, Item.tokens, List.singleton_append,
      Token.nest]
    split
    · exact ih _
    split
    · split
      · rfl
      · exact ih _
    · exact ih _
  | @dimension opener closer inner row items size hopener hcloser hbalanced hsize hrest ih =>
    have hgroup : Token.Balanced (opener.token :: (Lexeme.tokens inner ++ [closer.token])) :=
      hbalanced.group (by rw [hopener]; rfl) (by rw [hcloser]; rfl)
    have hnest := Token.nest_add hgroup depth
    rw [Nat.zero_add] at hnest
    have htokens : Lexeme.tokens (opener :: (inner ++ closer :: row)) =
        (opener.token :: (Lexeme.tokens inner ++ [closer.token])) ++ Lexeme.tokens row := by
      simp [Lexeme.tokens]
    rw [htokens, Token.nest_append, hnest]
    simpa [Item.tokens, Token.nest, Token.isOpener, Token.isCloser] using ih depth
  | @width colon inner row items hcolon hexpression htext hrest ih =>
    have hnest := Token.nest_add hexpression.nest depth
    rw [Nat.zero_add] at hnest
    have htokens : Lexeme.tokens (colon :: (inner ++ row)) =
        .colon :: (Lexeme.tokens inner ++ Lexeme.tokens row) := by
      simp [Lexeme.tokens, hcolon]
    rw [htokens]
    simpa [Item.tokens, Token.nest, Token.nest_append, Token.isOpener, Token.isCloser, hnest]
      using ih depth

namespace Reader

variable {α β : Type}

/-- A reader in front of some items takes them, and nothing behind them, if the token behind them
satisfies `P`. What it finds and the structures that it leaves satisfy `Q`. -/
def Takes (setting : Setting) (tags : List Structure) (m : Reader α) (items : List Item)
    (P : Token → Prop) (Q : α → List Structure → Prop) : Prop :=
  ∀ row behind kind, Spells items row → P (headToken behind) →
    match m setting ⟨row ++ behind, kind, tags⟩ with
    | .ok (a, next) => next.rest = behind ∧ Q a next.tags
    | .error failure => failure = .outOfSteps

/-- A reader in front of some items takes them and gives a known result. -/
def Gives (setting : Setting) (tags : List Structure) (m : Reader α) (items : List Item)
    (P : Token → Prop) (a : α) : Prop :=
  Takes setting tags m items P fun b tags' => b = a ∧ tags' = tags

namespace Takes

variable {setting : Setting} {tags : List Structure} {m : Reader α} {items more : List Item}
  {P P' : Token → Prop} {Q Q' : α → List Structure → Prop} {R : β → List Structure → Prop}

theorem mono (h : Takes setting tags m items P Q) (hQ : ∀ a tags, Q a tags → Q' a tags)
    (hP : ∀ t, P' t → P t) : Takes setting tags m items P' Q' := by
  intro row behind kind hrow hbehind
  have hm := h row behind kind hrow (hP _ hbehind)
  cases hrun : m setting ⟨row ++ behind, kind, tags⟩ with
  | error failure =>
    rw [hrun] at hm
    exact hm
  | ok result =>
    rw [hrun] at hm
    exact ⟨hm.1, hQ _ _ hm.2⟩

/-- A reader without steps takes nothing. -/
theorem outOfSteps : Takes setting tags (throw .outOfSteps) items P Q :=
  fun _ _ _ _ _ => rfl

theorem pure {a : α} (h : Q a tags) : Takes setting tags (pure a) [] P Q := by
  intro row behind kind hrow _
  cases hrow
  exact ⟨rfl, h⟩

/-- Two readers in a row. The first has the items of the second behind it. -/
theorem bind {f : α → Reader β} (h : Takes setting tags m items P Q)
    (hnext : ∀ a tags', Q a tags' → Takes setting tags' (f a) more P' R)
    (hfront : ∀ t, P' t → P (Item.front t more)) :
    Takes setting tags (m >>= f) (items ++ more) P' R := by
  intro row behind kind hrow hbehind
  obtain ⟨front, back, rfl, hspells, hback⟩ := hrow.of_append
  have hm := h front (back ++ behind) kind hspells (by
    rw [hback.headToken]
    exact hfront _ hbehind)
  rw [bind_apply, List.append_assoc]
  cases hrun : m setting ⟨front ++ (back ++ behind), kind, tags⟩ with
  | error failure =>
    rw [hrun] at hm
    exact hm
  | ok result =>
    obtain ⟨a, rest, kind', tags'⟩ := result
    rw [hrun] at hm
    obtain ⟨rfl, hQ⟩ := hm
    exact hnext a tags' hQ back behind kind' hback hbehind

/-- Two readers in a row, the second of which takes nothing. -/
theorem bind_nil {f : α → Reader β} (h : Takes setting tags m items P Q)
    (hnext : ∀ a tags', Q a tags' → Takes setting tags' (f a) [] P R) :
    Takes setting tags (m >>= f) items P R := by
  rw [← List.append_nil items]
  exact h.bind hnext fun t ht => ht

/-- A reader that takes its items takes them in front of one token. -/
theorem at_token (h : Takes setting tags m items P Q) {t : Token} (ht : P t) :
    Takes setting tags m items (· = t) Q :=
  h.mono (fun _ _ hQ => hQ) fun _ hu => hu ▸ ht

/-- A reader that only looks, and what is read behind it. -/
theorem look {f : α → Reader β} (look : Cursor → α)
    (hm : ∀ cursor, m setting cursor = .ok (look cursor, cursor))
    (h : ∀ row behind kind, Spells items row → P (headToken behind) →
      Takes setting tags (f (look ⟨row ++ behind, kind, tags⟩)) items
        (· = headToken behind) R) :
    Takes setting tags (m >>= f) items P R := by
  intro row behind kind hrow hbehind
  rw [bind_apply, hm]
  exact h row behind kind hrow hbehind row behind kind hrow rfl

/-- The token in front is known. -/
theorem token {f : Token → Reader β}
    (h : ∀ t, P t → Takes setting tags (f (Item.front t items)) items (· = t) R) :
    Takes setting tags (Reader.token >>= f) items P R := by
  refine .look (fun cursor => headToken cursor.rest) (fun _ => rfl) ?_
  intro row behind kind hrow hbehind
  rw [hrow.headToken]
  exact h _ hbehind

theorem position {f : Position → Reader β} (h : ∀ p, Takes setting tags (f p) items P R) :
    Takes setting tags (Reader.position >>= f) items P R := by
  intro row behind kind hrow hbehind
  exact h _ row behind kind hrow hbehind

theorem placeAt {f : Place → Reader β} (p : Position)
    (h : Takes setting tags (f (setting.place p)) items P R) :
    Takes setting tags (Reader.placeAt p >>= f) items P R := h

theorem origin {f : Origin → Reader β} (h : Takes setting tags (f setting.origin) items P R) :
    Takes setting tags (Reader.origin >>= f) items P R := h

theorem noteRules {f : NoteRules → Reader β}
    (h : Takes setting tags (f setting.rules) items P R) :
    Takes setting tags (Reader.noteRules >>= f) items P R := h

theorem kind {f : DeclKind → Reader β} (h : ∀ k, Takes setting tags (f k) items P R) :
    Takes setting tags (Reader.kind >>= f) items P R := by
  intro row behind kind hrow hbehind
  exact h _ row behind kind hrow hbehind

theorem modifyKind {f : Unit → Reader β} (g : DeclKind → DeclKind)
    (h : Takes setting tags (f ()) items P R) :
    Takes setting tags ((modify fun cursor => { cursor with kind := g cursor.kind }) >>= f) items
      P R := by
  intro row behind kind hrow hbehind
  exact h row behind (g kind) hrow hbehind

theorem modifyTags {f : Unit → Reader β} (g : List Structure → List Structure)
    (h : Takes setting (g tags) (f ()) items P R) :
    Takes setting tags ((modify fun cursor => { cursor with tags := g cursor.tags }) >>= f) items
      P R := h

/-- A declarator with a meaning has it. -/
theorem resolved {a : α} {f : α → Reader β} (h : Takes setting tags (f a) items P R) :
    Takes setting tags (Reader.resolved (.ok a) >>= f) items P R := h

theorem takeTags {f : List Declaration → Reader β}
    (h : Takes setting [] (f (tags.map .struct)) items P R) :
    Takes setting tags (Reader.takeTags >>= f) items P R := h

theorem namedStructure? {specifiers : Specifiers} {f : Option Declaration → Reader β}
    (h : ∀ named, Takes setting tags (f named) items P R) :
    Takes setting tags (Reader.namedStructure? specifiers >>= f) items P R := by
  unfold Reader.namedStructure?
  cases specifiers.tag with
  | reference name position =>
    cases hdef : specifiers.isTypedef with
    | true => exact h none
    | false => exact h (some _)
  | _ => exact h none

/-- The token in front is taken. -/
theorem advance {t : Token} {f : Unit → Reader β} (h : Takes setting tags (f ()) items P R) :
    Takes setting tags (Reader.advance >>= f) (.token t :: items) P R := by
  intro row behind kind hrow hbehind
  cases hrow with
  | token hrest => exact h _ behind kind hrest hbehind

/-- The wanted token is in front and is taken. -/
theorem accept {wanted : Token} {yes no : Reader β} (h : Takes setting tags yes items P R) :
    Takes setting tags (do if ← Reader.accept wanted then yes else no) (.token wanted :: items)
      P R := by
  intro row behind kind hrow hbehind
  have hhead : headToken (row ++ behind) = wanted := hrow.headToken behind
  rw [bind_apply, accept_apply, if_pos hhead]
  cases hrow with
  | token hrest => exact h _ behind kind hrest hbehind

/-- The wanted token is not in front. -/
theorem accept_ne {wanted : Token} {yes no : Reader β} (h : Takes setting tags no items P R)
    (hfront : ∀ t, P t → Item.front t items ≠ wanted) :
    Takes setting tags (do if ← Reader.accept wanted then yes else no) items P R := by
  intro row behind kind hrow hbehind
  rw [bind_apply, accept_apply, if_neg]
  · exact h row behind kind hrow hbehind
  · change headToken (row ++ behind) ≠ wanted
    rw [hrow.headToken]
    exact hfront _ hbehind

/-- The token that has to be in front is there. -/
theorem expect {wanted : Token} {what : Expectation} {f : Unit → Reader β}
    (h : Takes setting tags (f ()) items P R) :
    Takes setting tags (Reader.expect wanted what >>= f) (.token wanted :: items) P R := by
  intro row behind kind hrow hbehind
  have hhead : headToken (row ++ behind) = wanted := hrow.headToken behind
  rw [bind_apply, expect_apply, if_pos hhead]
  cases hrow with
  | token hrest => exact h _ behind kind hrest hbehind

/-- What two tokens in front look like, the first of which is known. -/
theorem ahead {t : Token} {look : Token → Token → Bool} {f : Bool → Reader β}
    (h : ∀ u, P u → Takes setting tags (f (look t (Item.front u items))) (.token t :: items)
      (· = u) R) :
    Takes setting tags (Reader.ahead look >>= f) (.token t :: items) P R := by
  refine .look (fun cursor => look (headToken cursor.rest) (headToken cursor.rest.tail))
    (fun _ => rfl) ?_
  intro row behind kind hrow hbehind
  rw [hrow.headToken, hrow.headToken_tail]
  exact h _ hbehind

/-- What the token in front looks like, whatever is behind it. -/
theorem ahead_front {look : Token → Token → Bool} {f : Bool → Reader β} (answer : Bool)
    (hlook : ∀ t, P t → ∀ u, look (Item.front t items) u = answer)
    (h : Takes setting tags (f answer) items P R) :
    Takes setting tags (Reader.ahead look >>= f) items P R := by
  intro row behind kind hrow hbehind
  have hahead : Reader.ahead look setting ⟨row ++ behind, kind, tags⟩ =
      .ok (answer, ⟨row ++ behind, kind, tags⟩) := by
    change Except.ok (look (headToken (row ++ behind)) (headToken (row ++ behind).tail), _) = _
    rw [hrow.headToken, hlook _ hbehind]
  rw [bind_apply, hahead]
  exact h row behind kind hrow hbehind

/-- A pair of brackets is taken as a group, whose text is the size. -/
theorem group {size : Option String} {f : List Lexeme → Reader β}
    (h : ∀ inner, (if (Lexeme.join inner).isEmpty then none else some (Lexeme.join inner)) = size →
      Takes setting tags (f inner) items P R) :
    Takes setting tags (Reader.group >>= f) (.dimension size :: items) P R := by
  intro row behind kind hrow hbehind
  cases hrow with
  | @dimension opener closer inner row _ _ hopener hcloser hbalanced hsize hrest =>
    have hsplit : Lexeme.splitGroup 0 (inner ++ closer :: row ++ behind) =
        some (inner, row ++ behind) := by
      rw [List.append_assoc]
      exact Lexeme.splitGroup_of_balanced hbalanced (by rw [hcloser]; rfl) _
    rw [bind_apply, group_apply]
    simp only [List.cons_append, List.tail_cons, hsplit]
    exact h inner hsize row behind kind hrest hbehind

/-- A group is taken with its delimiters. -/
theorem enclosed {opener closer : Token} {inner : List Item} {f : List Lexeme → Reader β}
    (hcloser : closer.isCloser = true) (hinner : Token.Balanced (inner.flatMap Item.tokens))
    (h : ∀ row, Takes setting tags (f row) items P R) :
    Takes setting tags (Reader.group >>= f) (.token opener :: (inner ++ .token closer :: items))
      P R := by
  intro row behind kind hrow hbehind
  cases hrow with
  | token hrest =>
    obtain ⟨row, closed, rfl, hspells, hclosed⟩ := hrest.of_append
    have hbalanced : Token.Balanced (Lexeme.tokens row) := (hspells.nest 0).trans hinner
    cases hclosed with
    | @token last _ closed hitems =>
      have hsplit := Lexeme.splitGroup_of_balanced hbalanced hcloser (closed ++ behind)
      rw [bind_apply, group_apply]
      simp only [List.cons_append, List.tail_cons, List.append_assoc, hsplit]
      exact h row closed behind kind hitems hbehind

/-! ### Readers that take nothing -/

/-- No qualifier is in front. -/
theorem skipQualifiers {f : Unit → Reader β} (h : Takes setting tags (f ()) items P R)
    (hfront : ∀ t, P t → ∀ word, Item.front t items ≠ .qualifier word) :
    Takes setting tags (Reader.skipQualifiers >>= f) items P R := by
  intro row behind kind hrow hbehind
  have hhead := hrow.headToken behind
  have hskip : Reader.skipQualifiers setting ⟨row ++ behind, kind, tags⟩ =
      .ok ((), ⟨row ++ behind, kind, tags⟩) := by
    change Except.ok ((), Cursor.mk (List.dropWhile _ (row ++ behind)) kind tags) = _
    cases hrest : row ++ behind with
    | nil => rfl
    | cons lexeme rest =>
      rw [hrest] at hhead
      have hne := hfront _ hbehind
      rw [← hhead] at hne
      rw [List.dropWhile_cons_of_neg]
      cases htoken : lexeme.token with
      | qualifier word => exact absurd htoken (hne word)
      | _ => simp
  rw [bind_apply, hskip]
  exact h row behind kind hrow hbehind

/-- No attribute is in front. -/
theorem skipAttributes {steps : Nat} {f : Unit → Reader β}
    (h : Takes setting tags (f ()) items P R)
    (hfront : ∀ t, P t → isAttribute (Item.front t items) = false) :
    Takes setting tags (Reader.skipAttributes (steps + 1) >>= f) items P R := by
  intro row behind kind hrow hbehind
  have hskip : Reader.skipAttributes (steps + 1) setting ⟨row ++ behind, kind, tags⟩ =
      .ok ((), ⟨row ++ behind, kind, tags⟩) := by
    unfold Reader.skipAttributes
    change (if isAttribute (headToken (row ++ behind)) = true then _ else _ : Reader Unit) _ _ = _
    rw [hrow.headToken, hfront _ hbehind]
    rfl
  rw [bind_apply, hskip]
  exact h row behind kind hrow hbehind

end Takes

namespace Gives

variable {setting : Setting} {tags : List Structure} {m : Reader α} {items more : List Item}
  {P P' : Token → Prop} {a : α} {R : β → List Structure → Prop}

/-- A reader with a known result, and what is read behind it. -/
theorem bind {f : α → Reader β} (h : Gives setting tags m items P a)
    (hnext : Takes setting tags (f a) more P' R)
    (hfront : ∀ t, P' t → P (Item.front t more)) :
    Takes setting tags (m >>= f) (items ++ more) P' R := by
  refine Takes.bind h ?_ hfront
  rintro _ _ ⟨rfl, rfl⟩
  exact hnext

theorem bind_nil {f : α → Reader β} (h : Gives setting tags m items P a)
    (hnext : Takes setting tags (f a) [] P R) : Takes setting tags (m >>= f) items P R := by
  rw [← List.append_nil items]
  exact Gives.bind h hnext fun t ht => ht

end Gives

end Reader

end RemoteCalls
