import RemoteCalls.Proofs.Outline.Refusing

/-!
# What a reader can make of some items

Where it is not known whether a reader has a result, it is still known which one it can have: a reader
allows some items if it takes them, and nothing behind them, in case it has a result at all.
-/

namespace RemoteCalls

namespace Reader

variable {α β : Type} {setting : Setting} {tags : List Structure} {m : Reader α}
  {items more : List Item} {P P' : Token → Prop}

/-- A reader in front of some items that has a result takes them, and nothing behind them, if the
token behind them satisfies `P`. What it finds and the structures that it leaves satisfy `Q`. -/
def Allows (setting : Setting) (tags : List Structure) (m : Reader α) (items : List Item)
    (P : Token → Prop) (Q : α → List Structure → Prop) : Prop :=
  ∀ row behind kind a next, Spells items row → P (headToken behind) →
    m setting ⟨row ++ behind, kind, tags⟩ = .ok (a, next) → next.rest = behind ∧ Q a next.tags

theorem Takes.allows {Q : α → List Structure → Prop} (h : Takes setting tags m items P Q) :
    Allows setting tags m items P Q := by
  intro row behind kind a next hrow hbehind hrun
  have htakes := h row behind kind hrow hbehind
  rw [hrun] at htakes
  exact htakes

theorem Refuses.allows {Q : α → List Structure → Prop} (h : Refuses setting tags m items) :
    Allows setting tags m items P Q :=
  fun row behind kind _ _ hrow _ hrun => absurd hrun (h row behind kind hrow _)

namespace Allows

variable {Q Q' : α → List Structure → Prop} {R : β → List Structure → Prop}

theorem mono (h : Allows setting tags m items P Q) (hQ : ∀ a tags, Q a tags → Q' a tags)
    (hP : ∀ t, P' t → P t) : Allows setting tags m items P' Q' :=
  fun row behind kind a next hrow hbehind hrun =>
    (h row behind kind a next hrow (hP _ hbehind) hrun).imp_right (hQ a next.tags)

/-- Two readers in a row. The first has the items of the second behind it. -/
theorem bind {f : α → Reader β} (h : Allows setting tags m items P Q)
    (hnext : ∀ a tags', Q a tags' → Allows setting tags' (f a) more P' R)
    (hfront : ∀ t, P' t → P (Item.front t more)) :
    Allows setting tags (m >>= f) (items ++ more) P' R := by
  intro row behind kind b last hrow hbehind hrun
  obtain ⟨front, back, rfl, hspells, hback⟩ := hrow.of_append
  obtain ⟨a, ⟨rest, kind', tags'⟩, hfirst, hrest⟩ := bind_eq_ok.mp hrun
  rw [List.append_assoc] at hfirst
  obtain ⟨rfl, hQ⟩ := h front (back ++ behind) kind a _ hspells
    (by rw [hback.headToken]; exact hfront _ hbehind) hfirst
  exact hnext a tags' hQ back behind kind' b last hback hbehind hrest

/-- Two readers in a row, the second of which takes nothing. -/
theorem bind_nil {f : α → Reader β} (h : Allows setting tags m items P Q)
    (hnext : ∀ a tags', Q a tags' → Allows setting tags' (f a) [] P R) :
    Allows setting tags (m >>= f) items P R := by
  rw [← List.append_nil items]
  exact h.bind hnext fun t ht => ht

/-- A reader refuses what is behind the items of another one. -/
theorem refuses {f : α → Reader β} (h : Allows setting tags m items P Q)
    (hnext : ∀ a tags', Q a tags' → Refuses setting tags' (f a) more)
    (hfront : ∀ t, P (Item.front t more)) : Refuses setting tags (m >>= f) (items ++ more) := by
  intro row behind kind hrow result hresult
  obtain ⟨front, back, rfl, hspells, hback⟩ := hrow.of_append
  obtain ⟨a, ⟨rest, kind', tags'⟩, hfirst, hrest⟩ := bind_eq_ok.mp hresult
  rw [List.append_assoc] at hfirst
  obtain ⟨rfl, hQ⟩ := h front (back ++ behind) kind a _ hspells
    (by rw [hback.headToken]; exact hfront _) hfirst
  exact hnext a tags' hQ back behind kind' hback result hrest

/-- A reader in front of one token. -/
theorem at_token (h : Allows setting tags m items P Q) {t : Token} (ht : P t) :
    Allows setting tags m items (· = t) Q :=
  h.mono (fun _ _ hQ => hQ) fun _ hu => hu ▸ ht

/-- The token in front is known. -/
theorem token {f : Token → Reader β}
    (h : ∀ t, P t → Allows setting tags (f (Item.front t items)) items (· = t) R) :
    Allows setting tags (Reader.token >>= f) items P R := by
  intro row behind kind b last hrow hbehind hrun
  have hnext := h _ hbehind row behind kind b last hrow rfl
  rw [← hrow.headToken] at hnext
  exact hnext hrun

theorem position {f : Position → Reader β} (h : ∀ p, Allows setting tags (f p) items P R) :
    Allows setting tags (Reader.position >>= f) items P R :=
  fun row behind kind b last hrow hbehind hrun => h _ row behind kind b last hrow hbehind hrun

theorem kind {f : DeclKind → Reader β} (h : ∀ k, Allows setting tags (f k) items P R) :
    Allows setting tags (Reader.kind >>= f) items P R :=
  fun row behind kind b last hrow hbehind hrun => h _ row behind kind b last hrow hbehind hrun

theorem placeAt {f : Place → Reader β} (p : Position)
    (h : Allows setting tags (f (setting.place p)) items P R) :
    Allows setting tags (Reader.placeAt p >>= f) items P R := h

theorem origin {f : Origin → Reader β} (h : Allows setting tags (f setting.origin) items P R) :
    Allows setting tags (Reader.origin >>= f) items P R := h

theorem modifyKind {f : Unit → Reader β} (g : DeclKind → DeclKind)
    (h : Allows setting tags (f ()) items P R) :
    Allows setting tags ((modify fun cursor => { cursor with kind := g cursor.kind }) >>= f) items
      P R :=
  fun row behind kind b last hrow hbehind hrun => h row behind (g kind) b last hrow hbehind hrun

theorem takeTags {f : List Declaration → Reader β}
    (h : Allows setting [] (f (tags.map .struct)) items P R) :
    Allows setting tags (Reader.takeTags >>= f) items P R := h

theorem namedStructure? {specifiers : Specifiers} {f : Option Declaration → Reader β}
    (h : ∀ named, Allows setting tags (f named) items P R) :
    Allows setting tags (Reader.namedStructure? specifiers >>= f) items P R := by
  unfold Reader.namedStructure?
  cases specifiers.tag with
  | reference name position =>
    cases hdef : specifiers.isTypedef with
    | true => exact h none
    | false => exact h (some _)
  | _ => exact h none

/-- A declarator that has a meaning. -/
theorem resolved {result : Except DeclaratorFault α} {f : α → Reader β}
    (h : ∀ a, result = .ok a → Allows setting tags (f a) items P R) :
    Allows setting tags (Reader.resolved result >>= f) items P R := by
  cases result with
  | ok a => exact h a rfl
  | error fault =>
    intro row behind kind b last _ _ hrun
    cases hrun

/-- The token in front is taken. -/
theorem advance {t : Token} {f : Unit → Reader β} (h : Allows setting tags (f ()) items P R) :
    Allows setting tags (Reader.advance >>= f) (.token t :: items) P R := by
  intro row behind kind b last hrow hbehind hrun
  cases hrow with
  | token hrest => exact h _ behind kind b last hrest hbehind hrun

/-- The token that has to be in front is there. -/
theorem expect {wanted : Token} {what : Expectation} {f : Unit → Reader β}
    (h : Allows setting tags (f ()) items P R) :
    Allows setting tags (Reader.expect wanted what >>= f) (.token wanted :: items) P R := by
  intro row behind kind b last hrow hbehind hrun
  have hhead : headToken (row ++ behind) = wanted := hrow.headToken behind
  rw [bind_apply, expect_apply, if_pos hhead] at hrun
  cases hrow with
  | token hrest => exact h _ behind kind b last hrest hbehind hrun

/-- What two tokens in front look like, the first of which is known. -/
theorem ahead {t : Token} {look : Token → Token → Bool} {f : Bool → Reader β}
    (h : ∀ u, P u → Allows setting tags (f (look t (Item.front u items))) (.token t :: items)
      (· = u) R) :
    Allows setting tags (Reader.ahead look >>= f) (.token t :: items) P R := by
  intro row behind kind b last hrow hbehind hrun
  have hnext := h _ hbehind row behind kind b last hrow rfl
  have hahead : Reader.ahead look setting ⟨row ++ behind, kind, tags⟩ =
      .ok (look t (Item.front (headToken behind) items), ⟨row ++ behind, kind, tags⟩) := by
    change Except.ok (look (headToken (row ++ behind)) (headToken (row ++ behind).tail), _) = _
    rw [hrow.headToken, hrow.headToken_tail]
    rfl
  rw [bind_apply, hahead] at hrun
  exact hnext hrun

end Allows

end Reader

end RemoteCalls
