import RemoteCalls.Outline.Declarators
import RemoteCalls.Proofs.Outline.Lookahead

/-!
# Specifiers, declarators and structure bodies do not look past their end

The readers of specifiers, declarators, parameters and structure bodies call each other. With enough
steps for the lexemes that are left, none of them runs out of steps, and none sees what is put
behind the row it reads in. Each goes down one step to the others, so that one induction on the
steps covers them all.
-/

namespace RemoteCalls

/-- The structure that a tag brings is consistent. -/
def TagUse.Consistent : TagUse → Prop
  | .anonymous s => s.Consistent
  | _ => True

theorem Structure.Consistent.addMember {s : Structure} (hs : s.Consistent) (name : Option String)
    (type : CType) (width : Option String) : (s.addMember name type width).Consistent := by
  cases name <;> exact hs

/-- The specifiers have the tag of their words. -/
theorem SpecifierWords.tag_of_specifiers? {s : SpecifierWords} {specifiers : Specifiers}
    (h : s.specifiers? = some specifiers) : specifiers.tag = s.tag := by
  unfold specifiers? at h
  simp only [Option.map_eq_some_iff] at h
  obtain ⟨base, -, rfl⟩ := h
  rfl

namespace Reader

variable {α : Type} {closed : Bool} {n : Nat}

theorem foreseeing_beginsMarker (rules : NoteRules) : Foreseeing (beginsMarker rules) :=
  ⟨fun _ => rfl, fun _ => rfl, fun _ => rfl⟩

theorem foreseeing_beginsCall : Foreseeing beginsCall :=
  ⟨fun _ => rfl, fun _ => rfl, fun _ => rfl⟩

theorem foreseeing_beginsNested (abstract : Bool) : Foreseeing (beginsNested abstract) :=
  ⟨fun _ => rfl, fun _ => rfl, fun _ => rfl⟩

theorem foreseeing_endsVoid : Foreseeing endsVoid :=
  ⟨fun _ => rfl, fun _ => rfl, fun _ => rfl⟩

/-! ### Marker statements -/

/-- A statement may end in a semicolon. Behind a closed reader it makes no difference where the row
ends, as long as no semicolon comes behind the row. -/
theorem Reads.endStatement {narrow wide : Reader α} {Q : α → Nat → Prop}
    (h : Reads true n narrow wide Q) :
    Reads true n (narrow >>= Reader.endStatement) (wide >>= Reader.endStatement)
      fun a _ => ∃ k, Q a k := by
  have hend : ∀ (a : α) setting cursor, Reader.endStatement a setting cursor =
      .ok (a, if headToken cursor.rest = .semicolon
        then { cursor with rest := cursor.rest.tail } else cursor) := by
    intro a setting cursor
    unfold Reader.endStatement
    rw [discard_eq, bind_apply, bind_apply, accept_apply]
    by_cases hhead : headToken cursor.rest = .semicolon
    · rw [if_pos hhead, if_pos hhead]
      rfl
    · rw [if_neg hhead, if_neg hhead]
      rfl
  refine h.behind fun setting cursor a next hn hfirst => ?_
  obtain ⟨hnext, hQ, hsuffix, hless, hwide⟩ := hfirst
  rw [hend]
  by_cases hhead : headToken next.rest = .semicolon
  · rw [if_pos hhead]
    have htail : next.rest.tail <:+ next.rest := List.tail_suffix _
    refine ⟨hnext, ⟨_, hQ⟩, htail.trans hsuffix, ?_, ?_⟩
    · intro hclosed
      exact Nat.lt_of_le_of_lt htail.length_le (hless hclosed)
    · intro finish behind hbehind
      have hne : next.rest ≠ [] := by
        intro hnil
        rw [hnil] at hhead
        cases hhead
      rw [bind_apply, hwide finish behind ⟨hbehind.1, fun hnil => absurd hnil hne⟩]
      change Reader.endStatement a _ _ = _
      rw [hend, Cursor.extend, headToken_append hne, if_pos hhead]
      simp only [Cursor.extend, List.tail_append_of_ne_nil hne]
  · rw [if_neg hhead]
    refine ⟨hnext, ⟨_, hQ⟩, hsuffix, hless, ?_⟩
    intro finish behind hbehind
    rw [bind_apply, hwide finish behind hbehind]
    change Reader.endStatement a _ _ = _
    rw [hend, if_neg]
    change headToken (next.rest ++ behind) ≠ .semicolon
    by_cases hne : next.rest = []
    · rw [hne]
      exact hbehind.2 hne
    · rw [headToken_append hne]
      exact hhead

theorem markerNote_reads (hn : 0 < n) :
    Reads true n markerNote markerNote fun _ _ => True := by
  unfold markerNote
  apply token_reads.bind
  rintro t k - ⟨rfl, -⟩
  refine .ite_ahead foreseeing_beginsCall ?_ ?_
  · intro _
    apply advance_reads.bind
    intro _ m _ _
    exact group_reads.map fun _ _ _ _ => trivial
  · exact (advance_closes hn).map fun _ _ _ _ => trivial

theorem marker_reads (hn : 0 < n) : Reads true n marker marker fun _ _ => True :=
  (markerNote_reads hn).endStatement.mono fun _ _ _ _ => trivial

/-! ### Tags -/

theorem modifyKind_reads (f : DeclKind → DeclKind) :
    Reads false n (modify fun cursor => { cursor with kind := f cursor.kind })
      (modify fun cursor => { cursor with kind := f cursor.kind }) fun _ k => k = n := by
  intro setting cursor hcursor hn
  exact ⟨hcursor, hn, List.suffix_refl _, nofun, fun _ _ _ => rfl⟩

theorem tagName_reads {steps steps' : Nat} (hn : n < steps) (hsteps : steps ≤ steps') :
    Reads false n (tagName steps) (tagName steps') fun _ k => k ≤ n := by
  unfold tagName
  apply (skipAttributes_reads hn hsteps).bind
  intro _ k hk _
  refine name?_reads.bind ?_
  intro name m hm _
  refine (skipAttributes_reads (by omega) hsteps).map ?_
  intro _ j hj _
  omega

theorem structureBody_reads {start : Position} {tag : String}
    {narrow wide : Position → Structure → Reader Structure} (hn : 0 < n)
    (h : ∀ opened s k, k < n → s.Consistent →
      Reads false k (narrow opened s) (wide opened s) fun s _ => s.Consistent) :
    Reads false n (structureBody start tag narrow) (structureBody start tag wide)
      fun s _ => s.Consistent := by
  unfold structureBody
  apply kind_reads.look
  intro outer
  apply (modifyKind_reads fun _ => .struct).look
  intro _
  apply position_reads.look
  intro opened
  apply advance_reads.bind
  intro _ j _ hj
  apply (placeAt_reads start).look
  intro place
  apply origin_reads.look
  intro origin
  have hempty : Structure.Consistent ⟨tag, [], origin, place, true, some place, []⟩ := rfl
  apply (h opened _ j (by omega) hempty).bind
  intro s m _ hs
  exact (modifyKind_reads fun _ => outer).map fun _ _ _ _ => hs

theorem defineTag_reads {name : Option String} {s : Structure} (hs : s.Consistent) :
    Reads false n (defineTag name s) (defineTag name s) fun tag _ => tag.Consistent := by
  unfold defineTag
  refine .ite ?_ ?_
  · intro _
    have hmodify : Reads false n
        (modify fun cursor => { cursor with tags := cursor.tags ++ [s] })
        (modify fun cursor => { cursor with tags := cursor.tags ++ [s] }) fun _ _ => True := by
      intro setting cursor hcursor hn
      refine ⟨?_, trivial, List.suffix_refl _, nofun, fun _ _ _ => rfl⟩
      intro other hother
      rcases List.mem_append.mp hother with hold | hnew
      · exact hcursor other hold
      · rw [List.mem_singleton.mp hnew]
        exact hs
    exact hmodify.map fun _ _ _ _ => trivial
  · intro _
    exact pure_reads hs

/-! ### Declarators -/

theorem resolved_reads (result : Except DeclaratorFault α) :
    Reads false n (resolved result) (resolved result) fun _ k => k = n := by
  cases result with
  | ok a => exact pure_reads rfl
  | error fault => exact malformed_reads _ _

theorem memberHead_reads {base : CType} {narrow wide : Reader Declarator}
    (h : Reads false n narrow wide fun _ _ => True) :
    Reads false n (memberHead base narrow) (memberHead base wide) fun _ _ => True := by
  unfold memberHead
  refine .ite_token (by decide) ?_ ?_
  · intro _
    exact pure_reads trivial
  · apply h.bind
    intro declarator k _ _
    apply (resolved_reads _).bind
    intro meaning m _ _
    cases meaning with
    | object type => exact pure_reads trivial
    | function result params => exact malformed_reads _ _

theorem nameless_reads (abstract : Bool) :
    Reads false n (nameless abstract) (nameless abstract) fun _ _ => True := by
  unfold nameless
  refine .ite ?_ ?_
  · intro _
    exact pure_reads trivial
  · intro _
    exact unexpected_reads _ _

theorem declaratorHead_reads {abstract : Bool} {narrow wide : Reader Declarator}
    (h : ∀ k, k < n → Reads false k narrow wide fun _ _ => True) :
    Reads false n (declaratorHead abstract narrow) (declaratorHead abstract wide)
      fun _ _ => True := by
  unfold declaratorHead
  refine .ite_ahead (foreseeing_beginsNested abstract) ?_ ?_
  · intro hn
    apply advance_reads.bind
    intro _ k _ hk
    apply (h k (by omega)).bind
    intro inner m _ _
    refine ((expect_reads (by decide) _).opened rfl).map ?_
    intro _ _ _ _
    trivial
  · apply token_reads.bind
    intro t k _ _
    cases t with
    | identifier name =>
      refine .ite ?_ ?_
      · intro _
        exact nameless_reads abstract
      · intro _
        exact advance_reads.map fun _ _ _ _ => trivial
    | _ => exact nameless_reads abstract

/-! ### The readers that call each other -/

/-- No reader runs out of `steps` steps, or sees what is put behind its row, if there are enough
steps for the row, and with `more` steps it comes to the same. -/
structure AllRead (steps more : Nat) : Prop where
  le : steps ≤ more
  specifierWords : ∀ {n : Nat} {s : SpecifierWords}, 4 * n + 2 ≤ steps → s.tag.Consistent →
    Reads false n (specifierWords steps s) (specifierWords more s) fun s _ => s.tag.Consistent
  tagSpecifier : ∀ {n : Nat}, 4 * n + 1 ≤ steps → 0 < n →
    Reads false n (tagSpecifier steps) (tagSpecifier more) fun r k => k < n ∧ r.2.Consistent
  members : ∀ {n : Nat} {s : Structure} (opened : Position), 4 * n + 6 ≤ steps →
    s.Consistent →
    Reads false n (members steps opened s) (members more opened s) fun s _ => s.Consistent
  member : ∀ {n : Nat} {s : Structure}, 4 * n + 5 ≤ steps → s.Consistent →
    Reads false n (member steps s) (member more s) fun s k => k < n ∧ s.Consistent
  memberDeclarators : ∀ {n : Nat} {s : Structure} (base : CType), 4 * n + 4 ≤ steps →
    s.Consistent →
    Reads false n (memberDeclarators steps base s) (memberDeclarators more base s)
      fun s k => k < n ∧ s.Consistent
  specifiers : ∀ {n : Nat}, 4 * n + 3 ≤ steps →
    Reads false n (specifiers steps) (specifiers more) fun s _ => s.tag.Consistent
  declarator : ∀ {n : Nat} (abstract : Bool), 4 * n + 3 ≤ steps →
    Reads false n (declarator steps abstract) (declarator more abstract) fun _ _ => True
  declaratorSuffixes : ∀ {n : Nat} (ops : List DeclaratorOp), 4 * n + 2 ≤ steps →
    Reads false n (declaratorSuffixes steps ops) (declaratorSuffixes more ops) fun _ _ => True
  parameters : ∀ {n : Nat}, 4 * n + 1 ≤ steps → 0 < n →
    Reads false n (parameters steps) (parameters more) fun _ k => k < n
  parameterList : ∀ {n : Nat} (params : List Param), 4 * n + 4 ≤ steps →
    Reads false n (parameterList steps params) (parameterList more params) fun _ _ => True

section

variable {steps more : Nat}

theorem specifierWords_reads (ih : AllRead steps more) {s : SpecifierWords}
    (hn : 4 * n + 2 ≤ steps + 1) (hs : s.tag.Consistent) :
    Reads false n (specifierWords (steps + 1) s) (specifierWords (more + 1) s)
      fun s _ => s.tag.Consistent := by
  unfold specifierWords
  apply token_reads.bind
  rintro t k - ⟨rfl, hpos⟩
  -- The words that only change what is known of the specifiers.
  have hword : ∀ {s' : SpecifierWords}, 0 < k → s'.tag.Consistent →
      Reads false k (do advance; specifierWords steps s') (do advance; specifierWords more s')
        fun s _ => s.tag.Consistent := by
    intro s' hk hs'
    apply advance_reads.bind
    intro _ m _ hm
    exact ih.specifierWords (by omega) hs'
  have htag : 0 < k → Reads false k
      (if s.hasType then malformed .twoTypes
        else do
          let r ← tagSpecifier steps
          specifierWords steps { s with base := some r.1, tag := r.2 })
      (if s.hasType then malformed .twoTypes
        else do
          let r ← tagSpecifier more
          specifierWords more { s with base := some r.1, tag := r.2 })
      fun s _ => s.tag.Consistent := by
    intro hk
    refine .ite ?_ ?_
    · intro _
      exact malformed_reads _ _
    · intro _
      apply (ih.tagSpecifier (by omega) hk).bind
      rintro ⟨base, tag⟩ m - ⟨hm, htag⟩
      exact ih.specifierWords (by omega) htag
  cases t with
  | storage word => exact hword (hpos nofun) hs
  | qualifier word =>
    refine hword (hpos nofun) ?_
    unfold SpecifierWords.addQualifier
    split
    · exact hs
    · split <;> exact hs
  | typedef => exact hword (hpos nofun) hs
  | builtin word =>
    refine .ite ?_ ?_
    · intro _
      exact malformed_reads _ _
    · intro _
      exact hword (hpos nofun) hs
  | struct => exact htag (hpos nofun)
  | union => exact htag (hpos nofun)
  | enum => exact htag (hpos nofun)
  | identifier word =>
    have hk : 0 < k := hpos nofun
    refine .ite ?_ ?_
    · intro _
      apply (skipAttribute_reads hk).bind
      intro _ m _ hm
      exact ih.specifierWords (by omega) hs
    · intro _
      refine .ite ?_ ?_
      · intro _
        exact hword hk hs
      · intro _
        refine .ite ?_ ?_
        · intro _
          exact pure_reads hs
        · intro _
          exact hword hk hs
  | _ => exact pure_reads hs

theorem tagSpecifier_reads (ih : AllRead steps more) (hn : 4 * n + 1 ≤ steps + 1)
    (hpos : 0 < n) :
    Reads false n (tagSpecifier (steps + 1)) (tagSpecifier (more + 1))
      fun r k => k < n ∧ r.2.Consistent := by
  unfold tagSpecifier
  apply position_reads.look
  intro start
  apply token_reads.bind
  rintro keyword k - ⟨rfl, -⟩
  apply advance_reads.bind
  intro _ m _ hm
  apply (tagName_reads (by omega) (Nat.succ_le_succ ih.le)).bind
  intro name j hj _
  refine .ite_token (by decide) ?_ ?_
  · intro hj'
    refine .ite ?_ ?_
    · intro _
      refine (structureBody_reads hj' ?_).bind ?_
      · intro opened s i hi hs
        exact ih.members opened (by omega) hs
      · intro s i hi hs
        refine (defineTag_reads hs).map ?_
        intro tag l hl htag
        exact ⟨by omega, htag⟩
    · intro _
      refine group_reads.discard.map ?_
      rintro - i - ⟨_, hi⟩
      exact ⟨by omega, trivial⟩
  · cases name with
    | none => exact malformed_reads _ _
    | some name =>
      refine pure_reads ⟨by omega, ?_⟩
      change (if _ then _ else _ : TagUse).Consistent
      split <;> trivial

theorem members_reads (ih : AllRead steps more) {s : Structure} (opened : Position)
    (hn : 4 * n + 6 ≤ steps + 1) (hs : s.Consistent) :
    Reads false n (members (steps + 1) opened s) (members (more + 1) opened s)
      fun s _ => s.Consistent := by
  unfold members
  refine .ite_accept (by decide) ?_ ?_
  · intro k _
    exact pure_reads hs
  apply token_reads.bind
  rintro t k - ⟨rfl, hpos⟩
  refine .ite ?_ ?_
  · intro _
    exact fatal_reads _ _ _
  intro ht
  have hk : 0 < k := hpos ht
  refine .ite_accept (by decide) ?_ ?_
  · intro m hm
    exact ih.members opened (by omega) hs
  unfold atMarker
  rw [bind_assoc, bind_assoc]
  apply noteRules_reads.look
  intro rules
  refine .ite_ahead (foreseeing_beginsMarker rules) ?_ ?_
  · intro _
    apply ((marker_reads hk).opened rfl).bind
    rintro note m - ⟨hm, -⟩
    exact ih.members opened (by omega) hs
  · apply (ih.member (by omega) hs).bind
    rintro s m - ⟨hm, hs⟩
    exact ih.members opened (by omega) hs

theorem member_reads (ih : AllRead steps more) {s : Structure}
    (hn : 4 * n + 5 ≤ steps + 1) (hs : s.Consistent) :
    Reads false n (member (steps + 1) s) (member (more + 1) s)
      fun s k => k < n ∧ s.Consistent := by
  unfold member
  apply (ih.specifiers (by omega)).bind
  intro specifiers k hk _
  refine .ite_accept (by decide) ?_ ?_
  · intro m hm
    cases specifiers.tag with
    | anonymous inner => exact pure_reads ⟨by omega, hs⟩
    | _ => exact pure_reads ⟨by omega, hs⟩
  · refine (ih.memberDeclarators _ (by omega) hs).mono ?_
    rintro s m - ⟨hm, hs⟩
    exact ⟨by omega, hs⟩

theorem memberDeclarators_reads (ih : AllRead steps more) {s : Structure} (base : CType)
    (hn : 4 * n + 4 ≤ steps + 1) (hs : s.Consistent) :
    Reads false n (memberDeclarators (steps + 1) base s) (memberDeclarators (more + 1) base s)
      fun s k => k < n ∧ s.Consistent := by
  unfold memberDeclarators
  apply (memberHead_reads (ih.declarator false (by omega))).bind
  rintro ⟨name, type⟩ k hk -
  refine (expressionBehind?_reads (by decide)).bind ?_
  intro width m hm _
  apply (skipAttributes_reads (by omega) (Nat.succ_le_succ ih.le)).bind
  intro _ j hj _
  have hs' := hs.addMember name type width
  refine .ite_accept (by decide) ?_ ?_
  · intro i hi
    refine (ih.memberDeclarators _ (by omega) hs').mono ?_
    rintro s l - ⟨hl, hs⟩
    exact ⟨by omega, hs⟩
  · refine ((expect_reads (by decide) _).opened rfl).map ?_
    rintro - i - ⟨hi, -⟩
    exact ⟨by omega, hs'⟩

theorem specifiers_reads (ih : AllRead steps more)
    (hn : 4 * n + 3 ≤ steps + 1) :
    Reads false n (specifiers (steps + 1)) (specifiers (more + 1))
      fun s _ => s.tag.Consistent := by
  unfold specifiers
  have hempty : SpecifierWords.empty.tag.Consistent := trivial
  apply (ih.specifierWords (by omega) hempty).bind
  intro words k _ hwords
  cases hspecifiers : words.specifiers? with
  | none => exact unexpected_reads _ _
  | some specifiers =>
    rw [← SpecifierWords.tag_of_specifiers? hspecifiers] at hwords
    exact pure_reads hwords

theorem declarator_reads (ih : AllRead steps more) (abstract : Bool)
    (hn : 4 * n + 3 ≤ steps + 1) :
    Reads false n (declarator (steps + 1) abstract) (declarator (more + 1) abstract)
      fun _ _ => True := by
  unfold declarator
  apply (pointers_reads (by omega) (Nat.succ_le_succ ih.le) 0).bind
  intro count k hk _
  refine (declaratorHead_reads ?_).bind ?_
  · intro m hm
    exact ih.declarator abstract (by omega)
  · intro inner m hm _
    exact (ih.declaratorSuffixes inner.ops (by omega)).map fun _ _ _ _ => trivial

theorem declaratorSuffixes_reads (ih : AllRead steps more)
    (ops : List DeclaratorOp) (hn : 4 * n + 2 ≤ steps + 1) :
    Reads false n (declaratorSuffixes (steps + 1) ops) (declaratorSuffixes (more + 1) ops)
      fun _ _ => True := by
  unfold declaratorSuffixes
  apply token_reads.bind
  rintro t k - ⟨rfl, hpos⟩
  cases t with
  | openBracket =>
    apply group_reads.bind
    intro inner m _ hm
    exact ih.declaratorSuffixes _ (by omega)
  | openParen =>
    apply (modifyKind_reads fun kind => if kind = .variable then .function else kind).look
    intro _
    apply (ih.parameters (by omega) (hpos nofun)).bind
    intro params m _ hm
    exact ih.declaratorSuffixes _ (by omega)
  | _ => exact pure_reads trivial

theorem parameters_reads (ih : AllRead steps more) (hn : 4 * n + 1 ≤ steps + 1)
    (hpos : 0 < n) :
    Reads false n (parameters (steps + 1)) (parameters (more + 1)) fun _ k => k < n := by
  unfold parameters
  apply advance_reads.bind
  intro _ k _ hk
  refine .ite_accept (by decide) ?_ ?_
  · intro m hm
    exact pure_reads (by omega)
  refine .ite_ahead foreseeing_endsVoid ?_ ?_
  · intro _
    apply advance_reads.bind
    intro _ m hm _
    refine advance_reads.map ?_
    intro _ j hj _
    omega
  · refine (ih.parameterList _ (by omega)).mono ?_
    intro _ m hm _
    omega

theorem parameterList_reads (ih : AllRead steps more) (params : List Param)
    (hn : 4 * n + 4 ≤ steps + 1) :
    Reads false n (parameterList (steps + 1) params) (parameterList (more + 1) params)
      fun _ _ => True := by
  unfold parameterList
  refine .ite_accept (by decide) ?_ ?_
  · intro k _
    exact ((expect_reads (by decide) _).opened rfl).map fun _ _ _ _ => trivial
  apply (ih.specifiers (by omega)).bind
  intro specifiers k hk _
  apply (ih.declarator true (by omega)).bind
  intro declarator m hm _
  apply (resolved_reads _).look
  intro declared
  apply (skipAttributes_reads (by omega) (Nat.succ_le_succ ih.le)).bind
  intro _ j hj _
  refine .ite_accept (by decide) ?_ ?_
  · intro i hi
    exact ih.parameterList _ (by omega)
  · exact ((expect_reads (by decide) _).opened rfl).map fun _ _ _ _ => trivial

end

/-- All readers of declarations take lexemes off the front and do not look past the end. -/
theorem allRead {steps more : Nat} (h : steps ≤ more) : AllRead steps more := by
  induction steps generalizing more with
  | zero => constructor <;> intros <;> omega
  | succ steps ih =>
    obtain ⟨more, rfl⟩ := Nat.exists_eq_add_of_le' (Nat.one_le_of_lt h)
    have ih' : AllRead steps more := ih (Nat.le_of_succ_le_succ h)
    exact {
      le := h
      specifierWords := specifierWords_reads ih'
      tagSpecifier := tagSpecifier_reads ih'
      members := members_reads ih'
      member := member_reads ih'
      memberDeclarators := memberDeclarators_reads ih'
      specifiers := specifiers_reads ih'
      declarator := declarator_reads ih'
      declaratorSuffixes := declaratorSuffixes_reads ih'
      parameters := parameters_reads ih'
      parameterList := parameterList_reads ih' }

end Reader

end RemoteCalls
