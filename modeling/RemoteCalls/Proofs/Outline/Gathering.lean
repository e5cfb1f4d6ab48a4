import RemoteCalls.Proofs.Outline.Statements

/-!
# Gathering declarations with the notes of their bodies

Readers pass structures on to each other. Wherever in a file a reader is, each structure that it
gathers has the notes of its body, and so has each declaration at file scope in the end.
-/

namespace RemoteCalls

namespace Reader

variable {α β : Type} {setting : Setting} {lexemes : List Lexeme}

/-! ### The readers that all others are built from -/

/-- A reader inside of some lexemes whose structures have the notes of their bodies there. -/
structure Within (setting : Setting) (lexemes : List Lexeme) (cursor : Cursor) : Prop where
  rest : cursor.rest <:+ lexemes
  tags : ∀ s ∈ cursor.tags, s.Annotated setting lexemes

/-- A reader that stays inside of some lexemes and gathers only structures with the notes of their
bodies there. Its result satisfies `Q`. -/
def Gathers (setting : Setting) (lexemes : List Lexeme) (m : Reader α) (Q : α → Prop) : Prop :=
  ∀ cursor a next, Within setting lexemes cursor → m setting cursor = .ok (a, next) →
    Within setting lexemes next ∧ Q a

namespace Gathers

variable {m : Reader α} {Q : α → Prop}

/-- Two readers in a row. -/
theorem bind {f : α → Reader β} {R : β → Prop} (h : Gathers setting lexemes m Q)
    (hnext : ∀ a, Q a → Gathers setting lexemes (f a) R) : Gathers setting lexemes (m >>= f) R := by
  intro cursor b last hcursor hrun
  obtain ⟨a, next, hfirst, hrest⟩ := bind_eq_ok.mp hrun
  obtain ⟨hwithin, hQ⟩ := h cursor a next hcursor hfirst
  exact hnext a hQ next b last hwithin hrest

/-- A reader that takes some lexemes off the front wherever it is, and gathers nothing. -/
theorem of_suffix (result : Cursor → α) (next : Cursor → Cursor)
    (hrun : ∀ cursor, m setting cursor = .ok (result cursor, next cursor))
    (hnext : ∀ cursor, (next cursor).rest <:+ cursor.rest)
    (htags : ∀ cursor, (next cursor).tags = cursor.tags) (hQ : ∀ cursor, Q (result cursor)) :
    Gathers setting lexemes m Q := by
  intro cursor a last hcursor hlast
  rw [hrun] at hlast
  cases hlast
  refine ⟨⟨(hnext cursor).trans hcursor.rest, ?_⟩, hQ cursor⟩
  rw [htags]
  exact hcursor.tags

/-- A reader that has no result. -/
theorem of_error (failure : Cursor → Failure)
    (hrun : ∀ cursor, m setting cursor = .error (failure cursor)) :
    Gathers setting lexemes m Q := by
  intro cursor a last _ hlast
  rw [hrun] at hlast
  cases hlast

theorem ite {c : Prop} [Decidable c] {yes no : Reader α}
    (hyes : c → Gathers setting lexemes yes Q) (hno : ¬ c → Gathers setting lexemes no Q) :
    Gathers setting lexemes (if c then yes else no) Q := by
  by_cases h : c
  · rw [if_pos h]
    exact hyes h
  · rw [if_neg h]
    exact hno h

theorem discard (h : Gathers setting lexemes m Q) :
    Gathers setting lexemes (Functor.discard m) fun _ => True := by
  rw [discard_eq]
  exact h.bind fun _ _ => of_suffix (fun _ => ()) id (fun _ => rfl) (fun _ => List.suffix_refl _)
    (fun _ => rfl) fun _ => trivial

end Gathers

theorem pure_gathers {a : α} {Q : α → Prop} (h : Q a) : Gathers setting lexemes (pure a) Q :=
  .of_suffix (fun _ => a) id (fun _ => rfl) (fun _ => List.suffix_refl _) (fun _ => rfl) fun _ => h

theorem outOfSteps_gathers {Q : α → Prop} :
    Gathers setting lexemes (throw .outOfSteps : Reader α) Q :=
  .of_error (fun _ => .outOfSteps) fun _ => rfl

theorem malformed_gathers (reason : Reason) {Q : α → Prop} :
    Gathers setting lexemes (malformed reason : Reader α) Q :=
  .of_error _ fun _ => rfl

theorem unexpected_gathers (what : Expectation) {Q : α → Prop} :
    Gathers setting lexemes (unexpected what : Reader α) Q :=
  .of_error _ fun _ => rfl

theorem fatal_gathers (position : Position) (reason : Reason) {Q : α → Prop} :
    Gathers setting lexemes (fatal position reason : Reader α) Q :=
  .of_error _ fun _ => rfl

/-- A reader that only looks. -/
theorem look_gathers {m : Reader α} (look : Cursor → α)
    (hm : ∀ cursor, m setting cursor = .ok (look cursor, cursor)) :
    Gathers setting lexemes m fun _ => True :=
  .of_suffix look id hm (fun _ => List.suffix_refl _) (fun _ => rfl) fun _ => trivial

theorem token_gathers : Gathers setting lexemes token fun _ => True :=
  look_gathers _ fun _ => rfl

theorem placeAt_gathers (p : Position) : Gathers setting lexemes (placeAt p) fun _ => True :=
  look_gathers _ fun _ => rfl

theorem origin_gathers : Gathers setting lexemes origin fun _ => True :=
  look_gathers _ fun _ => rfl

theorem noteRules_gathers : Gathers setting lexemes noteRules fun _ => True :=
  look_gathers _ fun _ => rfl

theorem ahead_gathers (look : Token → Token → Bool) :
    Gathers setting lexemes (ahead look) fun _ => True :=
  look_gathers _ fun _ => rfl

theorem advance_gathers : Gathers setting lexemes advance fun _ => True :=
  .of_suffix (fun _ => ()) (fun cursor => { cursor with rest := cursor.rest.tail })
    (fun _ => rfl) (fun _ => List.tail_suffix _) (fun _ => rfl) fun _ => trivial

theorem modifyKind_gathers (f : DeclKind → DeclKind) :
    Gathers setting lexemes (modify fun cursor => { cursor with kind := f cursor.kind })
      fun _ => True :=
  .of_suffix (fun _ => ()) (fun cursor => { cursor with kind := f cursor.kind })
    (fun _ => rfl) (fun _ => List.suffix_refl _) (fun _ => rfl) fun _ => trivial

theorem skipQualifiers_gathers : Gathers setting lexemes skipQualifiers fun _ => True :=
  .of_suffix (fun _ => ()) (fun cursor => { cursor with rest := cursor.rest.dropWhile _ })
    (fun _ => rfl) (fun _ => List.dropWhile_suffix _) (fun _ => rfl) fun _ => trivial

theorem accept_gathers (wanted : Token) :
    Gathers setting lexemes (accept wanted) fun _ => True := by
  unfold accept
  refine token_gathers.bind fun t _ => .ite (fun _ => ?_) fun _ => pure_gathers trivial
  exact advance_gathers.bind fun _ _ => pure_gathers trivial

theorem expect_gathers (wanted : Token) (what : Expectation) :
    Gathers setting lexemes (expect wanted what) fun _ => True := by
  unfold expect
  refine (accept_gathers wanted).bind fun taken _ => ?_
  exact .ite (fun _ => pure_gathers trivial) fun _ => unexpected_gathers what

theorem group_gathers : Gathers setting lexemes group fun _ => True := by
  intro cursor inner next hcursor hrun
  obtain ⟨behind, hsplit, rfl⟩ := group_eq_ok hrun
  obtain ⟨closer, -, hrow⟩ := Lexeme.splitGroup_eq_some hsplit
  refine ⟨⟨?_, hcursor.tags⟩, trivial⟩
  refine List.IsSuffix.trans ⟨inner ++ [closer], ?_⟩ ((List.tail_suffix _).trans hcursor.rest)
  rw [hrow, List.append_assoc, List.singleton_append]

theorem expression_gathers : Gathers setting lexemes expression fun _ => True := by
  intro cursor a next hcursor hrun
  obtain ⟨inner, behind, hsplit, -, -, rfl⟩ := expression_eq_ok hrun
  have hrow := Lexeme.splitExpression_eq_ok hsplit
  exact ⟨⟨List.IsSuffix.trans ⟨inner, hrow.symm⟩ hcursor.rest, hcursor.tags⟩, trivial⟩

theorem expressionBehind?_gathers (mark : Token) :
    Gathers setting lexemes (expressionBehind? mark) fun _ => True := by
  unfold expressionBehind?
  refine (accept_gathers mark).bind fun taken _ => .ite (fun _ => ?_) fun _ => pure_gathers trivial
  exact expression_gathers.bind fun _ _ => pure_gathers trivial

theorem name?_gathers : Gathers setting lexemes name? fun _ => True := by
  unfold name?
  refine token_gathers.bind fun t _ => ?_
  cases t with
  | identifier name => exact advance_gathers.bind fun _ _ => pure_gathers trivial
  | _ => exact pure_gathers trivial

theorem skipAttribute_gathers : Gathers setting lexemes skipAttribute fun _ => True := by
  unfold skipAttribute
  refine advance_gathers.bind fun _ _ => token_gathers.bind fun t _ => ?_
  exact .ite (fun _ => group_gathers.discard) fun _ => pure_gathers trivial

theorem skipAttributes_gathers (steps : Nat) :
    Gathers setting lexemes (skipAttributes steps) fun _ => True := by
  induction steps with
  | zero => exact outOfSteps_gathers
  | succ steps ih =>
    unfold skipAttributes
    refine token_gathers.bind fun t _ => .ite (fun _ => ?_) fun _ => pure_gathers trivial
    exact skipAttribute_gathers.bind fun _ _ => ih

theorem pointers_gathers (steps count : Nat) :
    Gathers setting lexemes (pointers steps count) fun _ => True := by
  induction steps generalizing count with
  | zero => exact outOfSteps_gathers
  | succ steps ih =>
    unfold pointers
    refine (accept_gathers .star).bind fun taken _ => .ite ?_ fun _ => pure_gathers trivial
    intro _
    refine skipQualifiers_gathers.bind fun _ _ => ?_
    exact (skipAttributes_gathers (steps + 1)).bind fun _ _ => ih (count + 1)

theorem marker_gathers :
    Gathers setting lexemes marker fun note => ∀ a ∈ note, a.WrittenIn lexemes := by
  have hnote : Gathers setting lexemes markerNote fun _ => True := by
    unfold markerNote
    refine token_gathers.bind fun t _ => (ahead_gathers beginsCall).bind fun call _ => .ite ?_ ?_
    · intro _
      exact advance_gathers.bind fun _ _ => group_gathers.bind fun _ _ => pure_gathers trivial
    · intro _
      exact advance_gathers.bind fun _ _ => pure_gathers trivial
  have hmarker : Gathers setting lexemes marker fun _ => True := by
    unfold marker endStatement
    refine hnote.bind fun note _ => ?_
    exact (accept_gathers .semicolon).discard.bind fun _ _ => pure_gathers trivial
  intro cursor note next hcursor hrun
  refine ⟨(hmarker cursor note next hcursor hrun).1, ?_⟩
  rintro a rfl
  exact (writtenIn_of_marker hrun).mono hcursor.rest.isInfix

theorem tagName_gathers (steps : Nat) : Gathers setting lexemes (tagName steps) fun _ => True := by
  unfold tagName
  refine (skipAttributes_gathers steps).bind fun _ _ => name?_gathers.bind fun name _ => ?_
  exact (skipAttributes_gathers steps).bind fun _ _ => pure_gathers trivial

theorem resolved_gathers (result : Except DeclaratorFault α) :
    Gathers setting lexemes (resolved result) fun _ => True := by
  cases result with
  | ok a => exact pure_gathers trivial
  | error fault => exact malformed_gathers _

theorem memberHead_gathers {base : CType} {declarator : Reader Declarator}
    (h : Gathers setting lexemes declarator fun _ => True) :
    Gathers setting lexemes (memberHead base declarator) fun _ => True := by
  unfold memberHead
  refine token_gathers.bind fun t _ => .ite (fun _ => pure_gathers trivial) fun _ => ?_
  refine h.bind fun declarator _ => (resolved_gathers _).bind fun meaning _ => ?_
  cases meaning with
  | object type => exact pure_gathers trivial
  | function result params => exact malformed_gathers _

theorem nameless_gathers (abstract : Bool) :
    Gathers setting lexemes (nameless abstract) fun _ => True := by
  unfold nameless
  exact .ite (fun _ => pure_gathers trivial) fun _ => unexpected_gathers _

theorem declaratorHead_gathers {abstract : Bool} {nested : Reader Declarator}
    (h : Gathers setting lexemes nested fun _ => True) :
    Gathers setting lexemes (declaratorHead abstract nested) fun _ => True := by
  unfold declaratorHead
  refine (ahead_gathers _).bind fun isNested _ => .ite ?_ ?_
  · intro _
    refine advance_gathers.bind fun _ _ => h.bind fun inner _ => ?_
    exact (expect_gathers .closeParen _).bind fun _ _ => pure_gathers trivial
  · intro _
    refine token_gathers.bind fun t _ => ?_
    cases t with
    | identifier name =>
      refine .ite (fun _ => nameless_gathers abstract) fun _ => ?_
      exact advance_gathers.bind fun _ _ => pure_gathers trivial
    | _ => exact nameless_gathers abstract

/-! ### The readers that call each other -/

/-- All readers of declarators gather only structures with the notes of their bodies, in any number
of steps. -/
structure AllGather (setting : Setting) (lexemes : List Lexeme) (steps : Nat) : Prop where
  specifierWords : ∀ {s : SpecifierWords}, s.tag.Annotated setting lexemes →
    Gathers setting lexemes (specifierWords steps s) fun s => s.tag.Annotated setting lexemes
  tagSpecifier : Gathers setting lexemes (tagSpecifier steps) fun r => r.2.Annotated setting lexemes
  members : ∀ (opened : Position) {s : Structure}, (∀ a ∈ s.notes, a.WrittenIn lexemes) →
    Gathers setting lexemes (members steps opened s) fun s => ∀ a ∈ s.notes, a.WrittenIn lexemes
  member : ∀ s : Structure, Gathers setting lexemes (member steps s) fun _ => True
  memberDeclarators : ∀ (base : CType) (s : Structure),
    Gathers setting lexemes (memberDeclarators steps base s) fun _ => True
  specifiers : Gathers setting lexemes (specifiers steps) fun s => s.tag.Annotated setting lexemes
  declarator : ∀ abstract : Bool, Gathers setting lexemes (declarator steps abstract) fun _ => True
  declaratorSuffixes : ∀ ops : List DeclaratorOp,
    Gathers setting lexemes (declaratorSuffixes steps ops) fun _ => True
  parameters : Gathers setting lexemes (parameters steps) fun _ => True
  parameterList : ∀ params : List Param,
    Gathers setting lexemes (parameterList steps params) fun _ => True

section

variable {steps : Nat}

theorem specifierWords_gathers (ih : AllGather setting lexemes steps) {s : SpecifierWords}
    (hs : s.tag.Annotated setting lexemes) :
    Gathers setting lexemes (specifierWords (steps + 1) s)
      fun s => s.tag.Annotated setting lexemes := by
  unfold specifierWords
  refine token_gathers.bind fun t _ => ?_
  have hword : ∀ {s' : SpecifierWords}, s'.tag.Annotated setting lexemes →
      Gathers setting lexemes (do advance; specifierWords steps s')
        fun s => s.tag.Annotated setting lexemes :=
    fun hs' => advance_gathers.bind fun _ _ => ih.specifierWords hs'
  have htag : Gathers setting lexemes
      (if s.hasType then malformed .twoTypes
        else do
          let r ← tagSpecifier steps
          specifierWords steps { s with base := some r.1, tag := r.2 })
      fun s => s.tag.Annotated setting lexemes := by
    refine .ite (fun _ => malformed_gathers _) fun _ => ?_
    exact ih.tagSpecifier.bind fun r hr => ih.specifierWords hr
  have hstorage : ∀ word, (s.addStorage word).tag.Annotated setting lexemes := fun _ => hs
  have hqualifier : ∀ word, (s.addQualifier word).tag.Annotated setting lexemes := by
    intro word
    unfold SpecifierWords.addQualifier
    repeat' split
    all_goals exact hs
  cases t with
  | storage word => exact hword (hstorage word)
  | qualifier word => exact hword (hqualifier word)
  | typedef => exact hword hs
  | builtin word => exact .ite (fun _ => malformed_gathers _) fun _ => hword hs
  | struct => exact htag
  | union => exact htag
  | enum => exact htag
  | identifier word =>
    refine .ite ?_ ?_
    · intro _
      exact skipAttribute_gathers.bind fun _ _ => ih.specifierWords hs
    · intro _
      exact .ite (fun _ => hword hs) fun _ => .ite (fun _ => pure_gathers hs) fun _ => hword hs
  | _ => exact pure_gathers hs

/-- The structure that is read behind its keyword and tag has the notes of its body. -/
theorem structureBody_gathers (ih : AllGather setting lexemes steps) {tag : String}
    {keyword : Lexeme} {count : Nat} {name : Option String} {cursor next last : Cursor}
    {s : Structure} (hlexemes : keyword :: cursor.rest <:+ lexemes)
    (hkeyword : keyword.token = .struct)
    (htag : tagName count setting cursor = .ok (name, next)) (hnext : Within setting lexemes next)
    (hbrace : headToken next.rest = .openBrace)
    (hrun : structureBody keyword.position tag (members steps) setting next = .ok (s, last)) :
    Within setting lexemes last ∧ s.Annotated setting lexemes := by
  unfold structureBody at hrun
  obtain ⟨_, _, hkind, hrun⟩ := bind_eq_ok.mp hrun
  cases hkind
  obtain ⟨_, _, hstruct, hrun⟩ := bind_eq_ok.mp hrun
  cases hstruct
  obtain ⟨opened, _, hposition, hrun⟩ := bind_eq_ok.mp hrun
  cases hposition
  obtain ⟨_, _, hadvance, hrun⟩ := bind_eq_ok.mp hrun
  cases hadvance
  obtain ⟨place, _, hplace, hrun⟩ := bind_eq_ok.mp hrun
  cases hplace
  obtain ⟨origin, _, horigin, hrun⟩ := bind_eq_ok.mp hrun
  cases horigin
  obtain ⟨s', behind, hread, hrun⟩ := bind_eq_ok.mp hrun
  obtain ⟨_, _, hkind, hrun⟩ := bind_eq_ok.mp hrun
  cases hkind
  cases hrun
  have hinside : Within setting lexemes ⟨next.rest.tail, .struct, next.tags⟩ :=
    ⟨(List.tail_suffix _).trans hnext.rest, hnext.tags⟩
  obtain ⟨hbehind, hwritten⟩ :=
    ih.members _ (fun a ha => absurd ha List.not_mem_nil) _ _ _ hinside hread
  obtain ⟨notes, hmembers, hnotes, hplace, hdefined, -⟩ := members_eq_ok hread
  exact ⟨⟨hbehind.rest, hbehind.tags⟩, notes,
    .intro hdefined hlexemes hkeyword hplace htag hbrace hmembers, hnotes, hwritten⟩

theorem defineTag_gathers (name : Option String) {s : Structure}
    (hs : s.Annotated setting lexemes) :
    Gathers setting lexemes (defineTag name s) fun tag => tag.Annotated setting lexemes := by
  unfold defineTag
  refine .ite ?_ fun _ => pure_gathers hs
  intro _ cursor tag next hcursor hrun
  cases hrun
  refine ⟨⟨hcursor.rest, ?_⟩, trivial⟩
  intro other hother
  rcases List.mem_append.mp hother with hold | hnew
  · exact hcursor.tags other hold
  · rw [List.mem_singleton.mp hnew]
    exact hs

theorem tagSpecifier_gathers (ih : AllGather setting lexemes steps) :
    Gathers setting lexemes (tagSpecifier (steps + 1)) fun r => r.2.Annotated setting lexemes := by
  intro cursor r last hcursor hrun
  unfold tagSpecifier at hrun
  obtain ⟨start, _, hstart, hrun⟩ := bind_eq_ok.mp hrun
  cases hstart
  obtain ⟨keyword, _, hkeyword, hrun⟩ := bind_eq_ok.mp hrun
  cases hkeyword
  obtain ⟨_, _, hadvance, hrun⟩ := bind_eq_ok.mp hrun
  cases hadvance
  obtain ⟨name, next, htag, hrun⟩ := bind_eq_ok.mp hrun
  have hbehind : Within setting lexemes ⟨cursor.rest.tail, cursor.kind, cursor.tags⟩ :=
    ⟨(List.tail_suffix _).trans hcursor.rest, hcursor.tags⟩
  obtain ⟨hnext, -⟩ := tagName_gathers _ _ _ _ hbehind htag
  obtain ⟨t, _, htoken, hrun⟩ := bind_eq_ok.mp hrun
  cases htoken
  split at hrun
  · next hbrace =>
    split at hrun
    · next hstruct =>
      obtain ⟨s, behind, hbody, hrun⟩ := bind_eq_ok.mp hrun
      obtain ⟨_ | ⟨keyword, rest⟩, kind, tags⟩ := cursor
      · cases hstruct
      obtain ⟨hwithin, hs⟩ :=
        structureBody_gathers ih hcursor.rest hstruct htag hnext hbrace hbody
      have hdefine : Gathers setting lexemes
          (do return (Base.ofTag keyword.token (name.getD Structure.anonymousTag),
            ← defineTag name s)) fun r => r.2.Annotated setting lexemes :=
        (defineTag_gathers name hs).bind fun _ htag => pure_gathers htag
      exact hdefine _ _ _ hwithin hrun
    · have hskip : Gathers setting lexemes
          (do
            discard group
            return (Base.ofTag (headToken cursor.rest) (name.getD Structure.anonymousTag),
              TagUse.other)) fun r => r.2.Annotated setting lexemes :=
        group_gathers.discard.bind fun _ _ => pure_gathers trivial
      exact hskip _ _ _ hnext hrun
  · cases name with
    | none => cases hrun
    | some name =>
      cases hrun
      refine ⟨hnext, ?_⟩
      dsimp only
      split <;> trivial

theorem members_gathers (ih : AllGather setting lexemes steps) (opened : Position)
    {s : Structure} (hs : ∀ a ∈ s.notes, a.WrittenIn lexemes) :
    Gathers setting lexemes (members (steps + 1) opened s)
      fun s => ∀ a ∈ s.notes, a.WrittenIn lexemes := by
  have hmember : Gathers setting lexemes (member steps s)
      fun t => ∀ a ∈ t.notes, a.WrittenIn lexemes := by
    intro cursor t next hcursor hrun
    refine ⟨(ih.member s cursor t next hcursor hrun).1, ?_⟩
    obtain ⟨fields, rfl⟩ := eq_of_member hrun
    exact hs
  unfold members
  refine (accept_gathers .closeBrace).bind fun closed _ => .ite (fun _ => pure_gathers hs) ?_
  intro _
  refine token_gathers.bind fun t _ => .ite (fun _ => fatal_gathers _ _) fun _ => ?_
  refine (accept_gathers .semicolon).bind fun ended _ => .ite (fun _ => ih.members opened hs) ?_
  intro _
  unfold atMarker
  rw [bind_assoc]
  refine noteRules_gathers.bind fun rules _ => (ahead_gathers _).bind fun isMarker _ => .ite ?_ ?_
  · intro _
    refine marker_gathers.bind fun note hnote => ih.members opened fun a ha => ?_
    rcases Note.mem_union.mp ha with ha | ha
    · exact hs a ha
    · exact hnote a (Option.mem_toList.mp ha)
  · intro _
    exact hmember.bind fun t ht => ih.members opened ht

theorem member_gathers (ih : AllGather setting lexemes steps) (s : Structure) :
    Gathers setting lexemes (member (steps + 1) s) fun _ => True := by
  unfold member
  refine ih.specifiers.bind fun specifiers _ => (accept_gathers .semicolon).bind fun ended _ => ?_
  refine .ite (fun _ => ?_) fun _ => ih.memberDeclarators _ s
  cases specifiers.tag with
  | _ => exact pure_gathers trivial

theorem memberDeclarators_gathers (ih : AllGather setting lexemes steps) (base : CType)
    (s : Structure) :
    Gathers setting lexemes (memberDeclarators (steps + 1) base s) fun _ => True := by
  unfold memberDeclarators
  refine (memberHead_gathers (ih.declarator false)).bind fun head _ => ?_
  refine (expressionBehind?_gathers .colon).bind fun width _ => ?_
  refine (skipAttributes_gathers (steps + 1)).bind fun _ _ => ?_
  refine (accept_gathers .comma).bind fun more _ => .ite (fun _ => ih.memberDeclarators base _) ?_
  intro _
  exact (expect_gathers .semicolon _).bind fun _ _ => pure_gathers trivial

theorem specifiers_gathers (ih : AllGather setting lexemes steps) :
    Gathers setting lexemes (specifiers (steps + 1)) fun s => s.tag.Annotated setting lexemes := by
  have hempty : SpecifierWords.empty.tag.Annotated setting lexemes := trivial
  unfold specifiers
  refine (ih.specifierWords hempty).bind fun words hwords => ?_
  cases hspecifiers : words.specifiers? with
  | none => exact unexpected_gathers _
  | some specifiers =>
    rw [← SpecifierWords.tag_of_specifiers? hspecifiers] at hwords
    exact pure_gathers hwords

theorem declarator_gathers (ih : AllGather setting lexemes steps) (abstract : Bool) :
    Gathers setting lexemes (declarator (steps + 1) abstract) fun _ => True := by
  unfold declarator
  refine (pointers_gathers (steps + 1) 0).bind fun count _ => ?_
  refine (declaratorHead_gathers (ih.declarator abstract)).bind fun inner _ => ?_
  exact (ih.declaratorSuffixes inner.ops).bind fun ops _ => pure_gathers trivial

theorem declaratorSuffixes_gathers (ih : AllGather setting lexemes steps)
    (ops : List DeclaratorOp) :
    Gathers setting lexemes (declaratorSuffixes (steps + 1) ops) fun _ => True := by
  unfold declaratorSuffixes
  refine token_gathers.bind fun t _ => ?_
  cases t with
  | openBracket => exact group_gathers.bind fun inner _ => ih.declaratorSuffixes _
  | openParen =>
    refine (modifyKind_gathers fun kind => if kind = .variable then .function else kind).bind ?_
    intro _ _
    exact ih.parameters.bind fun params _ => ih.declaratorSuffixes _
  | _ => exact pure_gathers trivial

theorem parameters_gathers (ih : AllGather setting lexemes steps) :
    Gathers setting lexemes (parameters (steps + 1)) fun _ => True := by
  unfold parameters
  refine advance_gathers.bind fun _ _ => (accept_gathers .closeParen).bind fun closed _ => ?_
  refine .ite (fun _ => pure_gathers trivial) fun _ => ?_
  refine (ahead_gathers endsVoid).bind fun isVoid _ => .ite ?_ fun _ => ih.parameterList []
  intro _
  exact advance_gathers.bind fun _ _ => advance_gathers.bind fun _ _ => pure_gathers trivial

theorem parameterList_gathers (ih : AllGather setting lexemes steps) (params : List Param) :
    Gathers setting lexemes (parameterList (steps + 1) params) fun _ => True := by
  unfold parameterList
  refine (accept_gathers .ellipsis).bind fun variadic _ => .ite ?_ ?_
  · intro _
    exact (expect_gathers .closeParen _).bind fun _ _ => pure_gathers trivial
  · intro _
    refine ih.specifiers.bind fun specifiers _ => (ih.declarator true).bind fun declarator _ => ?_
    refine (resolved_gathers _).bind fun declared _ => ?_
    refine (skipAttributes_gathers (steps + 1)).bind fun _ _ => ?_
    refine (accept_gathers .comma).bind fun more _ => .ite (fun _ => ih.parameterList _) ?_
    intro _
    exact (expect_gathers .closeParen _).bind fun _ _ => pure_gathers trivial

end

/-- Each reader goes down one step to the others, so that one induction on the steps covers them
all. -/
theorem allGather (setting : Setting) (lexemes : List Lexeme) (steps : Nat) :
    AllGather setting lexemes steps := by
  induction steps with
  | zero =>
    constructor <;> intros <;> exact outOfSteps_gathers
  | succ steps ih =>
    exact {
      specifierWords := specifierWords_gathers ih
      tagSpecifier := tagSpecifier_gathers ih
      members := members_gathers ih
      member := member_gathers ih
      memberDeclarators := memberDeclarators_gathers ih
      specifiers := specifiers_gathers ih
      declarator := declarator_gathers ih
      declaratorSuffixes := declaratorSuffixes_gathers ih
      parameters := parameters_gathers ih
      parameterList := parameterList_gathers ih }

end Reader

namespace Declaration

variable {setting : Setting} {lexemes : List Lexeme}

/-- A declaration has the notes of its body, each once, and they are written there. -/
def Annotated (setting : Setting) (lexemes behind : List Lexeme) (d : Declaration) : Prop :=
  ∃ notes, d.BodyNotes setting lexemes behind notes ∧ d.notes = Note.union [] notes ∧
    ∀ a ∈ d.notes, a.WrittenIn lexemes

/-- A declaration without a body has no notes. -/
theorem annotated_of_nil {d : Declaration} {behind : List Lexeme}
    (h : d.BodyNotes setting lexemes behind []) (hnotes : d.notes = []) :
    d.Annotated setting lexemes behind := by
  refine ⟨[], h, hnotes, ?_⟩
  rw [hnotes]
  exact fun a ha => absurd ha List.not_mem_nil

/-- Declarations without a function body have the notes of their bodies, wherever they end. -/
def AllAnnotated (setting : Setting) (lexemes : List Lexeme) (ds : List Declaration) : Prop :=
  ∀ d ∈ ds, ∀ behind, d.Annotated setting lexemes behind

theorem AllAnnotated.append {ds more : List Declaration} (h : AllAnnotated setting lexemes ds)
    (hmore : AllAnnotated setting lexemes more) : AllAnnotated setting lexemes (ds ++ more) := by
  intro d hd
  rcases List.mem_append.mp hd with hd | hd
  · exact h d hd
  · exact hmore d hd

theorem allAnnotated_singleton {d : Declaration}
    (h : ∀ behind, d.Annotated setting lexemes behind) : AllAnnotated setting lexemes [d] := by
  intro other hother
  rw [List.mem_singleton.mp hother]
  exact h

theorem allAnnotated_structs {tags : List Structure} (h : ∀ s ∈ tags, s.Annotated setting lexemes) :
    AllAnnotated setting lexemes (tags.map .struct) := by
  intro d hd behind
  obtain ⟨s, hs, rfl⟩ := List.mem_map.mp hd
  obtain ⟨notes, hbody, hnotes, hwritten⟩ := h s hs
  exact ⟨notes, .struct hbody, hnotes, hwritten⟩

end Declaration

namespace Reader

open Declaration (AllAnnotated allAnnotated_singleton allAnnotated_structs annotated_of_nil)

variable {setting : Setting} {lexemes : List Lexeme}

/-- A declarator declares something without a body. -/
theorem declared_gathers (steps : Nat) (start : Position) (specifiers : Specifiers) (name : String)
    (meaning : Declared) :
    Gathers setting lexemes (declared steps start specifiers name meaning)
      fun d => ∀ behind, d.Annotated setting lexemes behind := by
  cases meaning with
  | function result params =>
    unfold declared
    refine (placeAt_gathers start).bind fun place _ => origin_gathers.bind fun origin _ => ?_
    refine .ite (fun _ => pure_gathers fun _ => annotated_of_nil .typedef rfl) fun _ => ?_
    refine (modifyKind_gathers fun _ => .function).bind fun _ _ => ?_
    exact (skipAttributes_gathers steps).bind fun _ _ =>
      pure_gathers fun _ => annotated_of_nil (.prototype rfl) rfl
  | object type =>
    unfold declared
    refine (placeAt_gathers start).bind fun place _ => origin_gathers.bind fun origin _ => ?_
    refine (skipAttributes_gathers steps).bind fun _ _ => ?_
    refine .ite (fun _ => pure_gathers fun _ => annotated_of_nil .typedef rfl) fun _ => ?_
    exact (expressionBehind?_gathers .equals).bind fun _ _ =>
      pure_gathers fun _ => annotated_of_nil .variable rfl

/-- A structure that gets a name from a type definition keeps its notes. -/
theorem annotated_nameAnonymous {specifiers : Specifiers}
    (h : specifiers.tag.Annotated setting lexemes) (name : String) :
    (nameAnonymous name specifiers).2.tag.Annotated setting lexemes ∧
      AllAnnotated setting lexemes (nameAnonymous name specifiers).1 := by
  have hnone : AllAnnotated setting lexemes [] := nofun
  unfold nameAnonymous
  cases htag : specifiers.tag with
  | anonymous s =>
    rw [htag] at h
    cases specifiers.isTypedef with
    | true =>
      refine ⟨trivial, allAnnotated_singleton fun behind => ?_⟩
      obtain ⟨notes, hbody, hnotes, hwritten⟩ := h
      cases hbody with
      | intro hdefined hlexemes hkeyword hplace hname hbrace hmembers =>
        exact ⟨notes, .struct (.intro hdefined hlexemes hkeyword hplace hname hbrace hmembers),
          hnotes, hwritten⟩
    | false => exact ⟨trivial, hnone⟩
  | other => exact ⟨h, hnone⟩
  | reference name position => exact ⟨h, hnone⟩

/-- The body of a function ends its declaration, and the function has the notes of the body. -/
theorem annotated_define {cursor next : Cursor} {inner : List Lexeme} {d : Declaration}
    (hcursor : Within setting lexemes cursor) (hfunction : d.isFunction = true)
    (hbrace : headToken cursor.rest = .openBrace)
    (hgroup : group setting cursor = .ok (inner, next)) :
    (d.define (Note.ofBody setting.rules true 0 [] inner)).Annotated setting lexemes next.rest := by
  obtain ⟨_ | ⟨brace, rest⟩, kind, tags⟩ := cursor
  · cases hbrace
  obtain ⟨front, hfront⟩ := hcursor.rest
  obtain ⟨behind, hsplit, rfl⟩ := group_eq_ok hgroup
  rw [List.tail_cons] at hsplit
  obtain ⟨closer, hcloser, hrow⟩ := Lexeme.splitGroup_eq_some hsplit
  have hlexemes : lexemes = front ++ brace :: inner ++ closer :: behind := by
    rw [← hfront, hrow]
    simp
  cases d with
  | function f =>
    have hnotes := Note.ofBody_eq setting.rules true 0 [] inner
    refine ⟨_, .function rfl hlexemes hbrace hcloser (Lexeme.nest_of_splitGroup hsplit), hnotes,
      fun a ha => ?_⟩
    have hmem : a ∈ Note.union [] (Note.statements setting.rules true 0 inner) := hnotes ▸ ha
    have hwritten :=
      Note.writtenIn_of_mem_statements ((Note.mem_union.mp hmem).resolve_left List.not_mem_nil)
    refine hwritten.mono ⟨front ++ [brace], closer :: behind, ?_⟩
    rw [hlexemes]
    simp
  | _ => cases hfunction

/-- The declarations of some declarators have the notes of their bodies. -/
theorem annotated_of_declarators {start : Position} {steps : Nat} {specifiers : Specifiers}
    {found ds : List Declaration} {cursor last : Cursor} (hcursor : Within setting lexemes cursor)
    (htag : specifiers.tag.Annotated setting lexemes) (hfound : AllAnnotated setting lexemes found)
    (hrun : declarators start steps specifiers found setting cursor = .ok (ds, last)) :
    ∀ d ∈ ds, d.Annotated setting lexemes last.rest := by
  induction steps generalizing specifiers found cursor with
  | zero => exact nomatch hrun
  | succ steps ih =>
    unfold declarators at hrun
    obtain ⟨declarator, _, hdeclarator, hrun⟩ := bind_eq_ok.mp hrun
    obtain ⟨hcursor, -⟩ :=
      (allGather setting lexemes steps).declarator false _ _ _ hcursor hdeclarator
    cases hname : declarator.name with
    | none =>
      rw [hname] at hrun
      cases hrun
    | some name =>
      rw [hname] at hrun
      obtain ⟨hspecifiers, hnamed⟩ := annotated_nameAnonymous htag name
      obtain ⟨meaning, _, hmeaning, hrun⟩ := bind_eq_ok.mp hrun
      obtain ⟨hcursor, -⟩ := resolved_gathers _ _ _ _ hcursor hmeaning
      obtain ⟨declaration, _, hdeclared, hrun⟩ := bind_eq_ok.mp hrun
      obtain ⟨hcursor, hdeclaration⟩ := declared_gathers _ _ _ _ _ _ _ _ hcursor hdeclared
      have hfront := hfound.append hnamed
      have hall := hfront.append (allAnnotated_singleton hdeclaration)
      obtain ⟨t, _, htoken, hrun⟩ := bind_eq_ok.mp hrun
      cases htoken
      split at hrun
      · next hbody =>
        obtain ⟨rules, _, hrules, hrun⟩ := bind_eq_ok.mp hrun
        cases hrules
        obtain ⟨inner, _, hgroup, hrun⟩ := bind_eq_ok.mp hrun
        cases hrun
        intro d hd
        rcases List.mem_append.mp hd with hd | hd
        · exact hfront d hd _
        · rw [List.mem_singleton.mp hd]
          exact annotated_define hcursor hbody.1 hbody.2 hgroup
      · obtain ⟨more, _, haccept, hrun⟩ := bind_eq_ok.mp hrun
        obtain ⟨hcursor, -⟩ := accept_gathers .comma _ _ _ hcursor haccept
        cases more with
        | true => exact ih hcursor hspecifiers hall hrun
        | false =>
          obtain ⟨_, _, -, hrun⟩ := bind_eq_ok.mp hrun
          cases hrun
          exact fun d hd => hall d hd _

/-- A structure that is only named has no body. -/
theorem namedStructure?_gathers (specifiers : Specifiers) :
    Gathers setting lexemes (namedStructure? specifiers)
      fun named => AllAnnotated setting lexemes named.toList := by
  have hnone : AllAnnotated setting lexemes (none : Option Declaration).toList := nofun
  unfold namedStructure?
  cases specifiers.tag with
  | reference name position =>
    refine (placeAt_gathers position).bind fun place _ => origin_gathers.bind fun origin _ => ?_
    refine .ite (fun _ => pure_gathers hnone) fun _ => pure_gathers ?_
    exact allAnnotated_singleton fun _ => annotated_of_nil (.named rfl) rfl
  | _ => exact pure_gathers hnone

/-- What is declared at file scope has the notes of the bodies. -/
theorem annotated_of_readExternal {found : List Declaration} {cursor : Cursor}
    (h : readExternal setting lexemes = .ok (found, cursor)) :
    ∀ d ∈ found, d.Annotated setting lexemes cursor.rest := by
  have hstart : Within setting lexemes ⟨lexemes, .variable, []⟩ :=
    ⟨List.suffix_refl _, fun _ hs => absurd hs List.not_mem_nil⟩
  unfold readExternal external at h
  obtain ⟨start, _, hposition, h⟩ := bind_eq_ok.mp h
  cases hposition
  obtain ⟨specifiers, behind, hspecifiers, h⟩ := bind_eq_ok.mp h
  obtain ⟨hcursor, htag⟩ := (allGather setting lexemes _).specifiers _ _ _ hstart hspecifiers
  obtain ⟨_, _, hkind, h⟩ := bind_eq_ok.mp h
  cases hkind
  obtain ⟨tags, _, htags, h⟩ := bind_eq_ok.mp h
  cases htags
  have hgathered := hcursor.tags
  have htaken : Within setting lexemes
      ⟨behind.rest, if specifiers.isTypedef then .typedef else behind.kind, []⟩ :=
    ⟨hcursor.rest, fun _ hs => absurd hs List.not_mem_nil⟩
  obtain ⟨named, _, hread, h⟩ := bind_eq_ok.mp h
  obtain ⟨hcursor, hnamed⟩ := namedStructure?_gathers specifiers _ _ _ htaken hread
  obtain ⟨t, _, htoken, h⟩ := bind_eq_ok.mp h
  cases htoken
  split at h
  · obtain ⟨_, _, hadvance, h⟩ := bind_eq_ok.mp h
    cases h
    exact fun d hd => (allAnnotated_structs hgathered).append hnamed d hd _
  · exact annotated_of_declarators hcursor htag (allAnnotated_structs hgathered) h

end Reader

end RemoteCalls
