import RemoteCalls.Proofs.Outline.Isolation

/-!
# What is found belongs to its file

A declaration that is found in a file carries the path and the origin of that file, and if it is a
definition, its place is that of the definition. An include directive stands among the lexemes of
the file, and a report on the file never speaks of a header that it includes. Readers pass
structures on to each other, so that this is shown of what each of them finds and of what it
gathers.
-/

namespace RemoteCalls

namespace Declaration

/-- Whether the file of a declaration was given as input or included. -/
def origin : Declaration → Origin
  | function f => f.origin
  | struct s => s.origin
  | typedef t => t.origin
  | «variable» v => v.origin
  | placeholder p => p.origin

/-- Where a declaration was sighted. -/
def place : Declaration → Place
  | function f => f.place
  | struct s => s.place
  | typedef t => t.place
  | «variable» v => v.place
  | placeholder p => p.place

/-- A function or a structure that is defined is so at the place where it was sighted. -/
def DefinedInPlace : Declaration → Prop
  | function f => f.definition = if f.isDefined then some f.place else none
  | struct s => s.definition = if s.isDefined then some s.place else none
  | _ => True

/-- A declaration as it is found in a file. -/
structure FoundIn (file : Path) (origin : Origin) (d : Declaration) : Prop where
  file : d.place.file = file
  origin : d.origin = origin
  definition : d.DefinedInPlace

variable {file : Path} {source : Origin} {d : Declaration}

theorem FoundIn.annotate (h : d.FoundIn file source) (notes : List Note) :
    (d.annotate notes).FoundIn file source := by
  cases d <;> exact ⟨h.file, h.origin, h.definition⟩

theorem FoundIn.define (h : d.FoundIn file source) (notes : List Note) :
    (d.define notes).FoundIn file source := by
  cases d with
  | function f => exact ⟨h.file, h.origin, rfl⟩
  | _ => exact h

/-- Where a definition has its place there is a definition. -/
theorem DefinedInPlace.consistent (h : d.DefinedInPlace) : d.Consistent := by
  cases d with
  | function f =>
    change f.isDefined = f.definition.isSome
    change f.definition = _ at h
    rw [h]
    cases f.isDefined <;> rfl
  | struct s =>
    change s.isDefined = s.definition.isSome
    change s.definition = _ at h
    rw [h]
    cases s.isDefined <;> rfl
  | _ => trivial

end Declaration

/-- Whether a reason is one for which a header is not taken in. -/
def Reason.refusesHeader : Reason → Bool
  | includeDepth .. | unreadableHeader .. => true
  | _ => false

/-- A report on a file itself, which no header is the reason for. -/
structure Diagnostic.FoundIn (file : Path) (diagnostic : Diagnostic) : Prop where
  file : diagnostic.place.file = file
  reason : diagnostic.reason.refusesHeader = false

/-- A failure is reported on the file that is read. -/
def Failure.FoundIn (setting : Setting) : Failure → Prop
  | malformed diagnostic | fatal diagnostic => diagnostic.FoundIn setting.file
  | outOfSteps => True

/-- A structure as it is found in the file that is read. -/
abbrev Structure.FoundIn (setting : Setting) (s : Structure) : Prop :=
  (Declaration.struct s).FoundIn setting.file setting.origin

/-- The structure that a tag brings is found in the file that is read. -/
def TagUse.FoundIn (setting : Setting) : TagUse → Prop
  | .anonymous s => s.FoundIn setting
  | _ => True

theorem Structure.FoundIn.addMember {setting : Setting} {s : Structure} (hs : s.FoundIn setting)
    (name : Option String) (type : CType) (width : Option String) :
    (s.addMember name type width).FoundIn setting := by
  cases name with
  | none => exact hs
  | some name => exact ⟨hs.file, hs.origin, hs.definition⟩

namespace Reader

variable {α β : Type} {setting : Setting}

/-- A reader whose result satisfies `Q` whenever there is one, that gathers only what is found in
its file, and fails only for reasons in its file. -/
def Finds (setting : Setting) (m : Reader α) (Q : α → Prop) : Prop :=
  ∀ cursor, (∀ s ∈ cursor.tags, s.FoundIn setting) →
    match m setting cursor with
    | .ok (a, next) => (∀ s ∈ next.tags, s.FoundIn setting) ∧ Q a
    | .error failure => failure.FoundIn setting

namespace Finds

variable {m : Reader α} {Q : α → Prop}

/-- Two readers in a row. -/
theorem bind {f : α → Reader β} {R : β → Prop} (h : Finds setting m Q)
    (hnext : ∀ a, Q a → Finds setting (f a) R) : Finds setting (m >>= f) R := by
  intro cursor hcursor
  have hfirst := h cursor hcursor
  rw [bind_apply]
  cases hrun : m setting cursor with
  | error failure =>
    rw [hrun] at hfirst
    exact hfirst
  | ok result =>
    obtain ⟨a, next⟩ := result
    rw [hrun] at hfirst
    exact hnext a hfirst.2 next hfirst.1

/-- A reader that has a result wherever it is, and gathers nothing. -/
theorem of_ok (h : ∀ cursor, ∃ a next, m setting cursor = .ok (a, next) ∧
    next.tags = cursor.tags ∧ Q a) : Finds setting m Q := by
  intro cursor hcursor
  obtain ⟨a, next, hrun, htags, hQ⟩ := h cursor
  rw [hrun]
  refine ⟨?_, hQ⟩
  rw [htags]
  exact hcursor

theorem ite {c : Prop} [Decidable c] {yes no : Reader α} (hyes : c → Finds setting yes Q)
    (hno : ¬ c → Finds setting no Q) : Finds setting (if c then yes else no) Q := by
  by_cases h : c
  · rw [if_pos h]
    exact hyes h
  · rw [if_neg h]
    exact hno h

theorem discard (h : Finds setting m Q) : Finds setting (Functor.discard m) fun _ => True := by
  rw [discard_eq]
  exact h.bind fun _ _ => of_ok fun cursor => ⟨(), cursor, rfl, rfl, trivial⟩

end Finds

/-! ### The readers that all others are built from -/

theorem pure_finds {a : α} {Q : α → Prop} (h : Q a) : Finds setting (pure a) Q :=
  .of_ok fun cursor => ⟨a, cursor, rfl, rfl, h⟩

theorem token_finds : Finds setting token fun _ => True :=
  .of_ok fun cursor => ⟨headToken cursor.rest, cursor, rfl, rfl, trivial⟩

theorem position_finds : Finds setting position fun _ => True :=
  .of_ok fun cursor => ⟨headPosition setting.finish cursor.rest, cursor, rfl, rfl, trivial⟩

theorem placeAt_finds (position : Position) :
    Finds setting (placeAt position) fun place => place.file = setting.file :=
  .of_ok fun cursor => ⟨setting.place position, cursor, rfl, rfl, rfl⟩

theorem origin_finds : Finds setting origin fun origin => origin = setting.origin :=
  .of_ok fun cursor => ⟨setting.origin, cursor, rfl, rfl, rfl⟩

theorem noteRules_finds : Finds setting noteRules fun _ => True :=
  .of_ok fun cursor => ⟨setting.rules, cursor, rfl, rfl, trivial⟩

theorem kind_finds : Finds setting kind fun _ => True :=
  .of_ok fun cursor => ⟨cursor.kind, cursor, rfl, rfl, trivial⟩

theorem ahead_finds (look : Token → Token → Bool) : Finds setting (ahead look) fun _ => True :=
  .of_ok fun cursor => ⟨look (headToken cursor.rest) (headToken cursor.rest.tail), cursor, rfl, rfl,
    trivial⟩

theorem advance_finds : Finds setting advance fun _ => True :=
  .of_ok fun cursor => ⟨(), { cursor with rest := cursor.rest.tail }, rfl, rfl, trivial⟩

theorem modifyKind_finds (f : DeclKind → DeclKind) :
    Finds setting (modify fun cursor => { cursor with kind := f cursor.kind }) fun _ => True :=
  .of_ok fun cursor => ⟨(), { cursor with kind := f cursor.kind }, rfl, rfl, trivial⟩

theorem skipQualifiers_finds : Finds setting skipQualifiers fun _ => True :=
  .of_ok fun cursor => ⟨(), { cursor with rest := cursor.rest.dropWhile _ }, rfl, rfl, trivial⟩

/-- A failure in the file is one if no header is the reason for it. -/
theorem malformed_finds {reason : Reason} (h : reason.refusesHeader = false) {Q : α → Prop} :
    Finds setting (malformed reason) Q :=
  fun _ _ => ⟨rfl, h⟩

theorem unexpected_finds (what : Expectation) {Q : α → Prop} :
    Finds setting (unexpected what) Q :=
  fun _ _ => ⟨rfl, rfl⟩

theorem fatal_finds (position : Position) {reason : Reason} (h : reason.refusesHeader = false)
    {Q : α → Prop} : Finds setting (fatal position reason) Q :=
  fun _ _ => ⟨rfl, h⟩

theorem accept_finds (wanted : Token) : Finds setting (accept wanted) fun _ => True := by
  unfold accept
  apply token_finds.bind
  intro t _
  refine .ite ?_ fun _ => pure_finds trivial
  intro _
  exact advance_finds.bind fun _ _ => pure_finds trivial

theorem expect_finds (wanted : Token) (what : Expectation) :
    Finds setting (expect wanted what) fun _ => True := by
  unfold expect
  apply (accept_finds wanted).bind
  intro taken _
  exact .ite (fun _ => pure_finds trivial) fun _ => unexpected_finds what

theorem group_finds : Finds setting group fun _ => True := by
  intro cursor hcursor
  rw [group_apply]
  cases Lexeme.splitGroup 0 cursor.rest.tail with
  | none => exact ⟨rfl, rfl⟩
  | some split => exact ⟨hcursor, trivial⟩

theorem expression_finds : Finds setting expression fun _ => True := by
  intro cursor hcursor
  rw [expression_apply]
  cases Lexeme.splitExpression 0 (headPosition setting.finish cursor.rest) cursor.rest with
  | error opened => exact ⟨rfl, rfl⟩
  | ok split =>
    by_cases hempty : (Lexeme.join split.1).isEmpty = true
    · simp only [hempty, if_true]
      exact ⟨rfl, rfl⟩
    · simp only [hempty]
      exact ⟨hcursor, trivial⟩

theorem expressionBehind?_finds (mark : Token) :
    Finds setting (expressionBehind? mark) fun _ => True := by
  unfold expressionBehind?
  apply (accept_finds mark).bind
  intro taken _
  refine .ite ?_ fun _ => pure_finds trivial
  intro _
  exact expression_finds.bind fun _ _ => pure_finds trivial

theorem name?_finds : Finds setting name? fun _ => True := by
  unfold name?
  apply token_finds.bind
  intro t _
  cases t with
  | identifier name => exact advance_finds.bind fun _ _ => pure_finds trivial
  | _ => exact pure_finds trivial

theorem skipAttribute_finds : Finds setting skipAttribute fun _ => True := by
  unfold skipAttribute
  apply advance_finds.bind
  intro _ _
  apply token_finds.bind
  intro t _
  exact .ite (fun _ => group_finds.discard) fun _ => pure_finds trivial

theorem skipAttributes_finds (steps : Nat) :
    Finds setting (skipAttributes steps) fun _ => True := by
  induction steps with
  | zero => exact fun _ _ => trivial
  | succ steps ih =>
    unfold skipAttributes
    apply token_finds.bind
    intro t _
    exact .ite (fun _ => skipAttribute_finds.bind fun _ _ => ih) fun _ => pure_finds trivial

theorem pointers_finds (steps count : Nat) :
    Finds setting (pointers steps count) fun _ => True := by
  induction steps generalizing count with
  | zero => exact fun _ _ => trivial
  | succ steps ih =>
    unfold pointers
    apply (accept_finds .star).bind
    intro taken _
    refine .ite ?_ fun _ => pure_finds trivial
    intro _
    apply skipQualifiers_finds.bind
    intro _ _
    apply (skipAttributes_finds (steps + 1)).bind
    intro _ _
    exact ih (count + 1)

/-! ### Marker statements, tags and declarators -/

theorem markerNote_finds : Finds setting markerNote fun _ => True := by
  unfold markerNote
  apply token_finds.bind
  intro t _
  apply (ahead_finds beginsCall).bind
  intro call _
  refine .ite ?_ ?_
  · intro _
    apply advance_finds.bind
    intro _ _
    exact group_finds.bind fun _ _ => pure_finds trivial
  · intro _
    exact advance_finds.bind fun _ _ => pure_finds trivial

theorem endStatement_finds (a : α) : Finds setting (endStatement a) fun _ => True := by
  unfold endStatement
  exact (accept_finds .semicolon).discard.bind fun _ _ => pure_finds trivial

theorem marker_finds : Finds setting marker fun _ => True :=
  markerNote_finds.bind fun note _ => endStatement_finds note

theorem tagName_finds (steps : Nat) : Finds setting (tagName steps) fun _ => True := by
  unfold tagName
  apply (skipAttributes_finds steps).bind
  intro _ _
  apply name?_finds.bind
  intro name _
  exact (skipAttributes_finds steps).bind fun _ _ => pure_finds trivial

/-- The body of a structure makes it defined where it begins. -/
theorem structureBody_finds {start : Position} {tag : String}
    {members : Position → Structure → Reader Structure}
    (h : ∀ opened s, s.FoundIn setting →
      Finds setting (members opened s) fun s => s.FoundIn setting) :
    Finds setting (structureBody start tag members) fun s => s.FoundIn setting := by
  unfold structureBody
  apply kind_finds.bind
  intro outer _
  apply (modifyKind_finds fun _ => .struct).bind
  intro _ _
  apply position_finds.bind
  intro opened _
  apply advance_finds.bind
  intro _ _
  apply (placeAt_finds start).bind
  intro place hplace
  apply origin_finds.bind
  intro origin horigin
  have hempty : Structure.FoundIn setting ⟨tag, [], origin, place, true, some place, []⟩ :=
    ⟨hplace, horigin, rfl⟩
  apply (h opened _ hempty).bind
  intro s hs
  exact (modifyKind_finds fun _ => outer).bind fun _ _ => pure_finds hs

theorem defineTag_finds {name : Option String} {s : Structure} (hs : s.FoundIn setting) :
    Finds setting (defineTag name s) fun tag => tag.FoundIn setting := by
  unfold defineTag
  refine .ite ?_ fun _ => pure_finds hs
  intro _ cursor hcursor
  refine ⟨?_, trivial⟩
  intro other hother
  rcases List.mem_append.mp hother with hold | hnew
  · exact hcursor other hold
  · rw [List.mem_singleton.mp hnew]
    exact hs

theorem resolved_finds (result : Except DeclaratorFault α) :
    Finds setting (resolved result) fun _ => True := by
  cases result with
  | ok a => exact pure_finds trivial
  | error fault => exact malformed_finds rfl

theorem memberHead_finds {base : CType} {declarator : Reader Declarator}
    (h : Finds setting declarator fun _ => True) :
    Finds setting (memberHead base declarator) fun _ => True := by
  unfold memberHead
  apply token_finds.bind
  intro t _
  refine .ite (fun _ => pure_finds trivial) ?_
  intro _
  apply h.bind
  intro declarator _
  apply (resolved_finds _).bind
  intro meaning _
  cases meaning with
  | object type => exact pure_finds trivial
  | function result params => exact malformed_finds rfl

theorem nameless_finds (abstract : Bool) : Finds setting (nameless abstract) fun _ => True := by
  unfold nameless
  exact .ite (fun _ => pure_finds trivial) fun _ => unexpected_finds _

theorem declaratorHead_finds {abstract : Bool} {nested : Reader Declarator}
    (h : Finds setting nested fun _ => True) :
    Finds setting (declaratorHead abstract nested) fun _ => True := by
  unfold declaratorHead
  apply (ahead_finds _).bind
  intro isNested _
  refine .ite ?_ ?_
  · intro _
    apply advance_finds.bind
    intro _ _
    apply h.bind
    intro inner _
    exact (expect_finds .closeParen _).bind fun _ _ => pure_finds trivial
  · intro _
    apply token_finds.bind
    intro t _
    cases t with
    | identifier name =>
      refine .ite (fun _ => nameless_finds abstract) ?_
      intro _
      exact advance_finds.bind fun _ _ => pure_finds trivial
    | _ => exact nameless_finds abstract

/-! ### The readers that call each other -/

/-- All readers of declarations find what belongs to the file, in any number of steps. -/
structure AllFind (setting : Setting) (steps : Nat) : Prop where
  specifierWords : ∀ {s : SpecifierWords}, s.tag.FoundIn setting →
    Finds setting (specifierWords steps s) fun s => s.tag.FoundIn setting
  tagSpecifier : Finds setting (tagSpecifier steps) fun r => r.2.FoundIn setting
  members : ∀ (opened : Position) {s : Structure}, s.FoundIn setting →
    Finds setting (members steps opened s) fun s => s.FoundIn setting
  member : ∀ {s : Structure}, s.FoundIn setting →
    Finds setting (member steps s) fun s => s.FoundIn setting
  memberDeclarators : ∀ (base : CType) {s : Structure}, s.FoundIn setting →
    Finds setting (memberDeclarators steps base s) fun s => s.FoundIn setting
  specifiers : Finds setting (specifiers steps) fun s => s.tag.FoundIn setting
  declarator : ∀ abstract : Bool, Finds setting (declarator steps abstract) fun _ => True
  declaratorSuffixes : ∀ ops : List DeclaratorOp,
    Finds setting (declaratorSuffixes steps ops) fun _ => True
  parameters : Finds setting (parameters steps) fun _ => True
  parameterList : ∀ params : List Param, Finds setting (parameterList steps params) fun _ => True

section

variable {steps : Nat}

theorem specifierWords_finds (ih : AllFind setting steps) {s : SpecifierWords}
    (hs : s.tag.FoundIn setting) :
    Finds setting (specifierWords (steps + 1) s) fun s => s.tag.FoundIn setting := by
  unfold specifierWords
  apply token_finds.bind
  intro t _
  have hword : ∀ {s' : SpecifierWords}, s'.tag.FoundIn setting →
      Finds setting (do advance; specifierWords steps s') fun s => s.tag.FoundIn setting :=
    fun hs' => advance_finds.bind fun _ _ => ih.specifierWords hs'
  have htag : Finds setting
      (if s.hasType then malformed .twoTypes
        else do
          let r ← tagSpecifier steps
          specifierWords steps { s with base := some r.1, tag := r.2 })
      fun s => s.tag.FoundIn setting := by
    refine .ite (fun _ => malformed_finds rfl) ?_
    intro _
    apply ih.tagSpecifier.bind
    rintro ⟨base, tag⟩ htag
    exact ih.specifierWords htag
  cases t with
  | storage word => exact hword hs
  | qualifier word =>
    refine hword ?_
    unfold SpecifierWords.addQualifier
    split
    · exact hs
    · split <;> exact hs
  | typedef => exact hword hs
  | builtin word => exact .ite (fun _ => malformed_finds rfl) fun _ => hword hs
  | struct => exact htag
  | union => exact htag
  | enum => exact htag
  | identifier word =>
    refine .ite ?_ ?_
    · intro _
      exact skipAttribute_finds.bind fun _ _ => ih.specifierWords hs
    · intro _
      refine .ite (fun _ => hword hs) ?_
      intro _
      exact .ite (fun _ => pure_finds hs) fun _ => hword hs
  | _ => exact pure_finds hs

theorem tagSpecifier_finds (ih : AllFind setting steps) :
    Finds setting (tagSpecifier (steps + 1)) fun r => r.2.FoundIn setting := by
  unfold tagSpecifier
  apply position_finds.bind
  intro start _
  apply token_finds.bind
  intro keyword _
  apply advance_finds.bind
  intro _ _
  apply (tagName_finds (steps + 1)).bind
  intro name _
  apply token_finds.bind
  intro t _
  refine .ite ?_ ?_
  · intro _
    refine .ite ?_ ?_
    · intro _
      apply (structureBody_finds fun opened s hs => ih.members opened hs).bind
      intro s hs
      exact (defineTag_finds hs).bind fun tag htag => pure_finds htag
    · intro _
      exact group_finds.discard.bind fun _ _ => pure_finds trivial
  · intro _
    cases name with
    | none => exact malformed_finds rfl
    | some name =>
      refine pure_finds ?_
      change (if _ then _ else _ : TagUse).FoundIn setting
      split <;> trivial

theorem members_finds (ih : AllFind setting steps) (opened : Position) {s : Structure}
    (hs : s.FoundIn setting) :
    Finds setting (members (steps + 1) opened s) fun s => s.FoundIn setting := by
  unfold members
  apply (accept_finds .closeBrace).bind
  intro closed _
  refine .ite (fun _ => pure_finds hs) ?_
  intro _
  apply token_finds.bind
  intro t _
  refine .ite (fun _ => fatal_finds _ rfl) ?_
  intro _
  apply (accept_finds .semicolon).bind
  intro ended _
  refine .ite (fun _ => ih.members opened hs) ?_
  intro _
  unfold atMarker
  rw [bind_assoc]
  apply noteRules_finds.bind
  intro rules _
  apply (ahead_finds _).bind
  intro isMarker _
  refine .ite ?_ ?_
  · intro _
    apply marker_finds.bind
    intro note _
    exact ih.members opened ⟨hs.file, hs.origin, hs.definition⟩
  · intro _
    exact (ih.member hs).bind fun s hs => ih.members opened hs

theorem member_finds (ih : AllFind setting steps) {s : Structure} (hs : s.FoundIn setting) :
    Finds setting (member (steps + 1) s) fun s => s.FoundIn setting := by
  unfold member
  apply ih.specifiers.bind
  intro specifiers _
  apply (accept_finds .semicolon).bind
  intro ended _
  refine .ite ?_ fun _ => ih.memberDeclarators _ hs
  intro _
  cases specifiers.tag with
  | anonymous inner => exact pure_finds ⟨hs.file, hs.origin, hs.definition⟩
  | _ => exact pure_finds hs

theorem memberDeclarators_finds (ih : AllFind setting steps) (base : CType) {s : Structure}
    (hs : s.FoundIn setting) :
    Finds setting (memberDeclarators (steps + 1) base s) fun s => s.FoundIn setting := by
  unfold memberDeclarators
  apply (memberHead_finds (ih.declarator false)).bind
  rintro ⟨name, type⟩ _
  apply (expressionBehind?_finds .colon).bind
  intro width _
  apply (skipAttributes_finds (steps + 1)).bind
  intro _ _
  have hs' := hs.addMember name type width
  apply (accept_finds .comma).bind
  intro more _
  refine .ite (fun _ => ih.memberDeclarators base hs') ?_
  intro _
  exact (expect_finds .semicolon _).bind fun _ _ => pure_finds hs'

theorem specifiers_finds (ih : AllFind setting steps) :
    Finds setting (specifiers (steps + 1)) fun s => s.tag.FoundIn setting := by
  unfold specifiers
  have hempty : SpecifierWords.empty.tag.FoundIn setting := trivial
  apply (ih.specifierWords hempty).bind
  intro words hwords
  cases hspecifiers : words.specifiers? with
  | none => exact unexpected_finds _
  | some specifiers =>
    rw [← SpecifierWords.tag_of_specifiers? hspecifiers] at hwords
    exact pure_finds hwords

theorem declarator_finds (ih : AllFind setting steps) (abstract : Bool) :
    Finds setting (declarator (steps + 1) abstract) fun _ => True := by
  unfold declarator
  apply (pointers_finds (steps + 1) 0).bind
  intro count _
  apply (declaratorHead_finds (ih.declarator abstract)).bind
  intro inner _
  exact (ih.declaratorSuffixes inner.ops).bind fun _ _ => pure_finds trivial

theorem declaratorSuffixes_finds (ih : AllFind setting steps) (ops : List DeclaratorOp) :
    Finds setting (declaratorSuffixes (steps + 1) ops) fun _ => True := by
  unfold declaratorSuffixes
  apply token_finds.bind
  intro t _
  cases t with
  | openBracket => exact group_finds.bind fun _ _ => ih.declaratorSuffixes _
  | openParen =>
    apply (modifyKind_finds fun kind => if kind = .variable then .function else kind).bind
    intro _ _
    exact ih.parameters.bind fun _ _ => ih.declaratorSuffixes _
  | _ => exact pure_finds trivial

theorem parameters_finds (ih : AllFind setting steps) :
    Finds setting (parameters (steps + 1)) fun _ => True := by
  unfold parameters
  apply advance_finds.bind
  intro _ _
  apply (accept_finds .closeParen).bind
  intro closed _
  refine .ite (fun _ => pure_finds trivial) ?_
  intro _
  apply (ahead_finds endsVoid).bind
  intro isVoid _
  refine .ite ?_ fun _ => ih.parameterList []
  intro _
  apply advance_finds.bind
  intro _ _
  exact advance_finds.bind fun _ _ => pure_finds trivial

theorem parameterList_finds (ih : AllFind setting steps) (params : List Param) :
    Finds setting (parameterList (steps + 1) params) fun _ => True := by
  unfold parameterList
  apply (accept_finds .ellipsis).bind
  intro variadic _
  refine .ite ?_ ?_
  · intro _
    exact (expect_finds .closeParen _).bind fun _ _ => pure_finds trivial
  · intro _
    apply ih.specifiers.bind
    intro specifiers _
    apply (ih.declarator true).bind
    intro declarator _
    apply (resolved_finds _).bind
    intro declared _
    apply (skipAttributes_finds (steps + 1)).bind
    intro _ _
    apply (accept_finds .comma).bind
    intro more _
    refine .ite (fun _ => ih.parameterList _) ?_
    intro _
    exact (expect_finds .closeParen _).bind fun _ _ => pure_finds trivial

end

/-- Each reader goes down one step to the others, so that one induction on the steps covers them
all. A reader without steps fails, and not for a reason in the file. -/
theorem allFind (setting : Setting) (steps : Nat) : AllFind setting steps := by
  induction steps with
  | zero =>
    constructor <;> intros <;> exact fun _ _ => trivial
  | succ steps ih =>
    exact {
      specifierWords := specifierWords_finds ih
      tagSpecifier := tagSpecifier_finds ih
      members := members_finds ih
      member := member_finds ih
      memberDeclarators := memberDeclarators_finds ih
      specifiers := specifiers_finds ih
      declarator := declarator_finds ih
      declaratorSuffixes := declaratorSuffixes_finds ih
      parameters := parameters_finds ih
      parameterList := parameterList_finds ih }

end Reader

end RemoteCalls
