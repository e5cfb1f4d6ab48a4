import Mathlib.Data.List.TakeWhile
import RemoteCalls.Proofs.CType.Scanned
import RemoteCalls.Proofs.Outline.Isolation

/-!
# What is read from a source text

The lexemes of a source text are legible, so that its names are names, its builtin words are builtin
words, and its groups close what they open. A reader leaves legible lexemes behind, and what it
makes of those that it takes is scanned, also the structures that it puts among the tags. The
readers of declarators call each other, so that this is shown of all of them at once.
-/

namespace RemoteCalls

/-! ## Tokens -/

/-- A token as it stands in a source text: a name is one, and a builtin word too. -/
def Token.Scanned : Token → Prop
  | .identifier name => IsName name
  | .builtin word => word ∈ builtinWords
  | _ => True

theorem Token.scanned_ofWord {word : String} (h : Configuration.isIdentifier word = true) :
    (ofWord word).Scanned := by
  unfold ofWord
  split
  · next hbuiltin => exact List.contains_iff_mem.mp hbuiltin
  repeat' split
  all_goals try trivial
  next hbuiltin hqualifier hstorage hstruct hunion henum htypedef =>
    refine ⟨h, ?_⟩
    unfold ofWord
    rw [if_neg hbuiltin, if_neg hqualifier, if_neg hstorage, if_neg hstruct, if_neg hunion,
      if_neg henum, if_neg htypedef]

theorem Segment.scanned_of_first {c : Char} {cs source : List Char} {t : Token}
    (h : first c cs = .ok ⟨source, .token t⟩) : t.Scanned := by
  cases (beginsToken_of_first h).2 with
  | literal hquotes htail => cases hquotes <;> trivial
  | number hstart => trivial
  | word hstart =>
    refine Token.scanned_ofWord ?_
    unfold Configuration.isIdentifier
    rw [String.toList_ofList]
    simp only [hstart, Bool.true_and, List.all_eq_true]
    exact fun d hd => List.mem_takeWhile_imp hd
  | mark hmark =>
    unfold Token.ofMark? at hmark
    split at hmark <;> cases hmark <;> trivial
  | operator =>
    unfold Token.ofOperator
    repeat' split
    all_goals trivial

theorem Lexeme.Legible.scanned {lexeme : Lexeme} {rest : List Lexeme}
    (h : Legible (lexeme :: rest)) : lexeme.token.Scanned := by
  obtain ⟨cs, hread⟩ := h
  cases hread with
  | token hfirst _ _ => exact Segment.scanned_of_first hfirst
  | inclusion _ htoken _ =>
    rw [htoken]
    trivial

/-- The text between two brackets is that of a size, if there is any. -/
theorem Lexeme.scannedSize_join {inner : List Lexeme} (h : Legible inner)
    (hbalanced : Token.Balanced (tokens inner)) :
    ∀ text ∈ (if (join inner).isEmpty then none else some (join inner)), ScannedSize text := by
  intro text htext
  split at htext
  · cases htext
  · next hempty =>
    cases htext
    refine ⟨inner, h, hbalanced, ?_, rfl⟩
    rintro rfl
    exact hempty rfl

/-- The name of a declarator is one, and its operators are scanned. -/
structure Declarator.Scanned (declarator : Declarator) : Prop where
  name : ∀ name ∈ declarator.name, IsFreeName name
  ops : ∀ op ∈ declarator.ops, op.Scanned

/-- What a tag stands for is scanned. -/
def TagUse.Scanned : TagUse → Prop
  | .other => True
  | .reference name _ => IsName name
  | .anonymous s => ∀ field ∈ s.fields, field.Scanned

/-- The base, the tag and the builtin words among the words in front of a declarator are scanned. -/
structure SpecifierWords.Scanned (s : SpecifierWords) : Prop where
  words : ∀ word ∈ s.words, word ∈ Token.builtinWords
  base : ∀ b ∈ s.base, b.Scanned
  tag : s.tag.Scanned

/-- The type and the tag that the words in front of a declarator name are scanned. -/
structure Specifiers.Scanned (specifiers : Specifiers) : Prop where
  type : specifiers.type.Scanned
  tag : specifiers.tag.Scanned

/-- The words name a scanned type. -/
theorem SpecifierWords.Scanned.specifiers {s : SpecifierWords} (h : s.Scanned)
    {specifiers : Specifiers} (hspecifiers : s.specifiers? = some specifiers) :
    specifiers.Scanned := by
  unfold specifiers? at hspecifiers
  rw [Option.map_eq_some_iff] at hspecifiers
  obtain ⟨b, hb, rfl⟩ := hspecifiers
  refine ⟨.base ?_ nofun, h.tag⟩
  split at hb
  · next hbase =>
    cases hb
    exact h.base _ hbase
  · split at hb
    · cases hb
    · next hempty =>
      cases hb
      exact .builtin s.words (fun hnil => hempty (List.isEmpty_iff.mpr hnil)) h.words

theorem SpecifierWords.Scanned.addQualifier {s : SpecifierWords} (h : s.Scanned) (word : String) :
    (s.addQualifier word).Scanned := by
  unfold SpecifierWords.addQualifier
  split
  · exact ⟨h.words, h.base, h.tag⟩
  · split
    · exact ⟨h.words, h.base, h.tag⟩
    · exact h

/-- One more member that is scanned. -/
theorem Structure.ScannedAs.addMember {tag : String} {s : Structure} (h : s.ScannedAs tag)
    {name : Option String} {type : CType} {width : Option String} (hname : ∀ n ∈ name, IsName n)
    (htype : type.Scanned) (hwidth : ∀ text ∈ width, ScannedWidth text) :
    (s.addMember name type width).ScannedAs tag := by
  cases name with
  | none => exact h
  | some name =>
    refine ⟨h.name, fun field hfield => ?_⟩
    rcases List.mem_append.mp hfield with hfield | hfield
    · exact h.fields field hfield
    · rw [List.mem_singleton.mp hfield]
      exact ⟨hname name rfl, htype, hwidth⟩

/-- A tag names a scanned base, also where there is no name. -/
theorem Base.scanned_ofTag {name : Option String} (h : ∀ word ∈ name, IsFreeName word)
    (keyword : Token) : (Base.ofTag keyword (name.getD Structure.anonymousTag)).Scanned := by
  have hname : name.getD Structure.anonymousTag = Structure.anonymousTag ∨
      IsFreeName (name.getD Structure.anonymousTag) := by
    cases name with
    | none => exact .inl rfl
    | some name => exact .inr (h name rfl)
  unfold Base.ofTag
  split
  · exact .struct hname
  · exact .union hname
  · exact .enum hname

namespace Reader

variable {α β : Type}

/-- The lexemes in front of a reader and the structures among its tags stand in a source text. -/
structure ScannedAt (cursor : Cursor) : Prop where
  rest : Lexeme.Legible cursor.rest
  tags : ∀ s ∈ cursor.tags, s.Scanned

/-- A reader that leaves legible lexemes and scanned tags behind if it is in front of such, and
whose result satisfies `Q`. -/
def Scans (m : Reader α) (Q : α → Prop) : Prop :=
  ∀ setting cursor a next, ScannedAt cursor → m setting cursor = .ok (a, next) →
    ScannedAt next ∧ Q a

namespace Scans

variable {m : Reader α} {Q : α → Prop}

/-- Two readers in a row. -/
theorem bind {f : α → Reader β} {R : β → Prop} (h : Scans m Q)
    (hnext : ∀ a, Q a → Scans (f a) R) : Scans (m >>= f) R := by
  intro setting cursor b last hcursor hrun
  rw [bind_apply] at hrun
  cases hfirst : m setting cursor with
  | error failure =>
    rw [hfirst] at hrun
    cases hrun
  | ok result =>
    obtain ⟨a, next⟩ := result
    rw [hfirst] at hrun
    obtain ⟨hscanned, hQ⟩ := h setting cursor a next hcursor hfirst
    exact hnext a hQ setting next b last hscanned hrun

/-- A reader that takes some lexemes off the front wherever it is, and leaves the tags. -/
theorem of_suffix (result : Setting → Cursor → α) (next : Setting → Cursor → Cursor)
    (hrun : ∀ setting cursor, m setting cursor = .ok (result setting cursor, next setting cursor))
    (hnext : ∀ setting cursor, (next setting cursor).rest <:+ cursor.rest)
    (htags : ∀ setting cursor, (next setting cursor).tags = cursor.tags)
    (hQ : ∀ setting cursor, Lexeme.Legible cursor.rest → Q (result setting cursor)) :
    Scans m Q := by
  intro setting cursor a last hcursor hlast
  rw [hrun] at hlast
  cases hlast
  refine ⟨⟨hcursor.rest.suffix (hnext setting cursor), ?_⟩, hQ setting cursor hcursor.rest⟩
  rw [htags]
  exact hcursor.tags

/-- A reader that has no result. -/
theorem of_error (failure : Setting → Cursor → Failure)
    (hrun : ∀ setting cursor, m setting cursor = .error (failure setting cursor)) : Scans m Q := by
  intro setting cursor a last _ hlast
  rw [hrun] at hlast
  cases hlast

theorem ite {c : Prop} [Decidable c] {yes no : Reader α} (hyes : c → Scans yes Q)
    (hno : ¬ c → Scans no Q) : Scans (if c then yes else no) Q := by
  by_cases h : c
  · rw [if_pos h]
    exact hyes h
  · rw [if_neg h]
    exact hno h

end Scans

/-! ### The readers that all others are built from -/

theorem pure_scans {a : α} {Q : α → Prop} (h : Q a) : Scans (pure a) Q :=
  .of_suffix (fun _ _ => a) (fun _ cursor => cursor) (fun _ _ => rfl)
    (fun _ _ => List.suffix_refl _) (fun _ _ => rfl) fun _ _ _ => h

theorem outOfSteps_scans {Q : α → Prop} : Scans (throw .outOfSteps : Reader α) Q :=
  .of_error (fun _ _ => .outOfSteps) fun _ _ => rfl

theorem malformed_scans (reason : Reason) {Q : α → Prop} : Scans (malformed reason : Reader α) Q :=
  .of_error _ fun _ _ => rfl

theorem unexpected_scans (what : Expectation) {Q : α → Prop} :
    Scans (unexpected what : Reader α) Q :=
  .of_error _ fun _ _ => rfl

theorem fatal_scans (position : Position) (reason : Reason) {Q : α → Prop} :
    Scans (fatal position reason : Reader α) Q :=
  .of_error _ fun _ _ => rfl

/-- A reader that only looks at the lexemes. -/
theorem look_scans {m : Reader α} (look : Setting → Cursor → α) {Q : α → Prop}
    (hm : ∀ setting cursor, m setting cursor = .ok (look setting cursor, cursor))
    (hQ : ∀ setting cursor, Lexeme.Legible cursor.rest → Q (look setting cursor)) : Scans m Q :=
  .of_suffix look (fun _ cursor => cursor) hm (fun _ _ => List.suffix_refl _) (fun _ _ => rfl) hQ

/-- The token in front is scanned. -/
theorem token_scans : Scans token Token.Scanned := by
  refine look_scans (fun _ cursor => headToken cursor.rest) (fun _ _ => rfl) ?_
  intro setting cursor hcursor
  cases hrest : cursor.rest with
  | nil => trivial
  | cons lexeme rest =>
    rw [hrest] at hcursor
    exact hcursor.scanned

theorem position_scans : Scans position fun _ => True :=
  look_scans _ (fun _ _ => rfl) fun _ _ _ => trivial

theorem placeAt_scans (p : Position) : Scans (placeAt p) fun _ => True :=
  look_scans _ (fun _ _ => rfl) fun _ _ _ => trivial

theorem origin_scans : Scans origin fun _ => True :=
  look_scans _ (fun _ _ => rfl) fun _ _ _ => trivial

theorem noteRules_scans : Scans noteRules fun _ => True :=
  look_scans _ (fun _ _ => rfl) fun _ _ _ => trivial

theorem kind_scans : Scans kind fun _ => True :=
  look_scans _ (fun _ _ => rfl) fun _ _ _ => trivial

theorem ahead_scans (look : Token → Token → Bool) : Scans (ahead look) fun _ => True :=
  look_scans _ (fun _ _ => rfl) fun _ _ _ => trivial

theorem advance_scans : Scans advance fun _ => True :=
  .of_suffix (fun _ _ => ()) (fun _ cursor => { cursor with rest := cursor.rest.tail })
    (fun _ _ => rfl) (fun _ _ => List.tail_suffix _) (fun _ _ => rfl) fun _ _ _ => trivial

theorem modifyKind_scans (f : DeclKind → DeclKind) :
    Scans (modify fun cursor => { cursor with kind := f cursor.kind }) fun _ => True :=
  .of_suffix (fun _ _ => ()) (fun _ cursor => { cursor with kind := f cursor.kind })
    (fun _ _ => rfl) (fun _ _ => List.suffix_refl _) (fun _ _ => rfl) fun _ _ _ => trivial

/-- A structure that is put among the tags has to be scanned. -/
theorem addTag_scans {s : Structure} (hs : s.Scanned) :
    Scans (modify fun cursor => { cursor with tags := cursor.tags ++ [s] }) fun _ => True := by
  intro setting cursor a next hcursor hrun
  cases hrun
  refine ⟨⟨hcursor.rest, fun other hother => ?_⟩, trivial⟩
  rcases List.mem_append.mp hother with hother | hother
  · exact hcursor.tags other hother
  · rw [List.mem_singleton.mp hother]
    exact hs

theorem skipQualifiers_scans : Scans skipQualifiers fun _ => True :=
  .of_suffix (fun _ _ => ()) (fun _ cursor => { cursor with rest := cursor.rest.dropWhile _ })
    (fun _ _ => rfl) (fun _ _ => List.dropWhile_suffix _) (fun _ _ => rfl) fun _ _ _ => trivial

theorem accept_scans (wanted : Token) : Scans (accept wanted) fun _ => True := by
  unfold accept
  refine token_scans.bind fun t _ => .ite (fun _ => ?_) fun _ => pure_scans trivial
  exact advance_scans.bind fun _ _ => pure_scans trivial

theorem expect_scans (wanted : Token) (what : Expectation) :
    Scans (expect wanted what) fun _ => True := by
  unfold expect
  refine (accept_scans wanted).bind fun taken _ => ?_
  exact .ite (fun _ => pure_scans trivial) fun _ => unexpected_scans what

/-- What stands in a group is legible and closes the groups that it opens. -/
theorem group_scans :
    Scans group fun inner => Lexeme.Legible inner ∧ Token.Balanced (Lexeme.tokens inner) := by
  intro setting cursor inner next hcursor hrun
  obtain ⟨behind, hsplit, rfl⟩ := group_eq_ok hrun
  have htail := hcursor.rest.tail
  have hbalanced := Lexeme.nest_of_splitGroup hsplit
  obtain ⟨closer, -, hrow⟩ := Lexeme.splitGroup_eq_some hsplit
  rw [hrow] at htail
  refine ⟨⟨htail.suffix ?_, hcursor.tags⟩, htail.front, hbalanced⟩
  exact (List.suffix_cons closer behind).trans (List.suffix_append _ _)

/-- An expression has the text of a width. -/
theorem expression_scans : Scans expression ScannedWidth := by
  intro setting cursor a next hcursor hrun
  obtain ⟨inner, behind, hsplit, hempty, rfl, rfl⟩ := expression_eq_ok hrun
  have hrow := Lexeme.splitExpression_eq_ok hsplit
  have hlegible := hcursor.rest
  rw [hrow] at hlegible
  refine ⟨⟨hcursor.rest.suffix ⟨inner, hrow.symm⟩, hcursor.tags⟩, inner, hlegible.front,
    Lexeme.isExpression_of_splitExpression hsplit, ?_, rfl⟩
  rintro rfl
  cases hempty

theorem expressionBehind?_scans (mark : Token) :
    Scans (expressionBehind? mark) fun width => ∀ text ∈ width, ScannedWidth text := by
  unfold expressionBehind?
  refine (accept_scans mark).bind fun taken _ => .ite (fun _ => ?_) fun _ => pure_scans nofun
  refine expression_scans.bind fun text htext => pure_scans ?_
  rintro _ ⟨⟩
  exact htext

theorem name?_scans : Scans name? fun name? => ∀ name ∈ name?, IsName name := by
  unfold name?
  refine token_scans.bind fun t ht => ?_
  cases t with
  | identifier name =>
    refine advance_scans.bind fun _ _ => pure_scans ?_
    rintro _ ⟨⟩
    exact ht
  | _ => exact pure_scans nofun

theorem discardGroup_scans : Scans (Functor.discard group) fun _ => True := by
  rw [discard_eq]
  exact group_scans.bind fun _ _ => pure_scans trivial

theorem skipAttribute_scans : Scans skipAttribute fun _ => True := by
  unfold skipAttribute
  refine advance_scans.bind fun _ _ => token_scans.bind fun t _ => ?_
  exact .ite (fun _ => discardGroup_scans) fun _ => pure_scans trivial

theorem skipAttributes_scans (steps : Nat) : Scans (skipAttributes steps) fun _ => True := by
  induction steps with
  | zero => exact outOfSteps_scans
  | succ steps ih =>
    unfold skipAttributes
    refine token_scans.bind fun t _ => .ite (fun _ => ?_) fun _ => pure_scans trivial
    exact skipAttribute_scans.bind fun _ _ => ih

theorem pointers_scans (steps count : Nat) : Scans (pointers steps count) fun _ => True := by
  induction steps generalizing count with
  | zero => exact outOfSteps_scans
  | succ steps ih =>
    unfold pointers
    refine (accept_scans .star).bind fun taken _ => .ite (fun _ => ?_) fun _ => pure_scans trivial
    refine skipQualifiers_scans.bind fun _ _ => ?_
    exact (skipAttributes_scans (steps + 1)).bind fun _ _ => ih (count + 1)

/-! ### Marker statements, tags and declarators -/

theorem marker_scans : Scans marker fun _ => True := by
  have hnote : Scans markerNote fun _ => True := by
    unfold markerNote
    refine token_scans.bind fun t _ => (ahead_scans beginsCall).bind fun call _ => .ite ?_ ?_
    · intro _
      exact advance_scans.bind fun _ _ => group_scans.bind fun _ _ => pure_scans trivial
    · intro _
      exact advance_scans.bind fun _ _ => pure_scans trivial
  unfold marker endStatement
  refine hnote.bind fun note _ => ?_
  rw [discard_eq, bind_assoc]
  exact (accept_scans .semicolon).bind fun _ _ => pure_scans trivial

/-- No attribute is left behind those that are skipped. -/
theorem isAttribute_of_skipAttributes {setting : Setting} {steps : Nat} {cursor next : Cursor}
    (h : skipAttributes steps setting cursor = .ok ((), next)) :
    isAttribute (headToken next.rest) = false := by
  induction steps generalizing cursor with
  | zero => cases h
  | succ steps ih =>
    unfold skipAttributes at h
    obtain ⟨t, _, htoken, h⟩ := bind_eq_ok.mp h
    cases htoken
    split at h
    · obtain ⟨_, _, -, h⟩ := bind_eq_ok.mp h
      exact ih h
    · next hfront =>
      cases h
      exact Bool.eq_false_iff.mpr hfront

/-- The name of a tag begins no attribute, for those in front of it are skipped. -/
theorem noAttribute_of_tagName {setting : Setting} {steps : Nat} {cursor next : Cursor}
    {name : Option String} (h : tagName steps setting cursor = .ok (name, next)) :
    ∀ word ∈ name, attributeWords.contains word = false := by
  rintro word rfl
  unfold tagName at h
  obtain ⟨_, behind, hskip, h⟩ := bind_eq_ok.mp h
  have hfront := isAttribute_of_skipAttributes hskip
  obtain ⟨found, _, hname, h⟩ := bind_eq_ok.mp h
  obtain ⟨_, _, -, h⟩ := bind_eq_ok.mp h
  cases h
  unfold name? at hname
  obtain ⟨t, _, htoken, hname⟩ := bind_eq_ok.mp hname
  cases htoken
  cases hhead : headToken behind.rest with
  | identifier name =>
    rw [hhead] at hname hfront
    cases hname
    exact hfront
  | _ =>
    rw [hhead] at hname
    cases hname

theorem tagName_scans (steps : Nat) :
    Scans (tagName steps) fun name? => ∀ name ∈ name?, IsFreeName name := by
  have hname : Scans (tagName steps) fun name? => ∀ name ∈ name?, IsName name := by
    unfold tagName
    refine (skipAttributes_scans steps).bind fun _ _ => name?_scans.bind fun name hname => ?_
    exact (skipAttributes_scans steps).bind fun _ _ => pure_scans hname
  intro setting cursor name next hcursor hrun
  obtain ⟨hnext, hnames⟩ := hname setting cursor name next hcursor hrun
  exact ⟨hnext, fun word hword => ⟨hnames word hword, noAttribute_of_tagName hrun word hword⟩⟩

/-- The body of a structure has scanned members if its members are read so. -/
theorem structureBody_scans {start : Position} {tag : String}
    {members : Position → Structure → Reader Structure}
    (h : ∀ opened s, s.ScannedAs tag → Scans (members opened s) (·.ScannedAs tag)) :
    Scans (structureBody start tag members) (·.ScannedAs tag) := by
  unfold structureBody
  refine kind_scans.bind fun outer _ => (modifyKind_scans fun _ => .struct).bind fun _ _ => ?_
  refine position_scans.bind fun opened _ => advance_scans.bind fun _ _ => ?_
  refine (placeAt_scans start).bind fun place _ => origin_scans.bind fun origin _ => ?_
  refine (h opened _ ⟨rfl, fun _ hfield => absurd hfield List.not_mem_nil⟩).bind fun s hs => ?_
  exact (modifyKind_scans fun _ => outer).bind fun _ _ => pure_scans hs

theorem defineTag_scans {name : Option String} (hname : ∀ word ∈ name, IsFreeName word) {s : Structure}
    (hs : s.ScannedAs (name.getD Structure.anonymousTag)) :
    Scans (defineTag name s) TagUse.Scanned := by
  unfold defineTag
  cases name with
  | none => exact pure_scans hs.fields
  | some name =>
    have htag : s.Scanned := ⟨hs.name ▸ (hname name rfl).toIsName, hs.fields⟩
    exact (addTag_scans htag).bind fun _ _ => pure_scans trivial

theorem resolved_scans {result : Except DeclaratorFault α} :
    Scans (resolved result) fun a => result = .ok a := by
  cases result with
  | ok a => exact pure_scans rfl
  | error fault => exact malformed_scans _

/-- The name of a member is one, and its type is scanned if its base is. -/
theorem memberHead_scans {base : CType} (hbase : base.Scanned) {declarator : Reader Declarator}
    (h : Scans declarator Declarator.Scanned) :
    Scans (memberHead base declarator) fun head =>
      (∀ name ∈ head.1, IsName name) ∧ head.2.Scanned := by
  unfold memberHead
  refine token_scans.bind fun t _ => .ite (fun _ => pure_scans ⟨nofun, hbase⟩) fun _ => ?_
  refine h.bind fun declarator hdeclarator => resolved_scans.bind fun meaning hmeaning => ?_
  have hmeaning := Declared.scanned_ofOps hbase hdeclarator.ops hmeaning
  cases meaning with
  | object type => exact pure_scans ⟨fun name hname => (hdeclarator.name name hname).toIsName, hmeaning⟩
  | function result params => exact malformed_scans _

theorem nameless_scans (abstract : Bool) : Scans (nameless abstract) Declarator.Scanned := by
  unfold nameless
  exact .ite (fun _ => pure_scans ⟨nofun, nofun⟩) fun _ => unexpected_scans _

theorem declaratorHead_scans {abstract : Bool} {nested : Reader Declarator}
    (h : Scans nested Declarator.Scanned) :
    Scans (declaratorHead abstract nested) Declarator.Scanned := by
  unfold declaratorHead
  refine (ahead_scans _).bind fun isNested _ => .ite ?_ ?_
  · intro _
    refine advance_scans.bind fun _ _ => h.bind fun inner hinner => ?_
    exact (expect_scans .closeParen _).bind fun _ _ => pure_scans hinner
  · intro _
    refine token_scans.bind fun t ht => ?_
    cases t with
    | identifier name =>
      refine .ite (fun _ => nameless_scans abstract) fun hattribute => ?_
      refine advance_scans.bind fun _ _ => pure_scans ⟨?_, nofun⟩
      rintro _ ⟨⟩
      exact ⟨ht, Bool.eq_false_iff.mpr hattribute⟩
    | _ => exact nameless_scans abstract

/-! ### The readers that call each other -/

/-- All readers of declarators make what is scanned, in any number of steps. -/
structure AllScan (steps : Nat) : Prop where
  specifierWords : ∀ {s : SpecifierWords}, s.Scanned →
    Scans (specifierWords steps s) SpecifierWords.Scanned
  tagSpecifier : Scans (tagSpecifier steps) fun r => r.1.Scanned ∧ r.2.Scanned
  members : ∀ (opened : Position) {tag : String} {s : Structure}, s.ScannedAs tag →
    Scans (members steps opened s) (·.ScannedAs tag)
  member : ∀ {tag : String} {s : Structure}, s.ScannedAs tag →
    Scans (member steps s) (·.ScannedAs tag)
  memberDeclarators : ∀ {base : CType} {tag : String} {s : Structure}, base.Scanned →
    s.ScannedAs tag → Scans (memberDeclarators steps base s) (·.ScannedAs tag)
  specifiers : Scans (specifiers steps) Specifiers.Scanned
  declarator : ∀ abstract : Bool, Scans (declarator steps abstract) Declarator.Scanned
  declaratorSuffixes : ∀ {ops : List DeclaratorOp}, (∀ op ∈ ops, op.Scanned) →
    Scans (declaratorSuffixes steps ops) fun ops => ∀ op ∈ ops, op.Scanned
  parameters : Scans (parameters steps) ParamList.Scanned
  parameterList : ∀ {params : List Param}, ParamList.Scanned ⟨params, false⟩ →
    Scans (parameterList steps params) ParamList.Scanned

section

variable {steps : Nat}

theorem specifierWords_scans (ih : AllScan steps) {s : SpecifierWords} (hs : s.Scanned) :
    Scans (specifierWords (steps + 1) s) SpecifierWords.Scanned := by
  unfold specifierWords
  refine token_scans.bind fun t ht => ?_
  have hword : ∀ {s' : SpecifierWords}, s'.Scanned →
      Scans (do advance; specifierWords steps s') SpecifierWords.Scanned :=
    fun hs' => advance_scans.bind fun _ _ => ih.specifierWords hs'
  have htag : Scans
      (if s.hasType then malformed .twoTypes
        else do
          let r ← tagSpecifier steps
          specifierWords steps { s with base := some r.1, tag := r.2 })
      SpecifierWords.Scanned := by
    refine .ite (fun _ => malformed_scans _) fun _ => ?_
    refine ih.tagSpecifier.bind fun r hr => ih.specifierWords ⟨hs.words, ?_, hr.2⟩
    rintro _ ⟨⟩
    exact hr.1
  cases t with
  | storage word => exact hword ⟨hs.words, hs.base, hs.tag⟩
  | qualifier word => exact hword (hs.addQualifier word)
  | typedef => exact hword ⟨hs.words, hs.base, hs.tag⟩
  | builtin word =>
    refine .ite (fun _ => malformed_scans _) fun _ => hword ⟨?_, hs.base, hs.tag⟩
    intro other hother
    rcases List.mem_append.mp hother with hother | hother
    · exact hs.words other hother
    · rw [List.mem_singleton.mp hother]
      exact ht
  | struct => exact htag
  | union => exact htag
  | enum => exact htag
  | identifier word =>
    refine .ite ?_ ?_
    · intro _
      exact skipAttribute_scans.bind fun _ _ => ih.specifierWords hs
    · intro hattribute
      refine .ite (fun _ => hword hs) fun hignored => .ite (fun _ => pure_scans hs) fun _ => ?_
      refine hword ⟨hs.words, ?_, hs.tag⟩
      rintro _ ⟨⟩
      exact .named ⟨ht, Bool.eq_false_iff.mpr hattribute, Bool.eq_false_iff.mpr hignored⟩
  | _ => exact pure_scans hs

theorem tagSpecifier_scans (ih : AllScan steps) :
    Scans (tagSpecifier (steps + 1)) fun r => r.1.Scanned ∧ r.2.Scanned := by
  unfold tagSpecifier
  refine position_scans.bind fun start _ => token_scans.bind fun keyword _ => ?_
  refine advance_scans.bind fun _ _ => (tagName_scans (steps + 1)).bind fun name hname => ?_
  have hbase := Base.scanned_ofTag hname keyword
  refine token_scans.bind fun t _ => .ite ?_ ?_
  · intro _
    refine .ite ?_ ?_
    · intro _
      refine (structureBody_scans fun opened _ hs => ih.members opened hs).bind fun s hs => ?_
      exact (defineTag_scans hname hs).bind fun tag htag => pure_scans ⟨hbase, htag⟩
    · intro _
      exact discardGroup_scans.bind fun _ _ => pure_scans ⟨hbase, trivial⟩
  · intro _
    cases name with
    | none => exact malformed_scans _
    | some name =>
      refine pure_scans ⟨hbase, ?_⟩
      dsimp only
      split
      · exact (hname name rfl).toIsName
      · trivial

theorem members_scans (ih : AllScan steps) (opened : Position) {tag : String} {s : Structure}
    (hs : s.ScannedAs tag) : Scans (members (steps + 1) opened s) (·.ScannedAs tag) := by
  unfold members
  refine (accept_scans .closeBrace).bind fun closed _ => .ite (fun _ => pure_scans hs) ?_
  intro _
  refine token_scans.bind fun t _ => .ite (fun _ => fatal_scans _ _) fun _ => ?_
  refine (accept_scans .semicolon).bind fun ended _ => .ite (fun _ => ih.members opened hs) ?_
  intro _
  unfold atMarker
  rw [bind_assoc]
  refine noteRules_scans.bind fun rules _ => (ahead_scans _).bind fun isMarker _ => .ite ?_ ?_
  · intro _
    exact marker_scans.bind fun note _ => ih.members opened ⟨hs.name, hs.fields⟩
  · intro _
    exact (ih.member hs).bind fun s hs => ih.members opened hs

theorem member_scans (ih : AllScan steps) {tag : String} {s : Structure} (hs : s.ScannedAs tag) :
    Scans (member (steps + 1) s) (·.ScannedAs tag) := by
  unfold member
  refine ih.specifiers.bind fun specifiers hspecifiers => ?_
  refine (accept_scans .semicolon).bind fun ended _ => .ite (fun _ => ?_) ?_
  · have htag := hspecifiers.tag
    cases huse : specifiers.tag with
    | anonymous inner =>
      rw [huse] at htag
      refine pure_scans ⟨hs.name, fun field hfield => ?_⟩
      exact (List.mem_append.mp hfield).elim (hs.fields field) (htag field)
    | _ => exact pure_scans hs
  · exact fun _ => ih.memberDeclarators hspecifiers.type hs

theorem memberDeclarators_scans (ih : AllScan steps) {base : CType} {tag : String} {s : Structure}
    (hbase : base.Scanned) (hs : s.ScannedAs tag) :
    Scans (memberDeclarators (steps + 1) base s) (·.ScannedAs tag) := by
  unfold memberDeclarators
  refine (memberHead_scans hbase (ih.declarator false)).bind fun head hhead => ?_
  refine (expressionBehind?_scans .colon).bind fun width hwidth => ?_
  have hmore := hs.addMember hhead.1 hhead.2 hwidth
  refine (skipAttributes_scans (steps + 1)).bind fun _ _ => ?_
  refine (accept_scans .comma).bind fun more _ =>
    .ite (fun _ => ih.memberDeclarators hbase hmore) fun _ => ?_
  exact (expect_scans .semicolon _).bind fun _ _ => pure_scans hmore

theorem specifiers_scans (ih : AllScan steps) :
    Scans (specifiers (steps + 1)) Specifiers.Scanned := by
  have hempty : SpecifierWords.empty.Scanned :=
    ⟨fun _ hword => absurd hword List.not_mem_nil, fun _ hbase => absurd hbase nofun, trivial⟩
  unfold specifiers
  refine (ih.specifierWords hempty).bind fun words hwords => ?_
  cases hspecifiers : words.specifiers? with
  | none => exact unexpected_scans _
  | some specifiers => exact pure_scans (hwords.specifiers hspecifiers)

theorem declarator_scans (ih : AllScan steps) (abstract : Bool) :
    Scans (declarator (steps + 1) abstract) Declarator.Scanned := by
  unfold declarator
  refine (pointers_scans (steps + 1) 0).bind fun count _ => ?_
  refine (declaratorHead_scans (ih.declarator abstract)).bind fun inner hinner => ?_
  refine (ih.declaratorSuffixes hinner.ops).bind fun ops hops => pure_scans ⟨hinner.name, ?_⟩
  intro op hop
  rcases List.mem_append.mp hop with hop | hop
  · exact hops op hop
  · rw [List.eq_of_mem_replicate hop]
    trivial

theorem declaratorSuffixes_scans (ih : AllScan steps) {ops : List DeclaratorOp}
    (hops : ∀ op ∈ ops, op.Scanned) :
    Scans (declaratorSuffixes (steps + 1) ops) fun ops => ∀ op ∈ ops, op.Scanned := by
  have hmore : ∀ {op : DeclaratorOp}, op.Scanned → ∀ other ∈ ops ++ [op], other.Scanned := by
    intro op hop other hother
    rcases List.mem_append.mp hother with hother | hother
    · exact hops other hother
    · rw [List.mem_singleton.mp hother]
      exact hop
  unfold declaratorSuffixes
  refine token_scans.bind fun t _ => ?_
  cases t with
  | openBracket =>
    refine group_scans.bind fun inner hinner => ih.declaratorSuffixes (hmore ?_)
    exact Lexeme.scannedSize_join hinner.1 hinner.2
  | openParen =>
    refine (modifyKind_scans fun kind => if kind = .variable then .function else kind).bind ?_
    intro _ _
    exact ih.parameters.bind fun params hparams => ih.declaratorSuffixes (hmore hparams)
  | _ => exact pure_scans hops

theorem parameters_scans (ih : AllScan steps) :
    Scans (parameters (steps + 1)) ParamList.Scanned := by
  have hempty : ParamList.Scanned ⟨[], false⟩ := fun _ hparam => absurd hparam List.not_mem_nil
  unfold parameters
  refine advance_scans.bind fun _ _ => (accept_scans .closeParen).bind fun closed _ => ?_
  refine .ite (fun _ => pure_scans hempty) fun _ => ?_
  refine (ahead_scans endsVoid).bind fun isVoid _ => .ite ?_ fun _ => ih.parameterList hempty
  intro _
  exact advance_scans.bind fun _ _ => advance_scans.bind fun _ _ => pure_scans hempty

theorem parameterList_scans (ih : AllScan steps) {params : List Param}
    (hparams : ParamList.Scanned ⟨params, false⟩) :
    Scans (parameterList (steps + 1) params) ParamList.Scanned := by
  unfold parameterList
  refine (accept_scans .ellipsis).bind fun variadic _ => .ite ?_ ?_
  · intro _
    exact (expect_scans .closeParen _).bind fun _ _ => pure_scans hparams
  · intro _
    refine ih.specifiers.bind fun specifiers hspecifiers => ?_
    refine (ih.declarator true).bind fun declarator hdeclarator => ?_
    refine resolved_scans.bind fun declared hdeclared => ?_
    refine (skipAttributes_scans (steps + 1)).bind fun _ _ => ?_
    have hmore : ParamList.Scanned ⟨params ++ [⟨declarator.name, declared.decayed⟩], false⟩ := by
      intro param hparam
      rcases List.mem_append.mp hparam with hparam | hparam
      · exact hparams param hparam
      · rw [List.mem_singleton.mp hparam]
        refine ⟨Declared.scanned_decayed ?_, fun name hname => (hdeclarator.name name hname).toIsName⟩
        exact Declared.scanned_ofOps hspecifiers.type hdeclarator.ops hdeclared
    refine (accept_scans .comma).bind fun more _ => .ite (fun _ => ih.parameterList hmore) ?_
    intro _
    exact (expect_scans .closeParen _).bind fun _ _ => pure_scans hmore

end

/-- Each reader goes down one step to the others, so that one induction on the steps covers them
all. -/
theorem allScan (steps : Nat) : AllScan steps := by
  induction steps with
  | zero =>
    constructor <;> intros <;> exact outOfSteps_scans
  | succ steps ih =>
    exact {
      specifierWords := specifierWords_scans ih
      tagSpecifier := tagSpecifier_scans ih
      members := members_scans ih
      member := member_scans ih
      memberDeclarators := memberDeclarators_scans ih
      specifiers := specifiers_scans ih
      declarator := declarator_scans ih
      declaratorSuffixes := declaratorSuffixes_scans ih
      parameters := parameters_scans ih
      parameterList := parameterList_scans ih }

end Reader

end RemoteCalls
