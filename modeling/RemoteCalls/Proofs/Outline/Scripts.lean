import Mathlib.Tactic.Choose
import RemoteCalls.Outline
import RemoteCalls.Proofs.Outline.Lookahead
import RemoteCalls.Proofs.Token.Indexed

/-!
# Readers as scripts

A script is written out of the steps that a reader can take: to look at the two tokens in front, to
take one lexeme, a group or an expression, to note something down, and to fail. It can be read on
the lexemes that are left, which gives a reader, and it can be run on the index of a token, where
every step is checked. A run from an index of the row makes no step that is not allowed, and comes to
what the reader comes to. All readers are such scripts.
-/

namespace RemoteCalls.Indexed

variable {α β : Type}

/-! ### Scripts -/

/-- What can be seen without moving: the two tokens in front, the position of the first one, and what
is noted down. -/
structure View where
  setting : Setting
  token : Token
  next : Token
  position : Position
  kind : DeclKind
  tags : List Structure

/-- A reader, written out of its steps. -/
inductive Script : Type → Type 1 where
  | done {α : Type} (a : α) : Script α
  | fail {α : Type} (failure : Failure) : Script α
  | look : Script View
  | note (kind : DeclKind) (tags : List Structure) : Script Unit
  | advance : Script Unit
  | skipQualifiers : Script Unit
  | close : Script (Option (List Lexeme))
  | expression : Script (Except Position (List Lexeme))
  | bind {α β : Type} (first : Script α) (next : α → Script β) : Script β

/-- Where a run stands: the index of a token, and what is noted down. -/
structure Spot where
  index : Nat
  kind : DeclKind
  tags : List Structure

/-- The same place with the lexemes that are left. -/
def Spot.cursor (row : List Lexeme) (spot : Spot) : Cursor :=
  ⟨row.drop spot.index, spot.kind, spot.tags⟩

/-- Whether a lexeme is a qualifier. -/
def isQualifier (lexeme : Lexeme) : Bool :=
  lexeme.token matches .qualifier _

/-- What is seen of two slots of a row. -/
def View.of (setting : Setting) (front next : Option Lexeme) (spot : Spot) : View :=
  ⟨setting, (front.map Lexeme.token).getD .endOfFile, (next.map Lexeme.token).getD .endOfFile,
    (front.map Lexeme.position).getD setting.finish, spot.kind, spot.tags⟩

namespace Script

/-- The reader that a script stands for. -/
def reader : {α : Type} → Script α → Reader α
  | _, done a => pure a
  | _, fail failure => throw failure
  | _, look => fun setting cursor =>
    .ok (⟨setting, Reader.headToken cursor.rest, Reader.headToken cursor.rest.tail,
      Reader.headPosition setting.finish cursor.rest, cursor.kind, cursor.tags⟩, cursor)
  | _, note kind tags => fun _ cursor => .ok ((), ⟨cursor.rest, kind, tags⟩)
  | _, advance => Reader.advance
  | _, skipQualifiers => Reader.skipQualifiers
  | _, close => fun _ cursor =>
    match Lexeme.splitGroup 0 cursor.rest with
    | some (inner, behind) => .ok (some inner, { cursor with rest := behind })
    | none => .ok (none, cursor)
  | _, expression => fun setting cursor =>
    match Lexeme.splitExpression 0 (Reader.headPosition setting.finish cursor.rest)
        cursor.rest with
    | .ok (inner, behind) => .ok (.ok inner, { cursor with rest := behind })
    | .error opened => .ok (.error opened, cursor)
  | _, bind first next => reader first >>= fun a => reader (next a)

/-- A run of a script from an index of a row. The end of the row is not left behind. -/
def run (setting : Setting) (row : List Lexeme) :
    {α : Type} → Script α → Spot → Option (Except Failure (α × Spot))
  | _, done a, spot => some (.ok (a, spot))
  | _, fail failure, _ => some (.error failure)
  | _, look, spot => do
    let front ← slot? row spot.index
    return .ok (.of setting front row[spot.index + 1]? spot, spot)
  | _, note kind tags, spot => some (.ok ((), ⟨spot.index, kind, tags⟩))
  | _, advance, spot => do
    match ← slot? row spot.index with
    | some _ => return .ok ((), { spot with index := spot.index + 1 })
    | none => return .ok ((), spot)
  | _, skipQualifiers, spot => do
    let stop ← loop (runTurn isQualifier) row spot.index ()
    return .ok ((), { spot with index := stop })
  | _, close, spot => do
    match ← group? row spot.index with
    | some (inner, stop) => return .ok (some inner, { spot with index := stop })
    | none => return .ok (none, spot)
  | _, expression, spot => do
    let front ← slot? row spot.index
    match ← expression? row spot.index (View.of setting front none spot).position with
    | .ok (inner, stop) => return .ok (.ok inner, { spot with index := stop })
    | .error opened => return .ok (.error opened, spot)
  | _, bind first next, spot => do
    match ← run setting row first spot with
    | .ok (a, spot) => run setting row (next a) spot
    | .error failure => return .error failure

end Script

/-- What a run comes to: the result of a reader, at an index of the row that is not in front of the
one where it began. -/
structure Agrees (row : List Lexeme) (spot : Spot) (result : Except Failure (α × Spot))
    (read : Except Failure (α × Cursor)) : Prop where
  same : result.map (Prod.map id (Spot.cursor row)) = read
  within : ∀ a next, result = .ok (a, next) → spot.index ≤ next.index ∧ next.index ≤ row.length

theorem headToken_eq (row : List Lexeme) :
    (row.head?.map Lexeme.token).getD .endOfFile = Reader.headToken row := by
  cases row <;> rfl

theorem headPosition_eq (finish : Position) (row : List Lexeme) :
    (row.head?.map Lexeme.position).getD finish = Reader.headPosition finish row := by
  cases row <;> rfl

theorem Agrees.stay {row : List Lexeme} {spot : Spot} (h : spot.index ≤ row.length)
    (next : Spot) (hnext : next.index = spot.index) (a : α) :
    Agrees row spot (.ok (a, next)) (.ok (a, next.cursor row)) := by
  refine ⟨rfl, fun b last hlast => ?_⟩
  cases hlast
  rw [hnext]
  exact ⟨Nat.le_refl _, h⟩

/-- What stands at an index is what a reader has in front of it. -/
theorem view_eq (setting : Setting) (row : List Lexeme) (spot : Spot) :
    View.of setting (row.drop spot.index).head? row[spot.index + 1]? spot =
      ⟨setting, Reader.headToken (spot.cursor row).rest, Reader.headToken (spot.cursor row).rest.tail,
        Reader.headPosition setting.finish (spot.cursor row).rest, spot.kind, spot.tags⟩ := by
  have hnext : row[spot.index + 1]? = (row.drop spot.index).tail.head? := by
    rw [List.tail_drop, List.head?_drop]
  rw [View.of, hnext, headToken_eq, headToken_eq, headPosition_eq]
  rfl

/-- A run from an index of a row makes no step that is not allowed, and comes to what the reader
comes to. -/
theorem Script.run_agrees (setting : Setting) (row : List Lexeme) (script : Script α)
    {spot : Spot} (h : spot.index ≤ row.length) :
    ∃ result, script.run setting row spot = some result ∧
      Agrees row spot result (script.reader setting (spot.cursor row)) := by
  induction script generalizing spot with
  | done a => exact ⟨_, rfl, .stay h spot rfl a⟩
  | fail failure => exact ⟨_, rfl, rfl, fun _ _ herror => by cases herror⟩
  | look =>
    refine ⟨_, by rw [run, slot?_of_le h]; rfl, ?_⟩
    rw [view_eq]
    exact .stay h spot rfl _
  | note kind tags => exact ⟨_, rfl, .stay h ⟨spot.index, kind, tags⟩ rfl ()⟩
  | advance =>
    rw [run, slot?_of_le h]
    cases hrow : row.drop spot.index with
    | nil =>
      refine ⟨.ok ((), spot), rfl, ?_, ?_⟩
      · change _ = Except.ok ((), Cursor.mk (row.drop spot.index).tail spot.kind spot.tags)
        rw [hrow]
        exact congrArg (fun rest => Except.ok ((), Cursor.mk rest spot.kind spot.tags)) hrow
      · exact (Agrees.stay h spot rfl ()).within
    | cons lexeme rest =>
      refine ⟨.ok ((), { spot with index := spot.index + 1 }), rfl, ?_, ?_⟩
      · change _ = Except.ok ((), Cursor.mk (row.drop spot.index).tail spot.kind spot.tags)
        rw [List.tail_drop]
        rfl
      · intro _ next hnext
        cases hnext
        exact ⟨Nat.le_succ _, length_lt_of_drop hrow⟩
  | skipQualifiers =>
    obtain ⟨hrest, hlength⟩ := drop_run isQualifier h
    refine ⟨_, by rw [run, loop_runTurn _ row h]; rfl, ?_, ?_⟩
    · exact congrArg (fun rest => Except.ok ((), Cursor.mk rest spot.kind spot.tags)) hrest
    · intro _ next hnext
      cases hnext
      exact ⟨Nat.le_add_right _ _, hlength⟩
  | close =>
    obtain ⟨found, hfound, hmap, hbound⟩ := group?_eq h
    have hsplit : Lexeme.splitGroup 0 (spot.cursor row).rest =
        found.map (Prod.map id row.drop) := hmap.symm
    simp only [run, hfound, reader, hsplit]
    cases found with
    | none => exact ⟨_, rfl, .stay h spot rfl none⟩
    | some split =>
      obtain ⟨hless, hlength⟩ := hbound split rfl
      refine ⟨.ok (some split.1, { spot with index := split.2 }), rfl, rfl, ?_⟩
      intro _ next hnext
      cases hnext
      exact ⟨Nat.le_of_lt hless, hlength⟩
  | expression =>
    obtain ⟨found, hfound, hmap, hbound⟩ :=
      expression?_eq h (Reader.headPosition setting.finish (row.drop spot.index))
    have hposition : (View.of setting (row.drop spot.index).head? none spot).position =
        Reader.headPosition setting.finish (row.drop spot.index) := headPosition_eq _ _
    have hsplit : Lexeme.splitExpression 0
        (Reader.headPosition setting.finish (spot.cursor row).rest) (spot.cursor row).rest =
          found.map (Prod.map id row.drop) := hmap.symm
    simp only [run, slot?_of_le h, Option.bind_eq_bind, Option.bind_some, hposition, hfound,
      reader, hsplit]
    cases found with
    | error opened => exact ⟨_, rfl, .stay h spot rfl (Except.error opened)⟩
    | ok split =>
      obtain ⟨hless, hlength⟩ := hbound split rfl
      refine ⟨.ok (.ok split.1, { spot with index := split.2 }), rfl, rfl, ?_⟩
      intro _ next hnext
      cases hnext
      exact ⟨hless, hlength⟩
  | bind first next ihfirst ihnext =>
    obtain ⟨result, hrun, hsame, hwithin⟩ := ihfirst h
    rw [reader, Reader.bind_apply, ← hsame, run, hrun]
    cases result with
    | error failure => exact ⟨_, rfl, rfl, fun _ _ herror => by cases herror⟩
    | ok result =>
      obtain ⟨a, middle⟩ := result
      obtain ⟨hless, hlength⟩ := hwithin a middle rfl
      obtain ⟨last, hlast, hsame', hwithin'⟩ := ihnext a hlength
      refine ⟨last, hlast, hsame', fun b behind hbehind => ?_⟩
      obtain ⟨hless', hlength'⟩ := hwithin' b behind hbehind
      exact ⟨Nat.le_trans hless hless', hlength'⟩

/-! ### Readers that are scripts -/

/-- A reader `narrow` is a script, and `wide`, which may take more steps, comes to the same as
`narrow` unless `narrow` runs out of steps. -/
structure Scripted (narrow wide : Reader α) : Prop where
  script : ∃ script : Script α, script.reader = narrow
  wide : ∀ setting cursor, narrow setting cursor = .error .outOfSteps ∨
    narrow setting cursor = wide setting cursor

namespace Scripted

/-- The reader of a script. -/
theorem of_script {m : Reader α} (script : Script α) (h : script.reader = m) : Scripted m m :=
  ⟨⟨script, h⟩, fun _ _ => .inr rfl⟩

theorem outOfSteps (m : Reader α) : Scripted (throw .outOfSteps) m :=
  ⟨⟨.fail .outOfSteps, rfl⟩, fun _ _ => .inl rfl⟩

theorem bind {narrow wide : Reader α} {f g : α → Reader β} (h : Scripted narrow wide)
    (hnext : ∀ a, Scripted (f a) (g a)) : Scripted (narrow >>= f) (wide >>= g) := by
  obtain ⟨first, rfl⟩ := h.script
  choose next hreader using fun a => (hnext a).script
  refine ⟨⟨first.bind next, ?_⟩, fun setting cursor => ?_⟩
  · exact congrArg (first.reader >>= ·) (funext hreader)
  · rw [Reader.bind_apply, Reader.bind_apply]
    rcases h.wide setting cursor with hout | hsame
    · rw [hout]
      exact .inl rfl
    · rw [← hsame]
      cases first.reader setting cursor with
      | error failure => exact .inr rfl
      | ok result => exact (hnext result.1).wide setting result.2

theorem ite {c : Prop} [Decidable c] {yes no yes' no' : Reader α} (hyes : Scripted yes yes')
    (hno : Scripted no no') : Scripted (if c then yes else no) (if c then yes' else no') := by
  split
  · exact hyes
  · exact hno

end Scripted

section

open Reader

variable {steps more : Nat}

/-- What is seen without moving. -/
theorem look_scripted (see : View → α) :
    Scripted (Script.look.bind fun view => .done (see view)).reader
      (Script.look.bind fun view => .done (see view)).reader :=
  .of_script _ rfl

theorem pure_scripted (a : α) : Scripted (pure a : Reader α) (pure a) :=
  .of_script (.done a) rfl

theorem token_scripted : Scripted token token :=
  look_scripted View.token

theorem position_scripted : Scripted position position :=
  look_scripted View.position

theorem kind_scripted : Scripted kind kind :=
  look_scripted View.kind

theorem origin_scripted : Scripted origin origin :=
  look_scripted fun view => view.setting.origin

theorem noteRules_scripted : Scripted noteRules noteRules :=
  look_scripted fun view => view.setting.rules

theorem placeAt_scripted (position : Position) : Scripted (placeAt position) (placeAt position) :=
  look_scripted fun view => view.setting.place position

theorem ahead_scripted (look : Token → Token → Bool) : Scripted (ahead look) (ahead look) :=
  look_scripted fun view => look view.token view.next

theorem throw_scripted (failure : Failure) :
    Scripted (throw failure : Reader α) (throw failure) :=
  .of_script (.fail failure) rfl

theorem malformed_scripted (reason : Reason) :
    Scripted (malformed reason : Reader α) (malformed reason) :=
  .of_script (Script.look.bind fun view =>
    .fail (.malformed ⟨view.setting.place view.position, some view.kind, reason⟩)) rfl

theorem fatal_scripted (position : Position) (reason : Reason) :
    Scripted (fatal position reason : Reader α) (fatal position reason) :=
  .of_script (Script.look.bind fun view =>
    .fail (.fatal ⟨view.setting.place position, none, reason⟩)) rfl

theorem unexpected_scripted (what : Expectation) :
    Scripted (unexpected what : Reader α) (unexpected what) :=
  token_scripted.bind fun _ => malformed_scripted _

theorem note_scripted (change : DeclKind → List Structure → DeclKind × List Structure) :
    Scripted
      (modify fun cursor => ⟨cursor.rest, (change cursor.kind cursor.tags).1,
        (change cursor.kind cursor.tags).2⟩ : Reader Unit)
      (modify fun cursor => ⟨cursor.rest, (change cursor.kind cursor.tags).1,
        (change cursor.kind cursor.tags).2⟩) :=
  .of_script (Script.look.bind fun view =>
    .note (change view.kind view.tags).1 (change view.kind view.tags).2) rfl

theorem advance_scripted : Scripted advance advance :=
  .of_script .advance rfl

theorem skipQualifiers_scripted : Scripted skipQualifiers skipQualifiers :=
  .of_script .skipQualifiers rfl

theorem group_scripted : Scripted group group := by
  refine .of_script (Script.look.bind fun view => Script.advance.bind fun _ =>
    Script.close.bind fun
      | some inner => .done inner
      | none => .fail (.fatal ⟨view.setting.place view.position, none,
          .unbalancedGroup view.token⟩)) ?_
  funext setting cursor
  rw [group_apply]
  change (Script.close.bind _).reader setting { cursor with rest := cursor.rest.tail } = _
  rw [Script.reader, bind_apply]
  have hclose : Script.close.reader setting { cursor with rest := cursor.rest.tail } =
      match Lexeme.splitGroup 0 cursor.rest.tail with
      | some (inner, behind) => .ok (some inner, { cursor with rest := behind })
      | none => .ok (none, { cursor with rest := cursor.rest.tail }) := rfl
  rw [hclose]
  cases Lexeme.splitGroup 0 cursor.rest.tail <;> rfl

theorem expression_scripted : Scripted Reader.expression Reader.expression := by
  refine .of_script (Script.expression.bind fun
    | .error opened => Script.look.bind fun view =>
        .fail (.fatal ⟨view.setting.place opened, none, .unbalancedInitializer⟩)
    | .ok inner =>
      if (Lexeme.join inner).isEmpty then Script.look.bind fun view =>
        .fail (.malformed ⟨view.setting.place view.position, some view.kind,
          .expected .expression view.token⟩)
      else .done (Lexeme.join inner)) ?_
  funext setting cursor
  rw [expression_apply, Script.reader, bind_apply]
  have hread : Script.expression.reader setting cursor =
      match Lexeme.splitExpression 0 (headPosition setting.finish cursor.rest) cursor.rest with
      | .ok (inner, behind) => .ok (.ok inner, { cursor with rest := behind })
      | .error opened => .ok (.error opened, cursor) := rfl
  rw [hread]
  cases Lexeme.splitExpression 0 (headPosition setting.finish cursor.rest) cursor.rest with
  | error opened => rfl
  | ok split =>
    dsimp only
    split <;> rfl

/-! ### Small compositions -/

theorem accept_scripted (wanted : Token) : Scripted (accept wanted) (accept wanted) :=
  token_scripted.bind fun _ =>
    .ite (advance_scripted.bind fun _ => pure_scripted true) (pure_scripted false)

theorem discard_scripted {narrow wide : Reader α} (h : Scripted narrow wide) :
    Scripted (Functor.discard narrow) (Functor.discard wide) := by
  rw [discard_eq, discard_eq]
  exact h.bind fun _ => pure_scripted ()

theorem expect_scripted (wanted : Token) (what : Expectation) :
    Scripted (expect wanted what) (expect wanted what) :=
  (accept_scripted wanted).bind fun taken => by
    cases taken
    · exact unexpected_scripted what
    · exact pure_scripted _

theorem endStatement_scripted (a : α) : Scripted (endStatement a) (endStatement a) :=
  (discard_scripted (accept_scripted .semicolon)).bind fun _ => pure_scripted a

theorem expressionBehind?_scripted (mark : Token) :
    Scripted (expressionBehind? mark) (expressionBehind? mark) :=
  (accept_scripted mark).bind fun _ =>
    .ite (expression_scripted.bind fun _ => pure_scripted _) (pure_scripted none)

theorem name?_scripted : Scripted name? name? := by
  unfold name?
  refine token_scripted.bind fun t => ?_
  cases t with
  | identifier name => exact advance_scripted.bind fun _ => pure_scripted _
  | _ => exact pure_scripted none

theorem skipAttribute_scripted : Scripted skipAttribute skipAttribute :=
  advance_scripted.bind fun _ => token_scripted.bind fun _ =>
    .ite (discard_scripted group_scripted) (pure_scripted _)

theorem skipAttributes_scripted (h : steps ≤ more) :
    Scripted (skipAttributes steps) (skipAttributes more) := by
  induction steps generalizing more with
  | zero => exact .outOfSteps _
  | succ steps ih =>
    obtain ⟨more, rfl⟩ := Nat.exists_eq_add_of_le' (Nat.one_le_of_lt h)
    exact token_scripted.bind fun _ =>
      .ite (skipAttribute_scripted.bind fun _ => ih (Nat.le_of_succ_le_succ h)) (pure_scripted _)

theorem pointers_scripted (h : steps ≤ more) (count : Nat) :
    Scripted (pointers steps count) (pointers more count) := by
  induction steps generalizing more count with
  | zero => exact .outOfSteps _
  | succ steps ih =>
    obtain ⟨more, rfl⟩ := Nat.exists_eq_add_of_le' (Nat.one_le_of_lt h)
    exact (accept_scripted .star).bind fun _ =>
      .ite (skipQualifiers_scripted.bind fun _ => (skipAttributes_scripted h).bind fun _ =>
        ih (Nat.le_of_succ_le_succ h) _) (pure_scripted count)

theorem markerNote_scripted : Scripted markerNote markerNote :=
  token_scripted.bind fun _ => (ahead_scripted _).bind fun _ =>
    .ite (advance_scripted.bind fun _ => group_scripted.bind fun _ => pure_scripted _)
      (advance_scripted.bind fun _ => pure_scripted _)

theorem marker_scripted : Scripted marker marker :=
  markerNote_scripted.bind endStatement_scripted

theorem atMarker_scripted : Scripted atMarker atMarker :=
  noteRules_scripted.bind fun _ => ahead_scripted _

theorem tagName_scripted (h : steps ≤ more) : Scripted (tagName steps) (tagName more) :=
  (skipAttributes_scripted h).bind fun _ => name?_scripted.bind fun _ =>
    (skipAttributes_scripted h).bind fun _ => pure_scripted _

theorem setKind_scripted (kind : DeclKind) : Scripted (setKind kind) (setKind kind) :=
  note_scripted fun _ tags => (kind, tags)

theorem nameFunction_scripted : Scripted nameFunction nameFunction :=
  note_scripted fun kind tags => (if kind = .variable then .function else kind, tags)

theorem structureBody_scripted {start : Position} {tag : String}
    {narrow wide : Position → Structure → Reader Structure}
    (h : ∀ opened s, Scripted (narrow opened s) (wide opened s)) :
    Scripted (structureBody start tag narrow) (structureBody start tag wide) :=
  kind_scripted.bind fun outer => (setKind_scripted .struct).bind fun _ =>
    position_scripted.bind fun opened => advance_scripted.bind fun _ =>
      (placeAt_scripted start).bind fun _ => origin_scripted.bind fun _ =>
        (h opened _).bind fun _ => (setKind_scripted outer).bind fun _ => pure_scripted _

theorem defineTag_scripted (name : Option String) (s : Structure) :
    Scripted (defineTag name s) (defineTag name s) :=
  .ite ((note_scripted fun kind tags => (kind, tags ++ [s])).bind fun _ => pure_scripted _)
    (pure_scripted _)

theorem resolved_scripted (result : Except DeclaratorFault α) :
    Scripted (resolved result) (resolved result) := by
  cases result with
  | ok a => exact pure_scripted a
  | error fault => exact malformed_scripted _

theorem memberHead_scripted {base : CType} {narrow wide : Reader Declarator}
    (h : Scripted narrow wide) : Scripted (memberHead base narrow) (memberHead base wide) := by
  refine token_scripted.bind fun _ => .ite (pure_scripted _) ?_
  refine h.bind fun declarator => (resolved_scripted _).bind fun meaning => ?_
  cases meaning with
  | object type => exact pure_scripted _
  | function result params => exact malformed_scripted _

theorem nameless_scripted (abstract : Bool) : Scripted (nameless abstract) (nameless abstract) :=
  .ite (pure_scripted _) (unexpected_scripted _)

theorem declaratorHead_scripted {abstract : Bool} {narrow wide : Reader Declarator}
    (h : Scripted narrow wide) :
    Scripted (declaratorHead abstract narrow) (declaratorHead abstract wide) := by
  refine (ahead_scripted _).bind fun _ => .ite ?_ ?_
  · exact advance_scripted.bind fun _ => h.bind fun _ =>
      (expect_scripted _ _).bind fun _ => pure_scripted _
  · refine token_scripted.bind fun t => ?_
    cases t with
    | identifier name =>
      exact .ite (nameless_scripted abstract) (advance_scripted.bind fun _ => pure_scripted _)
    | _ => exact nameless_scripted abstract

/-! ### The readers that call each other -/

/-- The readers of declarations are scripts, and take the same lexemes with more steps. -/
structure AllScripted (steps more : Nat) : Prop where
  le : steps ≤ more
  specifierWords : ∀ s, Scripted (specifierWords steps s) (specifierWords more s)
  tagSpecifier : Scripted (tagSpecifier steps) (tagSpecifier more)
  members : ∀ opened s, Scripted (members steps opened s) (members more opened s)
  member : ∀ s, Scripted (member steps s) (member more s)
  memberDeclarators : ∀ base s,
    Scripted (memberDeclarators steps base s) (memberDeclarators more base s)
  specifiers : Scripted (specifiers steps) (specifiers more)
  declarator : ∀ abstract, Scripted (declarator steps abstract) (declarator more abstract)
  declaratorSuffixes : ∀ ops,
    Scripted (declaratorSuffixes steps ops) (declaratorSuffixes more ops)
  parameters : Scripted (parameters steps) (parameters more)
  parameterList : ∀ params, Scripted (parameterList steps params) (parameterList more params)

theorem specifierWords_scripted (ih : AllScripted steps more) (s : SpecifierWords) :
    Scripted (specifierWords (steps + 1) s) (specifierWords (more + 1) s) := by
  unfold specifierWords
  refine token_scripted.bind fun t => ?_
  have hword : ∀ s', Scripted (do advance; specifierWords steps s')
      (do advance; specifierWords more s') :=
    fun s' => advance_scripted.bind fun _ => ih.specifierWords s'
  have htag : Scripted
      (if s.hasType then malformed .twoTypes
        else do
          let r ← tagSpecifier steps
          specifierWords steps { s with base := some r.1, tag := r.2 })
      (if s.hasType then malformed .twoTypes
        else do
          let r ← tagSpecifier more
          specifierWords more { s with base := some r.1, tag := r.2 }) :=
    .ite (malformed_scripted _) (ih.tagSpecifier.bind fun _ => ih.specifierWords _)
  cases t with
  | storage word => exact hword _
  | qualifier word => exact hword _
  | typedef => exact hword _
  | builtin word => exact .ite (malformed_scripted _) (hword _)
  | struct => exact htag
  | union => exact htag
  | enum => exact htag
  | identifier word =>
    refine .ite (skipAttribute_scripted.bind fun _ => ih.specifierWords s) (.ite (hword s) ?_)
    exact .ite (pure_scripted s) (hword _)
  | _ => exact pure_scripted s

theorem tagSpecifier_scripted (ih : AllScripted steps more) :
    Scripted (tagSpecifier (steps + 1)) (tagSpecifier (more + 1)) := by
  unfold tagSpecifier
  refine position_scripted.bind fun start => token_scripted.bind fun keyword =>
    advance_scripted.bind fun _ => (tagName_scripted (Nat.succ_le_succ ih.le)).bind fun name =>
      token_scripted.bind fun _ => .ite (.ite ?_ ?_) ?_
  · exact (structureBody_scripted ih.members).bind fun s =>
      (defineTag_scripted name s).bind fun _ => pure_scripted _
  · exact (discard_scripted group_scripted).bind fun _ => pure_scripted _
  · cases name with
    | none => exact malformed_scripted _
    | some name => exact pure_scripted _

theorem members_scripted (ih : AllScripted steps more) (opened : Position) (s : Structure) :
    Scripted (members (steps + 1) opened s) (members (more + 1) opened s) := by
  unfold members
  refine (accept_scripted _).bind fun _ => .ite (pure_scripted s) ?_
  refine token_scripted.bind fun _ => .ite (fatal_scripted _ _) ?_
  refine (accept_scripted _).bind fun _ => .ite (ih.members opened s) ?_
  refine atMarker_scripted.bind fun _ => .ite ?_ ?_
  · exact marker_scripted.bind fun _ => ih.members opened _
  · exact (ih.member s).bind fun _ => ih.members opened _

theorem member_scripted (ih : AllScripted steps more) (s : Structure) :
    Scripted (member (steps + 1) s) (member (more + 1) s) := by
  unfold member
  refine ih.specifiers.bind fun specifiers => (accept_scripted _).bind fun _ =>
    .ite ?_ (ih.memberDeclarators _ s)
  cases specifiers.tag with
  | anonymous inner => exact pure_scripted _
  | _ => exact pure_scripted _

theorem memberDeclarators_scripted (ih : AllScripted steps more) (base : CType) (s : Structure) :
    Scripted (memberDeclarators (steps + 1) base s) (memberDeclarators (more + 1) base s) := by
  unfold memberDeclarators
  refine (memberHead_scripted (ih.declarator false)).bind fun head =>
    (expressionBehind?_scripted _).bind fun width =>
      (skipAttributes_scripted (Nat.succ_le_succ ih.le)).bind fun _ =>
        (accept_scripted _).bind fun _ => .ite (ih.memberDeclarators base _) ?_
  exact (expect_scripted _ _).bind fun _ => pure_scripted _

theorem specifiers_scripted (ih : AllScripted steps more) :
    Scripted (specifiers (steps + 1)) (specifiers (more + 1)) := by
  unfold specifiers
  refine (ih.specifierWords _).bind fun words => ?_
  cases words.specifiers? with
  | none => exact unexpected_scripted _
  | some specifiers => exact pure_scripted _

theorem declarator_scripted (ih : AllScripted steps more) (abstract : Bool) :
    Scripted (declarator (steps + 1) abstract) (declarator (more + 1) abstract) :=
  (pointers_scripted (Nat.succ_le_succ ih.le) 0).bind fun _ =>
    (declaratorHead_scripted (ih.declarator abstract)).bind fun inner =>
      (ih.declaratorSuffixes inner.ops).bind fun _ => pure_scripted _

theorem declaratorSuffixes_scripted (ih : AllScripted steps more) (ops : List DeclaratorOp) :
    Scripted (declaratorSuffixes (steps + 1) ops) (declaratorSuffixes (more + 1) ops) := by
  unfold declaratorSuffixes
  refine token_scripted.bind fun t => ?_
  cases t with
  | openBracket => exact group_scripted.bind fun _ => ih.declaratorSuffixes _
  | openParen =>
    exact nameFunction_scripted.bind fun _ => ih.parameters.bind fun _ => ih.declaratorSuffixes _
  | _ => exact pure_scripted ops

theorem parameters_scripted (ih : AllScripted steps more) :
    Scripted (parameters (steps + 1)) (parameters (more + 1)) :=
  advance_scripted.bind fun _ => (accept_scripted _).bind fun _ => .ite (pure_scripted _)
    ((ahead_scripted _).bind fun _ =>
      .ite (advance_scripted.bind fun _ => advance_scripted.bind fun _ => pure_scripted _)
        (ih.parameterList []))

theorem parameterList_scripted (ih : AllScripted steps more) (params : List Param) :
    Scripted (parameterList (steps + 1) params) (parameterList (more + 1) params) := by
  unfold parameterList
  refine (accept_scripted _).bind fun _ => .ite ?_ ?_
  · exact (expect_scripted _ _).bind fun _ => pure_scripted _
  · refine ih.specifiers.bind fun _ => (ih.declarator true).bind fun _ =>
      (resolved_scripted _).bind fun _ =>
        (skipAttributes_scripted (Nat.succ_le_succ ih.le)).bind fun _ =>
          (accept_scripted _).bind fun _ => .ite (ih.parameterList _) ?_
    exact (expect_scripted _ _).bind fun _ => pure_scripted _

/-- Each reader goes down one step to the others, so that one induction covers them all. -/
theorem allScripted (h : steps ≤ more) : AllScripted steps more := by
  induction steps generalizing more with
  | zero => constructor <;> intros <;> first | exact h | exact .outOfSteps _
  | succ steps ih =>
    obtain ⟨more, rfl⟩ := Nat.exists_eq_add_of_le' (Nat.one_le_of_lt h)
    have ih' : AllScripted steps more := ih (Nat.le_of_succ_le_succ h)
    exact {
      le := h
      specifierWords := specifierWords_scripted ih'
      tagSpecifier := tagSpecifier_scripted ih'
      members := members_scripted ih'
      member := member_scripted ih'
      memberDeclarators := memberDeclarators_scripted ih'
      specifiers := specifiers_scripted ih'
      declarator := declarator_scripted ih'
      declaratorSuffixes := declaratorSuffixes_scripted ih'
      parameters := parameters_scripted ih'
      parameterList := parameterList_scripted ih' }

/-! ### Declarations -/

theorem declared_scripted (h : steps ≤ more) (start : Position) (specifiers : Specifiers)
    (name : String) (declared : Declared) :
    Scripted (Reader.declared steps start specifiers name declared)
      (Reader.declared more start specifiers name declared) := by
  cases declared with
  | function result params =>
    refine (placeAt_scripted start).bind fun _ => origin_scripted.bind fun _ =>
      .ite (pure_scripted _) ?_
    exact (setKind_scripted .function).bind fun _ => (skipAttributes_scripted h).bind fun _ =>
      pure_scripted _
  | object type =>
    refine (placeAt_scripted start).bind fun _ => origin_scripted.bind fun _ =>
      (skipAttributes_scripted h).bind fun _ => .ite (pure_scripted _) ?_
    exact (expressionBehind?_scripted _).bind fun _ => pure_scripted _

theorem declarators_scripted (h : steps ≤ more) (start : Position) (specifiers : Specifiers)
    (found : List Declaration) :
    Scripted (declarators start steps specifiers found)
      (declarators start more specifiers found) := by
  induction steps generalizing more specifiers found with
  | zero => exact .outOfSteps _
  | succ steps ih =>
    obtain ⟨more, rfl⟩ := Nat.exists_eq_add_of_le' (Nat.one_le_of_lt h)
    have h' := Nat.le_of_succ_le_succ h
    unfold declarators
    refine ((allScripted h').declarator false).bind fun declarator => ?_
    cases declarator.name with
    | none => exact malformed_scripted _
    | some name =>
      refine (resolved_scripted _).bind fun meaning =>
        (declared_scripted h start _ name meaning).bind fun declaration =>
          token_scripted.bind fun _ => .ite ?_ ?_
      · exact noteRules_scripted.bind fun _ => group_scripted.bind fun _ => pure_scripted _
      · exact (accept_scripted _).bind fun _ => .ite (ih h' _ _)
          ((expect_scripted _ _).bind fun _ => pure_scripted _)

theorem takeTags_scripted : Scripted takeTags takeTags :=
  .of_script (Script.look.bind fun view => (Script.note view.kind []).bind fun _ =>
    .done (view.tags.map Declaration.struct)) rfl

theorem namedStructure?_scripted (specifiers : Specifiers) :
    Scripted (namedStructure? specifiers) (namedStructure? specifiers) := by
  unfold namedStructure?
  cases specifiers.tag with
  | reference name position =>
    exact (placeAt_scripted position).bind fun _ => origin_scripted.bind fun _ =>
      .ite (pure_scripted _) (pure_scripted _)
  | _ => exact pure_scripted none

theorem external_scripted (h : steps ≤ more) : Scripted (external steps) (external more) := by
  refine position_scripted.bind fun start => (allScripted h).specifiers.bind fun specifiers => ?_
  have hname : Scripted (nameTypedef specifiers) (nameTypedef specifiers) :=
    note_scripted fun kind tags => (if specifiers.isTypedef then .typedef else kind, tags)
  refine hname.bind fun _ => takeTags_scripted.bind fun found =>
    (namedStructure?_scripted specifiers).bind fun _ => token_scripted.bind fun _ => .ite ?_ ?_
  · exact advance_scripted.bind fun _ => pure_scripted _
  · exact declarators_scripted h start specifiers found

/-! ### Notes and macro calls -/

theorem noteArguments_scripted : Scripted Outline.noteArguments Outline.noteArguments :=
  token_scripted.bind fun _ =>
    .ite (group_scripted.bind fun _ => pure_scripted _) (pure_scripted [])

theorem attributeNote_scripted : Scripted Outline.attributeNote Outline.attributeNote := by
  refine noteRules_scripted.bind fun rules => position_scripted.bind fun position =>
    (placeAt_scripted position).bind fun place => advance_scripted.bind fun _ =>
      token_scripted.bind fun t => ?_
  cases t with
  | identifier name =>
    exact advance_scripted.bind fun _ => noteArguments_scripted.bind fun _ => pure_scripted _
  | _ => exact throw_scripted _

theorem macroCall_scripted : Scripted Outline.macroCall Outline.macroCall :=
  advance_scripted.bind fun _ => (discard_scripted group_scripted).bind fun _ =>
    endStatement_scripted ()

end

end RemoteCalls.Indexed
