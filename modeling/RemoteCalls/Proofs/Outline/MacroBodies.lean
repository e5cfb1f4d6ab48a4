import Mathlib.Data.List.Induction
import RemoteCalls.Proofs.Catalog.Histories
import RemoteCalls.Proofs.Outline.Rereading

/-!
# Bodies behind macro calls

A macro call is taken without the block in braces that may stand behind it. The block is no
declaration, and the search for the end of the failure begins at its opening brace: the brace that
closes the block does not end the search, since no parenthesis stands in front of the block any
more. So what stands behind the block is skipped up to the end of the next declaration.
-/

namespace RemoteCalls.Outline

open Lexeme (depthBehind tokens)
open Reader (headToken headPosition)

/-! ## The row of a macro call with a body -/

/-- A name that is no marker, and a group in parentheses that no star begins. -/
inductive MacroCall (rules : NoteRules) : List Lexeme → Prop
  | call {first opener closer : Lexeme} {arguments : List Lexeme} {name : String}
      (hfirst : first.token = .identifier name) (hname : rules.isMarker name = false)
      (hopener : opener.token = .openParen) (hcloser : closer.token = .closeParen)
      (hstar : headToken (arguments ++ [closer]) ≠ .star)
      (hbalanced : Token.Balanced (tokens arguments)) :
      MacroCall rules (first :: opener :: (arguments ++ [closer]))

/-- A group in braces. -/
inductive Block : List Lexeme → Prop
  | braces {opener closer : Lexeme} {inner : List Lexeme} (hopener : opener.token = .openBrace)
      (hcloser : closer.token = .closeBrace) (hbalanced : Token.Balanced (tokens inner)) :
      Block (opener :: (inner ++ [closer]))

/-- A row that ends with a semicolon outside of groups, or with the brace that closes a body. -/
inductive Ending : List Lexeme → Prop
  | semicolon {row : List Lexeme} {last : Lexeme} (outside : openGroups row = 0)
      (hlast : last.token = .semicolon) : Ending (row ++ [last])
  | body {row : List Lexeme} {last : Lexeme} (inside : InBody row) (outermost : openGroups row = 1)
      (hlast : last.token = .closeBrace) : Ending (row ++ [last])

/-- The shortest row in front that has such an end. -/
structure ShortestEnding (row : List Lexeme) : Prop where
  ending : Ending row
  shortest : ∀ front, front <+: row → Ending front → front = row

/-- An ending tells by its last lexeme and the groups in front of it. -/
theorem ending_concat_iff {row : List Lexeme} {lexeme : Lexeme} :
    Ending (row ++ [lexeme]) ↔
      (openGroups row = 0 ∧ lexeme.token = .semicolon) ∨
      (InBody row ∧ openGroups row = 1 ∧ lexeme.token = .closeBrace) := by
  constructor
  · intro h
    generalize hwhole : row ++ [lexeme] = whole at h
    cases h with
    | semicolon outside hlast =>
      obtain ⟨rfl, hlexeme⟩ := List.append_inj' hwhole rfl
      rw [List.singleton_inj] at hlexeme
      exact Or.inl ⟨outside, hlexeme ▸ hlast⟩
    | body inside outermost hlast =>
      obtain ⟨rfl, hlexeme⟩ := List.append_inj' hwhole rfl
      rw [List.singleton_inj] at hlexeme
      exact Or.inr ⟨inside, outermost, hlexeme ▸ hlast⟩
  · rintro (⟨outside, hlast⟩ | ⟨inside, outermost, hlast⟩)
    · exact .semicolon outside hlast
    · exact .body inside outermost hlast

theorem not_ending_nil : ¬ Ending [] := by
  intro h
  generalize hnil : ([] : List Lexeme) = row at h
  cases h with
  | semicolon => simp at hnil
  | body => simp at hnil

theorem Ending.boundary {row : List Lexeme} (h : Ending row) : Boundary row := by
  cases h with
  | semicolon outside hlast => exact .semicolon outside hlast
  | body inside outermost hlast => exact .body inside outermost hlast

/-- Where no closing delimiter is in front, a declaration that fails is skipped up to an ending. -/
theorem ShortestBoundary.shortestEnding {row : List Lexeme} (h : ShortestBoundary row)
    (hfirst : (headToken row).isCloser = false) : ShortestEnding row := by
  have hending : Ending row := by
    cases h.boundary with
    | semicolon outside hlast => exact .semicolon outside hlast
    | body inside outermost hlast => exact .body inside outermost hlast
    | stray honly =>
      rw [headToken, honly] at hfirst
      cases hfirst
  exact ⟨hending, fun front hfront hshort => h.shortest front hfront hshort.boundary⟩

/-! ## The search behind a block -/

/-- The groups that are open behind a row are those of the nesting. -/
theorem foldl_depthBehind_of_nest {depth behind : Nat} {row : List Lexeme}
    (h : Token.nest depth (tokens row) = some behind) :
    row.foldl (fun depth lexeme => depthBehind depth lexeme.token) depth = behind := by
  induction row generalizing depth with
  | nil => exact Option.some.inj h
  | cons lexeme row ih =>
    rw [List.foldl_cons]
    exact ih (Token.nest_cons_eq_some.mp h).2

section

variable {opener : Lexeme} {inner front : List Lexeme}

/-- Behind the opening brace of a block a group is open up to the closing brace. -/
theorem openGroups_inside (hopener : opener.token = .openBrace)
    (hbalanced : Token.Balanced (tokens inner)) (hfront : front <+: inner) :
    openGroups (opener :: front) ≠ 0 := by
  obtain ⟨back, rfl⟩ := hfront
  unfold Token.Balanced at hbalanced
  rw [tokens, List.map_append] at hbalanced
  obtain ⟨inside, hnest, -⟩ := Token.nest_append_eq_some.mp hbalanced
  have hfold : front.foldl (fun depth lexeme => depthBehind depth lexeme.token) (0 + 1) =
      inside + 1 := foldl_depthBehind_of_nest (Token.nest_add hnest 1)
  have hone : depthBehind 0 opener.token = 1 := by
    rw [hopener]
    rfl
  rw [Nat.zero_add] at hfold
  unfold openGroups
  rw [List.foldl_cons, hone, hfold]
  omega

/-- A block is no body: no parenthesis stands in front of it, and the braces in it are inside of a
group. -/
theorem not_inBody_inside (hopener : opener.token = .openBrace)
    (hbalanced : Token.Balanced (tokens inner)) (hfront : front <+: inner) :
    ¬ InBody (opener :: front) := by
  induction front using List.reverseRecOn with
  | nil =>
    rw [← List.nil_append [opener], inBody_concat_iff]
    rintro (⟨-, -, hparen⟩ | ⟨hbody, -⟩)
    · cases hparen
    · exact hbody.openGroups_ne_zero rfl
  | append_singleton front lexeme ih =>
    have hshorter : front <+: inner := (List.prefix_append front [lexeme]).trans hfront
    rw [← List.cons_append, inBody_concat_iff]
    rintro (⟨houtside, -⟩ | ⟨hbody, -⟩)
    · exact openGroups_inside hopener hbalanced hshorter houtside
    · exact ih hshorter hbody

end

section

variable {block front : List Lexeme}

/-- No group stays open behind a block. -/
theorem Block.openGroups_eq (h : Block block) : openGroups block = 0 := by
  obtain @⟨opener, closer, inner, hopener, hcloser, hbalanced⟩ := h
  refine foldl_depthBehind_of_nest ?_
  have hgroup : Token.Balanced (opener.token :: (tokens inner ++ [closer.token])) :=
    hbalanced.group (by rw [hopener]; rfl) (by rw [hcloser]; rfl)
  simpa [tokens, Token.Balanced] using hgroup

/-- The brace that closes a block is in front of no body. -/
theorem Block.getLast_ne (h : Block block) :
    block.getLast?.map (·.token) ≠ some .closeParen := by
  obtain @⟨opener, closer, inner, hopener, hcloser, hbalanced⟩ := h
  rw [← List.cons_append, List.getLast?_concat, Option.map_some, hcloser]
  decide

/-- A failed declaration cannot have ended inside of a block, nor at its end. -/
theorem Block.not_boundary (h : Block block) (hfront : front <+: block) : ¬ Boundary front := by
  obtain @⟨opener, closer, inner, hopener, hcloser, hbalanced⟩ := h
  intro hboundary
  rcases List.eq_nil_or_concat front with rfl | ⟨row, lexeme, rfl⟩
  · exact not_boundary_nil hboundary
  rw [List.concat_eq_append] at hfront hboundary
  cases row with
  | nil =>
    -- The opening brace alone.
    obtain ⟨rfl, -⟩ := List.cons_prefix_cons.mp hfront
    rcases boundary_concat_iff.mp hboundary with ⟨-, h⟩ | ⟨-, -, h⟩ | ⟨-, h⟩
    · rw [hopener] at h
      cases h
    · rw [hopener] at h
      cases h
    · rw [hopener] at h
      cases h
  | cons first row =>
    obtain ⟨rfl, hrow⟩ := List.cons_prefix_cons.mp hfront
    have hinner : row <+: inner := by
      rcases List.prefix_concat_iff.mp hrow with heq | hshort
      · exact (List.append_inj' heq rfl).1 ▸ List.prefix_refl _
      · exact (List.prefix_append row [lexeme]).trans hshort
    rcases boundary_concat_iff.mp hboundary with ⟨houtside, -⟩ | ⟨hbody, -⟩ | ⟨hnil, -⟩
    · exact openGroups_inside hopener hbalanced hinner houtside
    · exact not_inBody_inside hopener hbalanced hinner hbody
    · cases hnil

/-- Behind a block the groups are counted as if there were no block. -/
theorem Block.openGroups_append (h : Block block) (row : List Lexeme) :
    openGroups (block ++ row) = openGroups row := by
  have hblock := h.openGroups_eq
  unfold openGroups at hblock ⊢
  rw [List.foldl_append, hblock]

/-- Behind a block the bodies are those that there are without the block. -/
theorem Block.inBody_append (h : Block block) (row : List Lexeme) :
    InBody (block ++ row) ↔ InBody row := by
  induction row using List.reverseRecOn with
  | nil =>
    have hnot : ∀ row, openGroups row = 0 → ¬ InBody row :=
      fun row hzero hbody => hbody.openGroups_ne_zero hzero
    exact iff_of_false (hnot _ (h.openGroups_append [])) (hnot [] rfl)
  | append_singleton row lexeme ih =>
    have hlast : (block ++ row).getLast?.map (·.token) = some .closeParen ↔
        row.getLast?.map (·.token) = some .closeParen := by
      rcases List.eq_nil_or_concat row with rfl | ⟨front, last, rfl⟩
      · rw [List.append_nil]
        exact iff_of_false h.getLast_ne (by simp)
      · simp
    rw [← List.append_assoc, inBody_concat_iff, inBody_concat_iff, ih, hlast, List.append_assoc,
      h.openGroups_append, h.openGroups_append]

/-- Behind a block a failed declaration can have ended at an ending, and only there. -/
theorem Block.boundary_append (h : Block block) (row : List Lexeme) :
    Boundary (block ++ row) ↔ Ending row := by
  rcases List.eq_nil_or_concat row with rfl | ⟨front, last, rfl⟩
  · rw [List.append_nil]
    exact iff_of_false (h.not_boundary (List.prefix_refl _)) not_ending_nil
  have hne : ¬ (block ++ front = [] ∧ last.token.isCloser = true) := by
    rintro ⟨hnil, -⟩
    rw [(List.append_eq_nil_iff.mp hnil).1] at h
    cases h
  rw [List.concat_eq_append, ← List.append_assoc, boundary_concat_iff, ending_concat_iff,
    h.openGroups_append, h.inBody_append, or_iff_left hne]

/-- The search goes on behind a block up to the first ending. -/
theorem Block.behindFailure_eq (h : Block block) (hfront : ShortestEnding front)
    (behind : List Lexeme) (opened : Position) :
    behindFailure none 0 opened false (block ++ (front ++ behind)) = .ok behind := by
  have hshortest : ShortestBoundary (block ++ front) := by
    refine ⟨(h.boundary_append front).mpr hfront.ending, fun row hrow hboundary => ?_⟩
    rcases List.prefix_or_prefix_of_prefix hrow (List.prefix_append block front) with hin | hout
    · exact absurd hboundary (h.not_boundary hin)
    · obtain ⟨rest, rfl⟩ := hout
      have hrest : rest <+: front := (List.prefix_append_right_inj block).mp hrow
      rw [hfront.shortest rest hrest ((h.boundary_append rest).mp hboundary)]
  rw [← List.append_assoc]
  exact behindFailure_of_shortest hshortest behind opened

/-- The search comes to the end of a row in which a failed declaration cannot have ended. -/
theorem behindFailure_of_no_boundary {row left : List Lexeme} {last : Option Token} {depth : Nat}
    {opened : Position} {body : Bool} (hrow : Searched row last depth body)
    (hnone : ∀ front, front <+: left → front ≠ [] → ¬ Boundary (row ++ front)) :
    ∀ rest, behindFailure last depth opened body left = .ok rest → rest = [] := by
  induction left generalizing row last depth opened body with
  | nil =>
    intro rest hrest
    unfold behindFailure at hrest
    split at hrest
    · exact (Except.ok.inj hrest).symm
    · cases hrest
  | cons lexeme left ih =>
    have hhere : ¬ Boundary (row ++ [lexeme]) :=
      hnone [lexeme] ⟨left, rfl⟩ (List.cons_ne_nil _ _)
    obtain ⟨opened', body', hsearched, hnext⟩ := behindFailure_of_not_boundary hrow hhere
    rw [hnext]
    refine ih hsearched fun front hfront _ => ?_
    have hsplit : row ++ [lexeme] ++ front = row ++ lexeme :: front := by simp
    rw [hsplit]
    exact hnone _ (List.cons_prefix_cons.mpr ⟨rfl, hfront⟩) (List.cons_ne_nil _ _)

/-- Where no ending comes behind a block the search comes to the end of the file. -/
theorem Block.eq_nil_of_no_ending (h : Block block) {behind rest : List Lexeme}
    (hnone : ∀ front, front <+: behind → ¬ Ending front) {opened : Position}
    (hrest : behindFailure none 0 opened false (block ++ behind) = .ok rest) : rest = [] := by
  have hstart : Searched [] none 0 false := ⟨rfl, rfl, fun h => absurd rfl h⟩
  refine behindFailure_of_no_boundary hstart ?_ rest hrest
  intro front hfront _
  rw [List.nil_append]
  rcases List.prefix_or_prefix_of_prefix hfront (List.prefix_append block behind) with hin | hout
  · exact h.not_boundary hin
  · obtain ⟨row, rfl⟩ := hout
    rw [h.boundary_append]
    exact hnone row ((List.prefix_append_right_inj block).mp hfront)

end

/-! ## Steps over a macro call and its block -/

variable {setting : Setting} {call block behind : List Lexeme}

/-- A macro call is taken, and the notes in front of it go on waiting. -/
theorem step_of_macroCall (hcall : MacroCall setting.rules call)
    (hbehind : headToken behind ≠ .semicolon) (pending : List PendingNote) (linkage : Nat) :
    ∃ waiting, step setting ⟨call ++ behind, pending, linkage⟩ =
      ([], ⟨behind, waiting, linkage⟩) := by
  obtain @⟨first, opener, closer, arguments, name, hfirst, hname, hopener, hcloser, hstar,
    hbalanced⟩ := hcall
  let row := first :: opener :: (arguments ++ closer :: behind)
  have hrow : first :: opener :: (arguments ++ [closer]) ++ behind = row := by simp [row]
  have hthird : headToken row.tail.tail ≠ .star := by
    have hsame : headToken row.tail.tail = headToken (arguments ++ [closer]) := by
      cases arguments <;> rfl
    rw [hsame]
    exact hstar
  have hfront : Front.of setting.rules row = .macroCall :=
    Front.of_macroCall hfirst hname hopener hthird
  have hsplit : Lexeme.splitGroup 0 (arguments ++ closer :: behind) = some (arguments, behind) :=
    Lexeme.splitGroup_of_balanced hbalanced (by rw [hcloser]; rfl) behind
  have hgroup : Reader.group setting ⟨row.tail, .variable, []⟩ =
      .ok (arguments, ⟨behind, .variable, []⟩) := by
    rw [Reader.group_apply]
    simp only [row, List.tail_cons, hsplit]
  have hrun : macroCall setting ⟨row, .variable, []⟩ = .ok ((), ⟨behind, .variable, []⟩) := by
    have hend : Reader.endStatement () setting ⟨behind, .variable, []⟩ =
        .ok ((), ⟨behind, .variable, []⟩) := by
      unfold Reader.endStatement
      rw [Reader.discard_eq, bind_assoc, Reader.bind_apply, Reader.accept_apply, if_neg hbehind]
      rfl
    unfold macroCall
    rw [Reader.discard_eq, bind_assoc, Reader.bind_apply]
    change (Reader.group >>= _) setting ⟨row.tail, .variable, []⟩ = _
    rw [Reader.bind_apply, hgroup]
    exact hend
  refine ⟨PendingNote.absorb setting.rules pending first.trivia, ?_⟩
  rw [hrow]
  simp only [step, stepAt, row, stepMacro, run] at hfront hrun ⊢
  simp only [hfront, hrun]

/-- No declaration begins with a brace. -/
theorem readExternal_of_openBrace {brace : Lexeme} (hbrace : brace.token = .openBrace)
    (rest : List Lexeme) :
    Reader.readExternal setting (brace :: rest) = .error (.malformed
      ⟨setting.place brace.position, some .variable, .expected .typeSpecifier .openBrace⟩) := by
  obtain ⟨token, position, trivia⟩ := brace
  cases hbrace
  rfl

/-- A block is read as a declaration that fails. -/
theorem step_of_block (setting : Setting) (hblock : Block block) (behind : List Lexeme)
    (pending : List PendingNote) (linkage : Nat) :
    ∃ waiting, step setting ⟨block ++ behind, pending, linkage⟩ =
      recover setting ⟨block ++ behind, waiting, linkage⟩ (.malformed
        ⟨setting.place (headPosition setting.finish block), some .variable,
          .expected .typeSpecifier .openBrace⟩) := by
  obtain @⟨opener, closer, inner, hopener, hcloser, hbalanced⟩ := hblock
  have hfront : ∀ row, Front.of setting.rules (opener :: row) = .declaration := by
    intro row
    unfold Front.of
    rw [headToken, hopener]
    rfl
  refine ⟨PendingNote.absorb setting.rules pending opener.trivia, ?_⟩
  simp only [step, List.cons_append, stepAt, hfront, stepDeclaration,
    readExternal_of_openBrace hopener, headPosition]

/-- The macro call and its block are read in two steps, of which the second fails. -/
theorem scan_of_macroCall_block (hcall : MacroCall setting.rules call) (hblock : Block block)
    (behind : List Lexeme) (pending : List PendingNote) (linkage : Nat) :
    ∃ waiting, scan setting ⟨call ++ block ++ behind, pending, linkage⟩ =
      let failed := recover setting ⟨block ++ behind, waiting, linkage⟩ (.malformed
        ⟨setting.place (headPosition setting.finish block), some .variable,
          .expected .typeSpecifier .openBrace⟩)
      (failed.1 ++ (scan setting failed.2).1, (scan setting failed.2).2) := by
  have hcall_ne : call ≠ [] := by
    rintro rfl
    cases hcall
  have hblock_ne : block ≠ [] := by
    rintro rfl
    cases hblock
  have hsemicolon : headToken (block ++ behind) ≠ .semicolon := by
    cases hblock with
    | braces hopener hcloser hbalanced =>
      rw [List.cons_append, headToken, hopener]
      decide
  obtain ⟨waiting, hfirst⟩ := step_of_macroCall hcall hsemicolon pending linkage
  obtain ⟨absorbed, hsecond⟩ := step_of_block setting hblock behind waiting linkage
  refine ⟨absorbed, ?_⟩
  rw [List.append_assoc, scan_of_ne_nil (by simp [hcall_ne]), hfirst,
    scan_of_ne_nil (by simp [hblock_ne]), hsecond]
  rfl

/-- What some steps find comes first in what all steps find. -/
theorem scan_of_walk {steps : Nat} {outline next : Outline} {found : List Finding}
    (h : walk setting steps outline = (found, next)) :
    scan setting outline = (found ++ (scan setting next).1, (scan setting next).2) := by
  induction steps generalizing outline found with
  | zero =>
    cases h
    rfl
  | succ steps ih =>
    by_cases hnil : outline.rest = []
    · rw [walk_of_nil hnil] at h
      cases h
      rfl
    · rw [walk_succ hnil] at h
      cases h
      rw [scan_of_ne_nil hnil, ih rfl, List.append_assoc]

theorem declared_append (found more : List Finding) :
    declared (found ++ more) = declared found ++ declared more :=
  List.filterMap_append

/-- A block behind a macro call is reported at its opening brace, and takes what stands behind it
along, up to the first ending: what is found behind that is found as if the file began there, and
where no ending comes nothing more is declared. So the declarations behind the block are those that
are found there without it just if none is found in the stretch that is taken along. -/
theorem scan_behind_macroBody (setting : Setting) {call block : List Lexeme}
    (hcall : MacroCall setting.rules call) (hblock : Block block) (behind : List Lexeme)
    (pending : List PendingNote) (linkage : Nat) :
    let fault : Diagnostic := ⟨setting.place (headPosition setting.finish block), some .variable,
      .expected .typeSpecifier .openBrace⟩
    let whole := scan setting ⟨call ++ block ++ behind, pending, linkage⟩
    let alone := scan setting ⟨behind, [], linkage⟩
    (∀ taken later, behind = taken ++ later → ShortestEnding taken →
      whole = (.diagnostic fault :: (scan setting ⟨later, [], linkage⟩).1,
        (scan setting ⟨later, [], linkage⟩).2) ∧
      ∀ steps found, walk setting steps ⟨behind, [], linkage⟩ = (found, ⟨later, [], linkage⟩) →
        (declared whole.1 = declared alone.1 ↔ declared found = [])) ∧
    ((∀ front, front <+: behind → ¬ Ending front) →
      .diagnostic fault ∈ whole.1 ∧ declared whole.1 = []) := by
  intro fault whole alone
  obtain ⟨waiting, hwhole⟩ := scan_of_macroCall_block hcall hblock behind pending linkage
  change whole = _ at hwhole
  constructor
  · rintro taken later rfl hending
    have hskip : whole = (.diagnostic fault :: (scan setting ⟨later, [], linkage⟩).1,
        (scan setting ⟨later, [], linkage⟩).2) := by
      simp only [hwhole, recover, hblock.behindFailure_eq hending]
      rfl
    refine ⟨hskip, fun steps found hwalk => ?_⟩
    have halone : declared alone.1 =
        declared found ++ declared (scan setting ⟨later, [], linkage⟩).1 := by
      rw [← declared_append]
      exact congrArg (fun result => declared result.1) (scan_of_walk hwalk)
    have hdeclared : declared whole.1 = declared (scan setting ⟨later, [], linkage⟩).1 := by
      rw [hskip]
      rfl
    rw [halone, hdeclared]
    exact ⟨fun h => List.self_eq_append_left.mp h, fun h => by rw [h, List.nil_append]⟩
  · intro hnone
    have hend : ∀ found, declared (found ++ (scan setting ⟨[], [], linkage⟩).1) = declared found := by
      intro found
      rw [scan_of_nil rfl, List.append_nil]
    cases hfailure : behindFailure none 0 (headPosition setting.finish (block ++ behind)) false
        (block ++ behind) with
    | ok rest =>
      obtain rfl := hblock.eq_nil_of_no_ending hnone hfailure
      simp only [hwhole, recover, hfailure, hend]
      exact ⟨List.mem_append_left _ (List.mem_cons_self ..), rfl⟩
    | error opened =>
      simp only [hwhole, recover, hfailure, hend]
      exact ⟨List.mem_append_left _ (List.mem_cons_self ..), rfl⟩

/-- Behind `FOO(x) { return; }` the variable `a` is taken along, and the variable `b` is found. -/
theorem scan_behind_macroBody_of_return :
    let setting : Setting := ⟨⟨["RPC"], .refuse⟩, ⟨"api.c"⟩, .input, ⟨4, 1⟩⟩
    let argument : List Lexeme := [⟨.identifier "x", ⟨1, 5⟩, []⟩]
    let body : List Lexeme := [⟨.identifier "return", ⟨1, 10⟩, []⟩, ⟨.semicolon, ⟨1, 16⟩, []⟩]
    let call := ⟨.identifier "FOO", ⟨1, 1⟩, []⟩ :: ⟨.openParen, ⟨1, 4⟩, []⟩ ::
      (argument ++ [⟨.closeParen, ⟨1, 6⟩, []⟩])
    let block := ⟨.openBrace, ⟨1, 8⟩, []⟩ :: (body ++ [⟨.closeBrace, ⟨1, 18⟩, []⟩])
    let line (number : Nat) (name : String) : List Lexeme := [⟨.builtin "int", ⟨number, 1⟩, []⟩,
      ⟨.identifier name, ⟨number, 5⟩, []⟩, ⟨.semicolon, ⟨number, 6⟩, []⟩]
    let behind := line 2 "a" ++ line 3 "b"
    let fault : Diagnostic := ⟨⟨⟨"api.c"⟩, ⟨1, 8⟩⟩, some .variable,
      .expected .typeSpecifier .openBrace⟩
    let whole := scan setting (start (call ++ block ++ behind))
    MacroCall setting.rules call ∧ Block block ∧ ShortestEnding (line 2 "a") ∧
      whole.1 = .diagnostic fault :: (scan setting (start (line 3 "b"))).1 ∧
      declared whole.1 ≠ declared (scan setting (start behind)).1 := by
  intro setting argument body call block line behind fault whole
  have hcall : MacroCall setting.rules call := .call rfl rfl rfl rfl (by decide) rfl
  have hblock : Block block := .braces rfl rfl rfl
  have hending : ShortestEnding (line 2 "a") := by
    have hboundary : ShortestBoundary ((line 2 "a").dropLast ++ [⟨.semicolon, ⟨2, 6⟩, []⟩]) :=
      shortestBoundary_of_plain (by decide) rfl
    exact hboundary.shortestEnding rfl
  obtain ⟨hwhole, hsame⟩ :=
    (scan_behind_macroBody setting hcall hblock behind [] 0).1 (line 2 "a") (line 3 "b") rfl hending
  refine ⟨hcall, hblock, hending, congrArg Prod.fst hwhole, ?_⟩
  have hwalk : walk setting 1 (start behind) =
      ([.declaration (.variable ⟨"a", .base (.builtin "int") .plain, false, false, none, .input,
        ⟨⟨"api.c"⟩, ⟨2, 1⟩⟩, []⟩)], start (line 3 "b")) := rfl
  intro hdeclared
  cases (hsame 1 _ hwalk).mp hdeclared

/-- The declarations behind a block are not those that are found there without it: of `int a; int b;`
behind `FOO(x) { return; }` only `b` is declared. -/
theorem not_declared_behind_macroBody :
    ¬ ∀ (setting : Setting) (call block behind : List Lexeme), MacroCall setting.rules call →
      Block block → Clean (scan setting (start behind)).1 →
      declared (scan setting (start (call ++ block ++ behind))).1 =
        declared (scan setting (start behind)).1 := by
  intro hall
  let setting : Setting := ⟨⟨["RPC"], .refuse⟩, ⟨"api.c"⟩, .input, ⟨4, 1⟩⟩
  let argument : List Lexeme := [⟨.identifier "x", ⟨1, 5⟩, []⟩]
  let body : List Lexeme := [⟨.identifier "return", ⟨1, 10⟩, []⟩, ⟨.semicolon, ⟨1, 16⟩, []⟩]
  let line (number : Nat) (name : String) : List Lexeme := [⟨.builtin "int", ⟨number, 1⟩, []⟩,
    ⟨.identifier name, ⟨number, 5⟩, []⟩, ⟨.semicolon, ⟨number, 6⟩, []⟩]
  have hcall : MacroCall setting.rules (⟨.identifier "FOO", ⟨1, 1⟩, []⟩ ::
      ⟨.openParen, ⟨1, 4⟩, []⟩ :: (argument ++ [⟨.closeParen, ⟨1, 6⟩, []⟩])) :=
    .call rfl rfl rfl rfl (by decide) rfl
  have hblock : Block (⟨.openBrace, ⟨1, 8⟩, []⟩ :: (body ++ [⟨.closeBrace, ⟨1, 18⟩, []⟩])) :=
    .braces rfl rfl rfl
  have hclean : Clean (scan setting (start (line 2 "a" ++ line 3 "b"))).1 := by
    have hfound : (scan setting (start (line 2 "a" ++ line 3 "b"))).1 =
        [.declaration (.variable ⟨"a", .base (.builtin "int") .plain, false, false, none, .input,
          ⟨⟨"api.c"⟩, ⟨2, 1⟩⟩, []⟩),
        .declaration (.variable ⟨"b", .base (.builtin "int") .plain, false, false, none, .input,
          ⟨⟨"api.c"⟩, ⟨3, 1⟩⟩, []⟩)] := rfl
    rw [hfound]
    simp [Clean]
  have hnames := congrArg (List.map Declaration.name) (hall setting _ _ _ hcall hblock hclean)
  exact absurd hnames (by decide)

end RemoteCalls.Outline
