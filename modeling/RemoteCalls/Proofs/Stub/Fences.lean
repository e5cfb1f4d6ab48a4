import RemoteCalls.Proofs.Stub.Lines
import RemoteCalls.Proofs.Stub.Uncommented

/-!
# Fences

A block of a stub stands between two fences, comments that name the block and close it again. They
are found in the text of a stub without knowing how it was made: they are its only comments if there
are none in the names and types, so that the blocks stand one behind the other whatever is selected.
-/

namespace RemoteCalls

/-! ## The comments of a text -/

namespace Text

/-- The comments of a text, one for each place where a comment begins, even within another one. -/
def comments : List Char → List String
  | [] => []
  | c :: cs =>
    if c = '/' ∧ cs.head? = some '*' then
      ((Segment.commentBody cs.tail).map String.ofList).toList ++ comments cs
    else comments cs

/-- Without a slash no comment begins. -/
theorem comments_append_of_not_mem {front : List Char} (h : '/' ∉ front) (cs : List Char) :
    comments (front ++ cs) = comments cs := by
  induction front with
  | nil => rfl
  | cons c front ih =>
    rw [List.mem_cons, not_or] at h
    rw [List.cons_append, comments, if_neg fun hopen => h.1 hopen.1.symm, ih h.2]

/-- Nothing is found in a line in which no comment begins, whatever is in the lines behind it. -/
theorem comments_line {line : List Char} (h : ¬ ['/', '*'] <:+: line) (rest : List Char) :
    comments (line ++ '\n' :: rest) = comments rest := by
  induction line with
  | nil => exact if_neg fun hopen => absurd hopen.1 (by decide)
  | cons c line ih =>
    rw [List.infix_cons_iff, not_or] at h
    have hopen : ¬ (c = '/' ∧ (line ++ '\n' :: rest).head? = some '*') := by
      rintro ⟨rfl, hstar⟩
      cases line with
      | nil => cases hstar
      | cons d line =>
        cases hstar
        exact h.1 ⟨line, rfl⟩
    rw [List.cons_append, comments, if_neg hopen, ih h.2]

/-- A line that is one comment. -/
theorem comments_comment {body : List Char} (hstar : '*' ∉ body)
    (hinner : ¬ ['/', '*'] <:+: '*' :: body ++ ['*', '/']) (rest : List Char) :
    comments ('/' :: '*' :: body ++ ['*', '/'] ++ '\n' :: rest) =
      String.ofList body :: comments rest := by
  have hbody := Segment.commentBody_of_not_mem hstar ('\n' :: rest)
  have hline : '/' :: '*' :: body ++ ['*', '/'] ++ '\n' :: rest =
      '/' :: ('*' :: body ++ ['*', '/'] ++ '\n' :: rest) := rfl
  have htail : ('*' :: body ++ ['*', '/'] ++ '\n' :: rest).tail =
      body ++ '*' :: '/' :: '\n' :: rest := by simp
  rw [hline, comments, if_pos ⟨rfl, rfl⟩, comments_line hinner, htail, hbody]
  rfl

end Text

open Text

/-- The fences around the blocks of a stub. -/
inductive Fence where
  | begins (name : String)
  | ends
deriving DecidableEq, Repr

namespace Fence

/-- What all fences begin with. -/
def front : List Char := " Autogenerated: ".toList

/-- The fence that a comment is, if it is one. -/
def ofComment? (comment : String) : Option Fence :=
  let cs := comment.toList
  if front.isPrefixOf cs && cs.getLast? = some ' ' then
    let name := String.ofList (cs.drop front.length).dropLast
    some (if name = "end" then ends else begins name)
  else none

/-- The fences of a text, in order. -/
def all (text : String) : List Fence :=
  (comments text.toList).filterMap ofComment?

/-- The two fences of a block. -/
def pair (block : Block) : List Fence := [begins block.name, ends]

end Fence

theorem not_mem_of_isIndent {indent : String} (h : IsIndent indent) : '/' ∉ indent.toList := by
  intro hmem
  rcases h _ hmem with hslash | hslash <;> exact absurd hslash (by decide)

namespace Stub

/-- Some lines bring some comments, whatever is behind them. -/
def Brings (lines : List String) (found : List String) : Prop :=
  ∀ rest, comments ((unlines lines).toList ++ rest) = found ++ comments rest

namespace Brings

variable {lines others found more : List String} {indent : String}

theorem nil : Brings [] [] := fun _ => rfl

theorem append (h : Brings lines found) (hmore : Brings others more) :
    Brings (lines ++ others) (found ++ more) := by
  intro rest
  have htext : (unlines (lines ++ others)).toList ++ rest =
      (unlines lines).toList ++ ((unlines others).toList ++ rest) := by
    simp [unlines]
  rw [htext, h, hmore, List.append_assoc]

/-- Lines in which no comment begins bring none. -/
theorem uncommented (h : ∀ line ∈ lines, Uncommented line) : Brings lines [] := by
  induction lines with
  | nil => exact nil
  | cons line lines ih =>
    obtain ⟨hline, hlines⟩ := List.forall_mem_cons.mp h
    have hfirst : Brings [line] [] := by
      intro rest
      have htext : (unlines [line]).toList ++ rest = line.toList ++ '\n' :: rest := by
        simp [unlines]
      rw [htext, comments_line hline, List.nil_append]
    exact hfirst.append (ih hlines)

/-- A line that is one comment behind blanks. -/
theorem comment (hindent : IsIndent indent) {body : String} (hstar : '*' ∉ body.toList)
    (hinner : Uncommented ("*" ++ body ++ "*/")) :
    Brings [indent ++ ("/*" ++ body ++ "*/")] [body] := by
  intro rest
  have htext : (unlines [indent ++ ("/*" ++ body ++ "*/")]).toList ++ rest =
      indent.toList ++ ('/' :: '*' :: body.toList ++ ['*', '/'] ++ '\n' :: rest) := by
    simp [unlines]
  have hbody : ¬ ['/', '*'] <:+: '*' :: body.toList ++ ['*', '/'] := by
    simpa [Uncommented] using hinner
  rw [htext, comments_append_of_not_mem (not_mem_of_isIndent hindent), comments_comment hstar hbody,
    String.ofList_toList, List.singleton_append]

end Brings

/-- The text of the comment in front of a block. -/
def beginText (block : Block) : String := " Autogenerated: " ++ block.name ++ " "

/-- The text of the comment behind a block. -/
def endText : String := " Autogenerated: end "

/-- A block brings its two fences. -/
theorem brings_fenced {indent : String} (hindent : IsIndent indent) (block : Block)
    {lines : List String} (h : ∀ line ∈ lines, Uncommented line) :
    Brings (fenced indent block lines) [beginText block, endText] := by
  have hfirm : Firm indent := firm_of_not_mem (not_mem_of_isIndent hindent)
  have hbegin : Brings [indent ++ beginMark block] [beginText block] := by
    have hmark : beginMark block = "/*" ++ beginText block ++ "*/" := by
      cases block <;> decide
    rw [hmark]
    exact .comment hindent (by cases block <;> decide) (by cases block <;> decide)
  have hend : Brings [indent ++ endMark] [endText] := by
    have hmark : endMark = "/*" ++ endText ++ "*/" := by decide
    rw [hmark]
    exact .comment hindent (by decide) (by decide)
  have hlines : Brings (lines.map (indent ++ ·)) [] := by
    refine .uncommented fun line hline => ?_
    obtain ⟨line, hmem, rfl⟩ := List.mem_map.mp hline
    exact hfirm.then (h line hmem)
  have hall := (hbegin.append hlines).append hend
  rwa [fenced, List.map_append, List.map_append, List.map_singleton, List.map_singleton]

/-- Pieces with an empty line between two bring what each of them brings. -/
theorem Brings.intercalate {pieces found : List (List String)}
    (h : List.Forall₂ Brings pieces found) : Brings ([""].intercalate pieces) found.flatten := by
  induction h with
  | nil => exact nil
  | @cons piece marks pieces found hpiece hpieces ih =>
    cases hpieces with
    | nil => simpa using hpiece
    | cons hnext hrest =>
      rw [List.intercalate_cons_cons]
      have hempty : Brings [""] [] := .uncommented (by decide)
      have hboth := (hpiece.append hempty).append ih
      rwa [List.append_nil] at hboth

/-- A body brings the fences of the blocks that belong to it, in order. -/
theorem brings_bodyLines {indent : String} (hindent : IsIndent indent)
    {lines? : Block → Option (List String)}
    (h : ∀ block lines, lines? block = some lines → ∀ line ∈ lines, Uncommented line)
    (blocks : List Block) :
    Brings (bodyLines indent lines? blocks)
      ((blocks.filter fun block => (lines? block).isSome).flatMap fun block =>
        [beginText block, endText]) := by
  rw [List.flatMap_def]
  refine .intercalate ?_
  induction blocks with
  | nil => exact .nil
  | cons block blocks ih =>
    cases hblock : lines? block with
    | none =>
      rw [List.filterMap_cons_none (by rw [hblock]; rfl),
        List.filter_cons_of_neg (by simp [hblock])]
      exact ih
    | some lines =>
      rw [List.filterMap_cons_some (by rw [hblock]; rfl),
        List.filter_cons_of_pos (by simp [hblock])]
      exact .cons (brings_fenced hindent block (h block lines hblock)) ih

/-- The blocks that belong to a client function. -/
def clientBlocks : List Block := [.locals, .encode, .send, .decode, .result]

/-- The blocks that belong to a handler. -/
def handlerBlocks : List Block := [.locals, .decode, .execute, .response]

theorem isSome_clientBlock (remote : RemoteFunction) (block : Block) :
    (remote.clientBlock? block).isSome = decide (block ∈ clientBlocks) := by
  cases block <;> rfl

theorem isSome_handlerBlock (remote : RemoteFunction) (block : Block) :
    (remote.handlerBlock? block).isSome = decide (block ∈ handlerBlocks) := by
  cases block <;> rfl

/-- The selected blocks in the order in which a stub has them: those of the client function, then
those of the handler. -/
def sections (blocks : CodeBlocks) : List Block :=
  blocks.body.filter (· ∈ clientBlocks) ++ blocks.body.filter (· ∈ handlerBlocks)

/-- Each block belongs to a client function or to a handler, so that a stub has one. -/
theorem sections_ne_nil (blocks : CodeBlocks) : sections blocks ≠ [] := by
  obtain ⟨block, hblock⟩ := List.exists_mem_of_ne_nil _ blocks.body_ne_nil
  have hkind : block ∈ clientBlocks ∨ block ∈ handlerBlocks := by
    cases block <;> decide
  apply List.ne_nil_of_mem (a := block)
  rw [sections, List.mem_append, List.mem_filter, List.mem_filter]
  simpa [hblock] using hkind

/-- A function between its head and its last line brings what its body brings. -/
theorem brings_functionLines {indent head : String} {lines? : Block → Option (List String)}
    {blocks : List Block} {found : List String} (hhead : Uncommented head)
    (h : Brings (bodyLines indent lines? blocks) found) :
    Brings (functionLines indent head lines? blocks) found := by
  have hfront : Brings [head, "\x7b"] [] :=
    .uncommented (List.forall_mem_cons.mpr ⟨hhead, by decide⟩)
  have hback : Brings ["\x7d"] [] := .uncommented (by decide)
  have hall := (hfront.append h).append hback
  rwa [List.append_nil] at hall

/-- A stub brings the fences of its blocks and no other comment. -/
theorem brings_lines {indent : String} (hindent : IsIndent indent) (blocks : CodeBlocks)
    {f : Function} {remote : RemoteFunction} (hf : f.Uncommented) (h : remote.Uncommented) :
    Brings (lines indent blocks f remote)
      ((sections blocks).flatMap fun block => [beginText block, endText]) := by
  have hclient : Brings (functionLines indent f.signature remote.clientBlock? blocks.body) _ :=
    brings_functionLines hf.signature
      (brings_bodyLines hindent (fun _ _ => h.clientBlock) blocks.body)
  have hhandler : Brings (functionLines indent
      ("void " ++ remote.names.handler ++ "(struct rpc_decoder *_dec)") remote.handlerBlock?
      blocks.body) _ :=
    brings_functionLines h.handlerHead
      (brings_bodyLines hindent (fun _ _ => h.handlerBlock) blocks.body)
  simp only [isSome_clientBlock] at hclient
  simp only [isSome_handlerBlock] at hhandler
  have hheader : Brings (if blocks.header then remote.headerLines indent ++ [""] else []) [] := by
    split
    · have hlines := h.headerLines (firm_of_not_mem (not_mem_of_isIndent hindent))
      exact (Brings.uncommented hlines).append (.uncommented (by decide))
    · exact .nil
  have hfooter : Brings (if blocks.footer then ["", "RPC_REGISTER_HANDLER(" ++
      remote.names.function ++ ", " ++ remote.names.handler ++ ");"] else []) [] := by
    split
    · exact .uncommented (List.forall_mem_cons.mpr
        ⟨by decide, List.forall_mem_singleton.mpr h.footer⟩)
    · exact .nil
  have hempty : Brings [""] [] := .uncommented (by decide)
  have hall := (((hheader.append hclient).append hempty).append hhandler).append hfooter
  rwa [List.nil_append, List.append_nil, List.append_nil, ← List.flatMap_append] at hall

/-- A remote function has a stub whatever is selected, and its fences are those of the selected
blocks, a first and a last one for each, the blocks of the client function before those of the
handler. There is at least one block. -/
theorem ofFunction_fences {indent : String} {f : Function} {remote : RemoteFunction}
    (hindent : IsIndent indent) (blocks : CodeBlocks)
    (hremote : RemoteFunction.ofFunction f = .ok remote) (hf : f.Uncommented) :
    ∃ text, ofFunction indent blocks f = .ok text ∧
      Fence.all text = (sections blocks).flatMap Fence.pair ∧ sections blocks ≠ [] := by
  obtain ⟨declared, returned, hparts⟩ := RemoteFunction.exists_parts hremote
  refine ⟨unlines (lines indent blocks f remote), ?_, ?_, sections_ne_nil blocks⟩
  · rw [ofFunction, hremote]
  · have hlines := brings_lines hindent blocks hf (hparts.uncommented hf) []
    rw [List.append_nil, comments, List.append_nil] at hlines
    rw [Fence.all, hlines, List.filterMap_flatMap]
    refine List.flatMap_congr fun block _ => ?_
    cases block <;> decide

/-- A block that is selected twice has its fences twice, and one that belongs to both functions has
them in both. -/
theorem ofFunction_fences_of_decode :
    let value : Param := ⟨some "value", (CType.base (.builtin "int") .plain).pointer⟩
    let f : Function := ⟨"read", .base (.builtin "void") .plain, ⟨[value], false⟩, .empty, .input,
      ⟨⟨"api.h"⟩, .start⟩, false, none, [⟨"OUT", ["value"], by decide⟩]⟩
    let blocks : CodeBlocks := ⟨true, false, [.decode, .send, .decode], by decide⟩
    ∃ text, ofFunction "  " blocks f = .ok text ∧
      Fence.all text = [.begins "decode", .ends, .begins "send", .ends, .begins "decode", .ends,
        .begins "decode", .ends, .begins "decode", .ends] := by
  intro value f blocks
  have hremote : RemoteFunction.ofFunction f = .ok ⟨.of "read", .base (.builtin "void") .plain,
      [⟨"value", value.type, .output, false⟩], false, false⟩ := rfl
  have huncommented : f.Uncommented := by
    refine ⟨by decide, by decide, ?_⟩
    intro param hparam
    obtain rfl : param = value := List.mem_singleton.mp hparam
    refine ⟨by decide, ?_⟩
    intro name hname
    obtain rfl : "value" = name := Option.some.inj hname
    decide
  obtain ⟨text, htext, hfences, -⟩ :=
    ofFunction_fences (by decide : IsIndent "  ") blocks hremote huncommented
  exact ⟨text, htext, hfences⟩

end Stub

end RemoteCalls
