import RemoteCalls.Proofs.Stub.Rereading

/-!
# Recorded functions and their stubs

The text that is written around a recorded function is read as the parts it was written for,
whatever rules the text is read under, as long as none of its names is a marker.
-/

namespace RemoteCalls

/-- The names in a text that is read into lexemes. -/
def namesIn (cs : List Char) : List String :=
  match Lexed.ofChars cs with
  | .ok lexed => lexed.lexemes.filterMap fun lexeme =>
    match lexeme.token with
    | .identifier name => some name
    | _ => none
  | .error _ => []

/-- A token among some items is a token of every row that spells them. -/
theorem Spells.exists_of_mem {items : List Item} {row : List Lexeme} (h : Spells items row)
    {t : Token} (ht : .token t ∈ items) : ∃ lexeme ∈ row, lexeme.token = t := by
  induction h with
  | nil => cases ht
  | @token lexeme items row _ ih =>
    rcases List.mem_cons.mp ht with heq | ht
    · exact ⟨lexeme, List.mem_cons_self .., (Item.token.inj heq).symm⟩
    · obtain ⟨other, hother, heq⟩ := ih ht
      exact ⟨other, List.mem_cons_of_mem _ hother, heq⟩
  | @dimension opener closer inner row items size _ _ _ _ _ ih =>
    rcases List.mem_cons.mp ht with heq | ht
    · cases heq
    · obtain ⟨other, hother, heq⟩ := ih ht
      refine ⟨other, List.mem_cons_of_mem _ (List.mem_append_right _ ?_), heq⟩
      exact List.mem_cons_of_mem _ hother
  | @width colon inner row items _ _ _ _ ih =>
    rcases List.mem_cons.mp ht with heq | ht
    · cases heq
    · obtain ⟨other, hother, heq⟩ := ih ht
      exact ⟨other, List.mem_cons_of_mem _ (List.mem_append_right _ hother), heq⟩

/-- The names among the items of a text are names in the text. -/
theorem Written.noMarkers {rules : NoteRules} {text : String} {items : List Item}
    (h : Written text.toList items [])
    (hmarkers : ∀ name ∈ namesIn text.toList, rules.isMarker name = false) :
    NoMarkers rules items := by
  obtain ⟨lexed, hlexed, hspells, -, -⟩ := h.ofChars
  intro name hname
  obtain ⟨lexeme, hlexeme, htoken⟩ := hspells.exists_of_mem hname
  refine hmarkers name ?_
  rw [namesIn, hlexed]
  exact List.mem_filterMap.mpr ⟨lexeme, hlexeme, by rw [htoken]⟩

namespace Stub

/-- The characters of some lines, each with a line break behind it. -/
theorem toList_unlines (lines : List String) :
    (unlines lines).toList = lines.flatMap fun line => line.toList ++ ['\n'] := by
  simp [unlines, List.flatMap_def, Function.comp_def]

/-- Around every recorded function that can be remote a stub is written, whichever blocks are
selected. If no name in it is a marker, the stub is read, without a report, as its parts in order
and nothing else: the result structure and the prototypes of the header, then the function itself
and its handler, both defined. The function has the same result and parameters as before, if its
prototype is plain. -/
theorem allFound_ofFunction (calls : List Call) {f : Function}
    (hf : f ∈ (Catalog.session calls).functions) (hplain : f.Plain) {remote : RemoteFunction}
    (hremote : RemoteFunction.ofFunction f = .ok remote) (blocks : CodeBlocks) {indent : String}
    (hindent : IsIndent indent) (rules : NoteRules) (file : Path) (origin : Origin) :
    ∃ text, ofFunction indent blocks f = .ok text ∧
      ((∀ name ∈ namesIn text.toList, rules.isMarker name = false) →
        StubPart.AllFound (parts blocks f remote) (Outline.ofText rules file origin text)) := by
  have hprintable : f.Printable := (Catalog.scannedFunctions_session calls f hf).printable hplain
  obtain ⟨declared, returned, hparts⟩ := RemoteFunction.exists_parts hremote
  obtain ⟨items, hlines, hyields⟩ :=
    linesFor_lines hprintable (hparts.printable hprintable) hindent blocks
  have hwritten := hlines []
  rw [List.append_nil] at hwritten
  refine ⟨unlines (lines indent blocks f remote), by rw [ofFunction, hremote], fun hmarkers => ?_⟩
  exact Outline.ofText_of_written hwritten fun finish =>
    hyields ⟨rules, file, origin, finish⟩ (hwritten.noMarkers hmarkers)

/-- A function with an output, a callback and an array, which returns a pointer to a function. -/
theorem allFound_ofFunction_of_callback :
    let calls : List Call := [.ofText .empty (.ofMarkers ["RPC"]) ⟨"api.h"⟩
      "/* @RPC(OUT(n)) */ int (*f(void (*g)(int), int *n, T t[N+1]))(T);"]
    let rules : NoteRules := ⟨["RPC"], .refuse⟩
    let blocks : CodeBlocks := ⟨true, true, [.execute], by decide⟩
    ∃ f ∈ (Catalog.session calls).functions, f.Plain ∧
      ∃ remote, RemoteFunction.ofFunction f = .ok remote ∧ remote.hasResponse = true ∧
      ∃ text, ofFunction "\t" blocks f = .ok text ∧
        (∀ name ∈ namesIn text.toList, rules.isMarker name = false) ∧
        StubPart.AllFound (parts blocks f remote)
          (Outline.ofText rules ⟨"copy.c"⟩ .input text) := by
  intro calls rules blocks
  have hrecorded : ∃ f ∈ (Catalog.session calls).functions, f.Plain ∧
      ((RemoteFunction.ofFunction f).toOption.any fun remote => remote.hasResponse &&
        (namesIn ((lines "\t" blocks f remote).flatMap fun line => line.toList ++ ['\n'])).all
          fun name => !rules.isMarker name) = true := by
    decide +kernel
  obtain ⟨f, hf, hplain, hmatch⟩ := hrecorded
  cases hremote : RemoteFunction.ofFunction f with
  | error fault =>
    rw [hremote] at hmatch
    cases hmatch
  | ok remote =>
    rw [hremote, Except.toOption, Option.any_some, Bool.and_eq_true, List.all_eq_true,
      ← toList_unlines] at hmatch
    obtain ⟨text, htext, hfound⟩ := allFound_ofFunction calls hf hplain hremote blocks
      (by decide : IsIndent "\t") rules ⟨"copy.c"⟩ .input
    have hlines : ofFunction "\t" blocks f = .ok (unlines (lines "\t" blocks f remote)) := by
      rw [ofFunction, hremote]
    obtain rfl := Except.ok.inj (htext.symm.trans hlines)
    have hmarkers : ∀ name ∈ namesIn (unlines (lines "\t" blocks f remote)).toList,
        rules.isMarker name = false := fun name hname =>
      Bool.not_eq_true' _ ▸ hmatch.2 name hname
    exact ⟨f, hf, hplain, remote, hremote, hmatch.1, _, htext, hmarkers, hfound hmarkers⟩

end Stub

end RemoteCalls
