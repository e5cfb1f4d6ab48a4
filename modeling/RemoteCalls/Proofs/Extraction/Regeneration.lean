import RemoteCalls.Proofs.Extraction.Replay
import RemoteCalls.Proofs.Extraction.Stubs
import RemoteCalls.Proofs.Stub.Regeneration

/-!
# Stubs in a session

A stub that is read back into the session it was written from brings no remote function and loses
none: all that is declared in it tells of the function it was written for.
-/

namespace RemoteCalls

/-- Where nothing is found but declarations, the events of a run are these. -/
theorem Unfolds.forall_declarations {files : Files} {config : Configuration} {depth : Nat}
    {file : Path} {visited : List Path} {found : List Finding} {events : List Event}
    (h : Unfolds files config depth file visited found events) {P : Declaration → Prop}
    (hfound : ∀ finding ∈ found, ∃ d, finding = .declaration d ∧ P d) :
    ∀ d ∈ Event.declarations events, P d := by
  induction h with
  | nil => exact fun d hd => absurd hd List.not_mem_nil
  | declaration d _ ih =>
    obtain ⟨⟨other, heq, hd⟩, hrest⟩ := List.forall_mem_cons.mp hfound
    obtain rfl := Finding.declaration.inj heq
    exact List.forall_mem_cons.mpr ⟨hd, ih hrest⟩
  | diagnostic | passed | tooDeep | unreadable | followed =>
    obtain ⟨⟨_, hd, -⟩, -⟩ := List.forall_mem_cons.mp hfound
    cases hd

namespace Catalog

variable {catalog : Catalog} {name : String}

theorem remoteNames_addInput (catalog : Catalog) (file : Path) :
    (catalog.addInput file).remoteNames = catalog.remoteNames := by
  unfold addInput
  split <;> rfl

/-- What stands in the stub of a remote function brings no name and loses none, one declaration
behind the other. -/
theorem WellFormed.mem_remoteNames_addAll (h : catalog.WellFormed) (hname : name ≠ "")
    (hstem : RemoteNames.stem? name = none) (hlisted : name ∈ catalog.remoteNames)
    {ds : List Declaration}
    (hds : ∀ d ∈ ds, (RemoteNames.of name).Declares d ∧ d.Consistent) (told : String) :
    told ∈ (catalog.addAll ds).remoteNames ↔ told ∈ catalog.remoteNames := by
  induction ds generalizing catalog with
  | nil => rfl
  | cons d ds ih =>
    obtain ⟨⟨hd, hconsistent⟩, hrest⟩ := List.forall_mem_cons.mp hds
    have hadd := h.mem_remoteNames_add hname hstem hlisted hd
    exact (ih (h.add hconsistent) ((hadd name).mpr hlisted) hrest).trans (hadd told)

/-- A text in which nothing is found but what stands in the stub of a remote function brings no
remote function to a session and loses none. -/
theorem mem_remoteNames_extractText (calls : List Call) (files : Files) {config : Configuration}
    (hpolicy : config.errorPolicy = .skip) (file : Path) (text : String) (hname : name ≠ "")
    (hstem : RemoteNames.stem? name = none) (hlisted : name ∈ (session calls).remoteNames)
    (hfound : ∀ finding ∈ Outline.ofText config.noteRules (files.canonical file) .input text,
      (RemoteNames.of name).Finds finding) (told : String) :
    told ∈ ((session calls).extractText files config file text).2.remoteNames ↔
      told ∈ (session calls).remoteNames := by
  obtain ⟨events, hunfolds, hevents⟩ := exists_events files config file text
  have hds : ∀ d ∈ Event.declarations events,
      (RemoteNames.of name).Declares d ∧ d.Consistent := by
    refine hunfolds.forall_declarations fun finding hfinding => ?_
    obtain ⟨d, rfl, hd⟩ := hfound finding hfinding
    exact ⟨d, rfl, hd, Outline.consistent_ofText _ _ _ _ d hfinding⟩
  rw [(hevents (session calls)).2 hpolicy]
  change told ∈ (((session calls).addInput file).addAll _).remoteNames ↔ _
  rw [((wellFormed_session calls).addInput file).mem_remoteNames_addAll hname hstem
    (by rwa [remoteNames_addInput]) hds, remoteNames_addInput]

/-- In the stub of a recorded function, if it is read without a report and no name in it is a marker,
only the function, its helper functions and its result structure are found. -/
theorem finds_of_clean (calls : List Call) {f : Function} (hf : f ∈ (session calls).functions)
    (hsizes : f.NoDirective) {blocks : CodeBlocks} {indent text : String} (hindent : IsIndent indent)
    (htext : Stub.ofFunction indent blocks f = .ok text) {rules : NoteRules} {file : Path}
    {origin : Origin} (hmarkers : ∀ name ∈ namesIn text.toList, rules.isMarker name = false)
    (hclean : Outline.Clean (Outline.ofText rules file origin text)) :
    ∀ finding ∈ Outline.ofText rules file origin text, (RemoteNames.of f.name).Finds finding := by
  unfold Stub.ofFunction at htext
  cases hremote : RemoteFunction.ofFunction f with
  | error fault =>
    rw [hremote] at htext
    cases htext
  | ok remote =>
    rw [hremote] at htext
    cases htext
    obtain ⟨items, hlines, hadmits⟩ :=
      Stub.linesAdmit_lines (scannedFunctions_session calls f hf) hsizes hremote hindent blocks
    have hwritten := hlines []
    rw [List.append_nil] at hwritten
    exact Outline.forall_ofText_of_written hwritten (fun finish =>
      hadmits ⟨rules, file, origin, finish⟩ (hwritten.noMarkers hmarkers)) hclean

/-- Let a recorded function be listed as remote, and let its name be no name that is made from that
of another function. Its stub, whichever blocks are selected, does not change which functions are
listed if it is read into the session, and none of them is listed twice. The stub has to be read
without a report, no name in it may be a marker, and no array size in the prototype of the function
may have a directive in it. -/
theorem extractText_keeps_remoteNames (calls : List Call) (files : Files) {config : Configuration}
    (hpolicy : config.errorPolicy = .skip) (file : Path) {f : Function}
    (hf : f ∈ (session calls).functions) (hlisted : f.name ∈ (session calls).remoteNames)
    (hstem : RemoteNames.stem? f.name = none) (hsizes : f.NoDirective) {blocks : CodeBlocks}
    {indent text : String} (hindent : IsIndent indent)
    (htext : Stub.ofFunction indent blocks f = .ok text)
    (hmarkers : ∀ name ∈ namesIn text.toList, config.noteRules.isMarker name = false)
    (hclean : Outline.Clean
      (Outline.ofText config.noteRules (files.canonical file) .input text)) :
    let after := ((session calls).extractText files config file text).2
    (∀ told, told ∈ after.remoteNames ↔ told ∈ (session calls).remoteNames) ∧
      after.remoteNames.Nodup := by
  have hname : f.name ≠ "" := by
    intro hempty
    have hword := (scannedFunctions_session calls f hf).name.word
    rw [hempty] at hword
    cases hword
  have hfound := finds_of_clean calls hf hsizes hindent htext hmarkers hclean
  exact ⟨mem_remoteNames_extractText calls files hpolicy file text hname hstem hlisted hfound,
    nodup_remoteNames _⟩

theorem ofFunction_of_mem_toOption {indent text : String} {blocks : CodeBlocks} {f : Function}
    (h : text ∈ (Stub.ofFunction indent blocks f).toOption) :
    Stub.ofFunction indent blocks f = .ok text := by
  cases hresult : Stub.ofFunction indent blocks f with
  | ok other =>
    rw [hresult] at h
    cases h
    rfl
  | error fault =>
    rw [hresult] at h
    cases h

/-- A function with an output that returns a pointer. Its name is a word that is skipped where no star
stands in front of it. -/
theorem extractText_keeps_remoteNames_of_thread :
    let config := Configuration.ofMarkers ["RPC"]
    let calls : List Call := [.ofText .empty config ⟨"api.h"⟩
      "/* @RPC(OUT(n)) */ int *__thread(int *n);"]
    let blocks : CodeBlocks := ⟨true, true, [.execute], by decide⟩
    ∃ f ∈ (session calls).functions, ∃ text,
      f.name ∈ (session calls).remoteNames ∧ RemoteNames.stem? f.name = none ∧ f.NoDirective ∧
      Stub.ofFunction "\t" blocks f = .ok text ∧
      (∀ name ∈ namesIn text.toList, config.noteRules.isMarker name = false) ∧
      Outline.Clean (Outline.ofText config.noteRules ⟨"stub.c"⟩ .input text) ∧
      let after := ((session calls).extractText .empty config ⟨"stub.c"⟩ text).2
      (∀ told, told ∈ after.remoteNames ↔ told ∈ (session calls).remoteNames) ∧
        after.remoteNames.Nodup := by
  intro config calls blocks
  have hrecorded : ∃ f ∈ (session calls).functions,
      f.name ∈ (session calls).remoteNames ∧ RemoteNames.stem? f.name = none ∧ f.NoDirective ∧
      ∃ text ∈ (Stub.ofFunction "\t" blocks f).toOption,
        (∀ name ∈ namesIn text.toList, config.noteRules.isMarker name = false) ∧
        Outline.Clean (Outline.ofText config.noteRules ⟨"stub.c"⟩ .input text) := by
    decide +kernel
  obtain ⟨f, hf, hlisted, hstem, hsizes, text, htext, hmarkers, hclean⟩ := hrecorded
  have htext := ofFunction_of_mem_toOption htext
  exact ⟨f, hf, text, hlisted, hstem, hsizes, htext, hmarkers, hclean,
    extractText_keeps_remoteNames calls .empty rfl ⟨"stub.c"⟩ hf hlisted hstem hsizes
      (by decide : IsIndent "\t") htext hmarkers hclean⟩

/-- An include directive in an array size of `f` ends with its line in the source text. In the stub it
stands in the line of the signature and takes the rest of it along, so that only in the next line the
array ends. What stands there behind it is the handler of a function `g`, which is not remote. -/
theorem not_keeps_remoteNames_of_directive :
    let config := Configuration.ofMarkers ["rpc", "SERIALIZE"]
    let calls : List Call := [.ofText .empty config ⟨"api.c"⟩
      "@rpc void f(int a[\n#include <p>\n'//\\\n0]); void g_rpc_handler(int c[' '\\''\n]);\n"]
    let blocks : CodeBlocks := ⟨false, false, [.send], by decide⟩
    ∃ f ∈ (session calls).functions, ∃ text, config.errorPolicy = .skip ∧
      f.name ∈ (session calls).remoteNames ∧ RemoteNames.stem? f.name = none ∧
      Stub.ofFunction "\t" blocks f = .ok text ∧
      (∀ name ∈ namesIn text.toList, config.noteRules.isMarker name = false) ∧
      Outline.Clean (Outline.ofText config.noteRules ⟨"stub.c"⟩ .input text) ∧
      "g" ∉ (session calls).remoteNames ∧
      "g" ∈ ((session calls).extractText .empty config ⟨"stub.c"⟩ text).2.remoteNames := by
  intro config calls blocks
  have hrecorded : ∃ f ∈ (session calls).functions,
      f.name ∈ (session calls).remoteNames ∧ RemoteNames.stem? f.name = none ∧
      ∃ text ∈ (Stub.ofFunction "\t" blocks f).toOption,
        (∀ name ∈ namesIn text.toList, config.noteRules.isMarker name = false) ∧
        Outline.Clean (Outline.ofText config.noteRules ⟨"stub.c"⟩ .input text) ∧
        "g" ∉ (session calls).remoteNames ∧
        "g" ∈ ((session calls).extractText .empty config ⟨"stub.c"⟩ text).2.remoteNames := by
    decide +kernel
  obtain ⟨f, hf, hlisted, hstem, text, htext, hafter⟩ := hrecorded
  exact ⟨f, hf, text, rfl, hlisted, hstem, ofFunction_of_mem_toOption htext, hafter⟩

end Catalog

end RemoteCalls
