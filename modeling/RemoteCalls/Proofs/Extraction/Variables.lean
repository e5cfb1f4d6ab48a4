import RemoteCalls.Proofs.Extraction.Recorded
import RemoteCalls.Proofs.Outline.PrintedVariables

/-!
# Recorded variables are written and read again

The declaration of a name with a type prints the result of a function pointer in front of the
parentheses. So a recorded variable is found again in its declaration exactly if no function pointer
in its type, at any depth, returns a function pointer.
-/

namespace RemoteCalls.Variable

variable {rules : NoteRules} {v : Variable}

/-- No name in front of the type of a variable is a marker. -/
theorem startsPlain_words (h : v.type.Spelled)
    (hmarkers : ∀ name ∈ v.type.parts.filterMap CType.identifier?, rules.isMarker name = false) :
    StartsPlain rules (wordItems v.type.words) := by
  have hleaf := h.leaf_printable
  obtain ⟨word, words, hwords⟩ := List.exists_cons_of_ne_nil hleaf.words_ne_nil
  intro name hname
  rw [← CType.words_leaf, hwords, wordItems, List.map_cons, List.head?_cons, Option.some.injEq,
    Item.token.injEq] at hname
  exact hmarkers name (CType.mem_identifiers_of_leaf (hleaf.eq_nil_of_identifier hwords hname).2)

/-- The declaration of a recorded variable, with a semicolon behind it, is read without a report as
one variable with the same name and the same type exactly if no function pointer in the type returns
a function pointer. For this no tag may be missing in the type, no parameter of a function pointer
may be nothing but `void`, no size may have a directive in it, no name may be a word that is skipped,
and none in the type a marker. -/
theorem ofText_declare (calls : List Call) {v : Variable}
    (hv : v ∈ (Catalog.session calls).globals) (hword : Reader.isPlainWord v.name = true)
    (hparts : ∀ part ∈ v.type.parts, part.SpelledPart) (rules : NoteRules) (file : Path)
    (origin : Origin)
    (hmarkers : ∀ name ∈ v.type.parts.filterMap CType.identifier?, rules.isMarker name = false) :
    (∃ w, Outline.ofText rules file origin (v.type.declare v.name ++ ";") =
        [.declaration (.variable w)] ∧ w.name = v.name ∧ w.type = v.type) ↔
      ∀ part ∈ v.type.parts, part.returnsFunctionPointer = false := by
  have hscanned : v.Scanned := Catalog.scannedGlobals_session calls v hv
  have hname : IsPlainName v.name := isPlainName_of_isPlainWord hscanned.name hword
  have hspelled : v.type.Spelled := hscanned.type.spelled hparts
  have hplain : StartsPlain rules (wordItems v.type.words) := startsPlain_words hspelled hmarkers
  rw [← hspelled.printable_iff]
  constructor
  · rintro ⟨w, hread, -⟩
    by_contra hbad
    obtain ⟨diagnostic, hreported⟩ :=
      Outline.exists_diagnostic_of_spelled hspelled hbad hname hplain file origin
    rw [hread, List.mem_singleton] at hreported
    cases hreported
  · intro hprintable
    have hprints := (hprintable.prints.2 _ _ (prints_word hname.word)).semicolon
    have hwritten := hprints.written [] nofun
    rw [List.append_nil] at hwritten
    exact Outline.ofText_of_written hwritten fun _ =>
      (Outline.standsFor_variable hprintable hname hplain).yields

/-- An array of function pointers with a function pointer among their parameters. -/
theorem ofText_declare_of_handlers :
    let calls : List Call := [.ofText .empty (.ofMarkers ["RPC"]) ⟨"api.h"⟩
      "static const word *(*handlers[N+1])(int (*)(struct node **, ...), char) = \x7b 0 \x7d;"]
    let text := "const word * (*handlers[N+1])(int (*)(struct node **, ...), char)"
    let rules : NoteRules := ⟨["RPC"], .refuse⟩
    ∃ v ∈ (Catalog.session calls).globals, Reader.isPlainWord v.name = true ∧
      (∀ part ∈ v.type.parts, part.SpelledPart) ∧
      (∀ name ∈ v.type.parts.filterMap CType.identifier?, rules.isMarker name = false) ∧
      v.type.declare v.name = text ∧
      ∃ w, Outline.ofText rules ⟨"copy.h"⟩ .input (text ++ ";") = [.declaration (.variable w)] ∧
        w.name = v.name ∧ w.type = v.type := by
  intro calls text rules
  have hrecorded : ∃ v ∈ (Catalog.session calls).globals, Reader.isPlainWord v.name = true ∧
      (∀ part ∈ v.type.parts, part.SpelledPart) ∧
      (∀ name ∈ v.type.parts.filterMap CType.identifier?, rules.isMarker name = false) ∧
      v.type.declare v.name = text ∧
      ∀ part ∈ v.type.parts, part.returnsFunctionPointer = false := by
    decide +kernel
  obtain ⟨v, hv, hword, hparts, hmarkers, htext, hresults⟩ := hrecorded
  have hread := (ofText_declare calls hv hword hparts rules ⟨"copy.h"⟩ .input hmarkers).mpr hresults
  rw [htext] at hread
  exact ⟨v, hv, hword, hparts, hmarkers, htext, hread⟩

/-- The pointer to a function that returns a function pointer is printed as
`void (*)(char) (*f)(int)`, in which nothing is declared. -/
theorem not_ofText_declare_of_result :
    ¬ ∀ (calls : List Call), ∀ v ∈ (Catalog.session calls).globals,
      Reader.isPlainWord v.name = true → (∀ part ∈ v.type.parts, part.SpelledPart) →
      ∀ (rules : NoteRules) (file : Path) (origin : Origin),
        (∀ name ∈ v.name :: v.type.parts.filterMap CType.identifier?, rules.isMarker name = false) →
        ∃ w, Outline.ofText rules file origin (v.type.declare v.name ++ ";") =
          [.declaration (.variable w)] ∧ w.name = v.name ∧ w.type = v.type := by
  intro hall
  let calls : List Call := [.ofText .empty (.ofMarkers ["RPC"]) ⟨"api.h"⟩
    "void (*(*f)(int))(char);"]
  let rules : NoteRules := ⟨["RPC"], .refuse⟩
  have hrecorded : ∃ v ∈ (Catalog.session calls).globals, Reader.isPlainWord v.name = true ∧
      (∀ part ∈ v.type.parts, part.SpelledPart) ∧
      (∀ name ∈ v.name :: v.type.parts.filterMap CType.identifier?,
        rules.isMarker name = false) ∧
      (Outline.declared (Outline.ofText rules ⟨"copy.h"⟩ .input
        (v.type.declare v.name ++ ";"))).isEmpty = true := by
    decide +kernel
  obtain ⟨v, hv, hword, hparts, hmarkers, hnothing⟩ := hrecorded
  obtain ⟨w, hread, -⟩ := hall calls v hv hword hparts rules ⟨"copy.h"⟩ .input hmarkers
  rw [hread] at hnothing
  cases hnothing

end RemoteCalls.Variable
