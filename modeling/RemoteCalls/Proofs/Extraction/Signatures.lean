import RemoteCalls.Proofs.Extraction.Recorded
import RemoteCalls.Proofs.Outline.Prototypes

/-!
# Recorded signatures are read again

The signature of a recorded function declares the function again, whatever rules the text of it is
read under.
-/

namespace RemoteCalls

/-- The signature of a printable function with a semicolon behind it declares the function. -/
theorem Function.Printable.findsFunction_signature {f : Function} (h : f.Printable) (rules : NoteRules)
    (file : Path) (origin : Origin)
    (hmarkers : ∀ name ∈ f.identifiers, rules.isMarker name = false) :
    Outline.FindsFunction f false (Outline.ofText rules file origin (f.signature ++ ";")) := by
  have hwritten := h.prints.semicolon.written [] nofun
  rw [List.append_nil] at hwritten
  exact Outline.ofText_of_written hwritten fun _ =>
    (Outline.standsFor_prototype h (Outline.startsPlain_items h hmarkers)).yields

/-- The signature of a recorded function, with a semicolon behind it, is read as one declaration and
without a report. It declares a function with the same name, result and parameters, if no name in
the function is a marker or a word that is skipped, if no tag is missing, no function pointer
returns one, no parameter is nothing but `void`, and no size has a directive in it. -/
theorem ofText_signature (calls : List Call) {f : Function}
    (hf : f ∈ (Catalog.session calls).functions) (hplain : f.Plain) (rules : NoteRules)
    (file : Path) (origin : Origin)
    (hmarkers : ∀ name ∈ f.identifiers, rules.isMarker name = false) :
    ∃ g, Outline.ofText rules file origin (f.signature ++ ";") = [.declaration (.function g)] ∧
      g.name = f.name ∧ g.result = f.result ∧ g.params = f.params := by
  have hscanned : f.Scanned := Catalog.scannedFunctions_session calls f hf
  obtain ⟨g, hfound, hsame, -⟩ :=
    (hscanned.printable hplain).findsFunction_signature rules file origin hmarkers
  exact ⟨g, hfound, hsame.name, hsame.result, hsame.params⟩

/-- A function with an array, function pointers and an open end, which returns a function pointer. -/
theorem ofText_signature_of_find :
    let calls : List Call := [.ofText .empty (.ofMarkers ["RPC"]) ⟨"api.h"⟩
      "struct point *(*find(const char *names[N+1], int (*less)(void *), ...))(unsigned long);"]
    let rules : NoteRules := ⟨["RPC"], .refuse⟩
    ∃ f ∈ (Catalog.session calls).functions,
      f.signature =
        "struct point * (*find(const char *names[N+1], int (*less)(void *), ...))(unsigned long)" ∧
      f.Plain ∧ (∀ name ∈ f.identifiers, rules.isMarker name = false) ∧
      ∃ g, Outline.ofText rules ⟨"copy.h"⟩ .input (f.signature ++ ";") =
          [.declaration (.function g)] ∧
        g.name = f.name ∧ g.result = f.result ∧ g.params = f.params := by
  intro calls rules
  have hrecorded : ∃ f ∈ (Catalog.session calls).functions,
      f.signature =
        "struct point * (*find(const char *names[N+1], int (*less)(void *), ...))(unsigned long)" ∧
      f.Plain ∧ ∀ name ∈ f.identifiers, rules.isMarker name = false := by
    decide +kernel
  obtain ⟨f, hf, htext, hplain, hmarkers⟩ := hrecorded
  exact ⟨f, hf, htext, hplain, hmarkers,
    ofText_signature calls hf hplain rules ⟨"copy.h"⟩ .input hmarkers⟩

end RemoteCalls
