import RemoteCalls.Proofs.Stub.Rereading

/-!
# Recorded structures are written and read again

The definition of a structure is written with a line for each member, from just the items that are
read as the structure. So a recorded structure is found again in its text, member by member, unless
a type among its members has no spelling of its own.
-/

namespace RemoteCalls

/-- What stands behind the declarator of a member on its line is written from the width, if the
member is a bit-field, and the semicolon. -/
theorem Field.Printable.prints {field : Field} (h : field.Printable) :
    Prints (field.type.declare field.name ++ (match field.width with
      | some width => " : " ++ width
      | none => "") ++ ";") field.items := by
  have hdeclare := h.type.prints.2 _ _ (prints_word h.name.word)
  obtain ⟨name, type, width⟩ := field
  cases width with
  | none =>
    rw [String.append_empty]
    exact hdeclare.semicolon
  | some width =>
    have hwidth : PlainWidth width := h.width width rfl
    have hfits : ∀ rest, Fits ((" : " ++ width ++ ";").toList ++ rest) := by
      intro rest
      rw [String.toList_append, String.toList_append]
      exact fits_space _
    have htail : ∀ rest, Written ((" : " ++ width ++ ";").toList ++ rest)
        (widthItems (some width) ++ [.token .semicolon]) rest := by
      intro rest
      have hchars : (" : " ++ width ++ ";").toList ++ rest =
          ' ' :: ':' :: ' ' :: (width.toList ++ ';' :: rest) := by
        simp
      rw [hchars]
      refine .space (.width width hwidth ?_ (.mark rfl (.done rest)))
      rintro _ ⟨⟩
      rfl
    rw [String.append_assoc]
    exact hdeclare.behind hfits htail

namespace Stub

variable {indent : String} {s : Structure}

/-- The members of a structure are written line by line. -/
theorem writtenLines_members (hindent : IsIndent indent) {fields : List Field}
    (h : ∀ field ∈ fields, field.Printable) :
    WrittenLines (fields.map fun field => indent ++ field.type.declare field.name ++
      (match field.width with
        | some width => " : " ++ width
        | none => "") ++ ";") (fields.flatMap Field.items) := by
  induction fields with
  | nil => exact .nil
  | cons field fields ih =>
    obtain ⟨hfield, hfields⟩ := List.forall_mem_cons.mp h
    have hline := WrittenLines.line hindent hfield.prints
    simp only [← String.append_assoc] at hline
    exact hline.append (ih hfields)

/-- The definition of a structure is written from the items of its members. -/
theorem written_ofStructure (hindent : IsIndent indent) (hdefined : s.isDefined = true)
    (hname : IsPlainName s.name) (hfields : ∀ field ∈ s.fields, field.Printable) :
    Written (ofStructure indent s).toList (structItems s.name s.fields) [] := by
  have hlines := WrittenLines.struct hname (writtenLines_members hindent hfields) []
  rw [List.append_nil] at hlines
  rw [ofStructure, if_pos hdefined]
  exact hlines

/-- No function pointer among the members begins with a marker. -/
theorem startsPlain_of_callbackWords {rules : NoteRules}
    (hmarkers : ∀ word ∈ s.callbackWords, rules.isMarker word = false) {field : Field}
    (hfield : field ∈ s.fields) (hprintable : field.Printable) : field.StartsPlain rules := by
  intro hfunction name hname
  obtain ⟨word, words, hwords⟩ := List.exists_cons_of_ne_nil hprintable.type.words_ne_nil
  rw [Field.items_eq_cons hwords, List.head?_cons, Option.some.injEq, Item.token.injEq] at hname
  have hword : word = name := by
    have htext := congrArg Token.text hname
    rwa [Token.text_ofWord] at htext
  rw [← hword]
  refine hmarkers word (List.mem_filterMap.mpr ⟨field, ?_, by rw [hwords, List.head?_cons]⟩)
  exact List.mem_filter.mpr ⟨hfield, hfunction⟩

/-- The text of a recorded structure that is defined is read, without a report, as one structure
with the same name and the same members: their names, types and widths, in order. For this no tag
may be missing in a type, no function pointer may return one, no parameter may be nothing but
`void`, no name may be a word that is skipped, no size and no width may have a directive in it, and
no function pointer may begin with a marker. -/
theorem ofText_ofStructure (calls : List Call) {s : Structure}
    (hs : s ∈ (Catalog.session calls).structures) (hdefined : s.isDefined = true)
    (hplain : s.Plain) {indent : String} (hindent : IsIndent indent) (rules : NoteRules)
    (file : Path) (origin : Origin)
    (hmarkers : ∀ word ∈ s.callbackWords, rules.isMarker word = false) :
    ∃ t, Outline.ofText rules file origin (ofStructure indent s) = [.declaration (.struct t)] ∧
      t.name = s.name ∧ t.fields = s.fields ∧ t.isDefined = true := by
  have hscanned : s.Scanned := Catalog.scannedStructures_session calls s hs
  have hname : IsPlainName s.name := hscanned.isPlainName hplain
  have hfields : ∀ field ∈ s.fields, field.Printable := fun field hfield =>
    hscanned.printable hplain hfield
  exact Outline.ofText_of_written (written_ofStructure hindent hdefined hname hfields) fun _ =>
    (Outline.standsFor_struct hname hfields fun field hfield =>
      startsPlain_of_callbackWords hmarkers hfield (hfields field hfield)).yields

/-- A structure with the definition of another one inside, a nameless one that passes its member on,
bit-fields, an array and a function pointer. -/
theorem ofText_ofStructure_of_node :
    let calls : List Call := [.ofText .empty (.ofMarkers ["RPC"]) ⟨"api.h"⟩
      ("struct node \x7b struct key \x7b int n; \x7d at; struct \x7b long id; \x7d;\n" ++
        "unsigned kind : 3, : 0, set:N+1; char *names[2][M]; int (*less)(struct node *, ...); " ++
        "\x7d;")]
    let text := "struct node \x7b\n  struct key at;\n  long id;\n  unsigned kind : 3;\n" ++
      "  unsigned set : N+1;\n  char *names[2][M];\n  int (*less)(struct node *, ...);\n\x7d;\n"
    let rules : NoteRules := ⟨["RPC"], .refuse⟩
    ∃ s ∈ (Catalog.session calls).structures, s.isDefined = true ∧ s.Plain ∧
      (∀ word ∈ s.callbackWords, rules.isMarker word = false) ∧ ofStructure "  " s = text ∧
      ∃ t, Outline.ofText rules ⟨"copy.h"⟩ .input text = [.declaration (.struct t)] ∧
        t.name = s.name ∧ t.fields = s.fields ∧ t.isDefined = true := by
  intro calls text rules
  have hrecorded : ∃ s ∈ (Catalog.session calls).structures, s.isDefined = true ∧ s.Plain ∧
      (∀ word ∈ s.callbackWords, rules.isMarker word = false) ∧ ofStructure "  " s = text := by
    decide +kernel
  obtain ⟨s, hs, hdefined, hplain, hmarkers, htext⟩ := hrecorded
  obtain ⟨t, hread, hsame⟩ := ofText_ofStructure calls hs hdefined hplain
    (by decide : IsIndent "  ") rules ⟨"copy.h"⟩ .input hmarkers
  rw [htext] at hread
  exact ⟨s, hs, hdefined, hplain, hmarkers, htext, t, hread, hsame⟩

/-- The name of an enumeration without a tag cannot be read, so that nothing is declared in the text
of a structure with such a member. -/
theorem not_ofText_ofStructure_of_enum :
    ¬ ∀ (calls : List Call), ∀ s ∈ (Catalog.session calls).structures, s.isDefined = true →
      ∃ t, Outline.ofText ⟨["RPC"], .refuse⟩ ⟨"copy.h"⟩ .input (ofStructure "\t" s) =
          [.declaration (.struct t)] ∧
        t.name = s.name ∧ t.fields = s.fields ∧ t.isDefined = true := by
  intro hall
  let calls : List Call := [.ofText .empty (.ofMarkers ["RPC"]) ⟨"api.h"⟩
    "struct s \x7b enum \x7b A \x7d e; \x7d;"]
  have hrecorded : ∃ s ∈ (Catalog.session calls).structures, s.isDefined = true ∧
      (Outline.declared (Outline.ofText ⟨["RPC"], .refuse⟩ ⟨"copy.h"⟩ .input
        (ofStructure "\t" s))).isEmpty = true := by
    decide +kernel
  obtain ⟨s, hs, hdefined, hnothing⟩ := hrecorded
  obtain ⟨t, hread, -⟩ := hall calls s hs hdefined
  rw [hread] at hnothing
  cases hnothing

end Stub

end RemoteCalls
