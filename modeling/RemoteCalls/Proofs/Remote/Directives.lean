import Mathlib.Data.List.Forall2
import RemoteCalls.Proofs.Text.Pieces
import RemoteCalls.Remote

/-!
# What spells a directive

A text spells a directive as its word alone, or as its word with arguments in parentheses behind it,
and blanks around the parts do not count. A note gives the directive that its name is, with the
arguments as they stand; if its name is none, it gives those that its arguments spell, in order, and
what spells no directive is passed over. The directives of a function are those of its notes.
-/

namespace RemoteCalls

/-! ## Texts -/

theorem DirectiveKind.of?_eq_some_iff {word : String} {kind : DirectiveKind} :
    of? word = some kind ↔ word = kind.text := by
  constructor
  · intro h
    unfold of? at h
    have hfound := List.find?_some h
    exact (of_decide_eq_true hfound).symm
  · rintro rfl
    exact of?_text kind

theorem DirectiveKind.of?_eq_none_iff {word : String} :
    of? word = none ↔ ∀ kind : DirectiveKind, word ≠ kind.text := by
  simp only [Option.eq_none_iff_forall_ne_some, ne_eq, of?_eq_some_iff]

namespace Directive

/-- A text spells a directive. Between the parentheses the arguments are cut at every comma, and
those that are blank are left out. -/
inductive Spells (text : String) : Directive → Prop
  | word {kind : DirectiveKind} (around : Text.Trimmed text.toList kind.text.toList) :
      Spells text ⟨kind, []⟩
  | call {kind : DirectiveKind} {front inner : List Char} {pieces : List (List Char)}
      (around : Text.Trimmed text.toList (front ++ '(' :: (inner ++ [')'])))
      (name : Text.Trimmed front kind.text.toList)
      (cut : List.Forall₂ Text.Trimmed (inner.splitOn ',') pieces) :
      Spells text ⟨kind, (pieces.filter (· ≠ [])).map String.ofList⟩

variable {text : String} {front inner : List Char} {directive : Directive}

/-- A text without an opening parenthesis is the word of a directive, or none. -/
theorem ofText?_of_word (h : Text.Trimmed text.toList front) (hfront : '(' ∉ front) :
    ofText? text = (DirectiveKind.of? (String.ofList front)).map (⟨·, []⟩) := by
  have htake : front.takeWhile (· ≠ '(') = front :=
    List.takeWhile_eq_self_iff.mpr fun c hc => decide_eq_true fun heq => hfront (heq ▸ hc)
  unfold ofText?
  dsimp only
  rw [h.trim_eq, htake, List.drop_length]

theorem takeWhile_of_not_mem (hfront : '(' ∉ front) (rest : List Char) :
    (front ++ '(' :: rest).takeWhile (· ≠ '(') = front := by
  have hall : ∀ c ∈ front, decide (c ≠ '(') = true :=
    fun c hc => decide_eq_true fun heq => hfront (heq ▸ hc)
  rw [List.takeWhile_append_of_pos hall, List.takeWhile_cons_of_neg (by simp), List.append_nil]

/-- What stands in front of the first parenthesis is the word of a directive, or there is none. -/
theorem ofText?_of_call (h : Text.Trimmed text.toList (front ++ '(' :: (inner ++ [')'])))
    (hfront : '(' ∉ front) :
    ofText? text =
      (DirectiveKind.of? (String.ofList (Text.trim front))).map (⟨·, Text.commaPieces inner⟩) := by
  unfold ofText?
  dsimp only
  rw [h.trim_eq, takeWhile_of_not_mem hfront, List.drop_left]
  dsimp only
  rw [if_pos List.getLast?_concat, List.dropLast_concat]

/-- Behind an opening parenthesis a directive ends in a closing one. -/
theorem ofText?_of_not_closed (h : Text.Trimmed text.toList (front ++ '(' :: inner))
    (hfront : '(' ∉ front) (hinner : inner.getLast? ≠ some ')') : ofText? text = none := by
  unfold ofText?
  dsimp only
  rw [h.trim_eq, takeWhile_of_not_mem hfront, List.drop_left]
  exact if_neg hinner

theorem commaPieces_eq_of_forall₂ {pieces : List (List Char)}
    (cut : List.Forall₂ Text.Trimmed (inner.splitOn ',') pieces) :
    Text.commaPieces inner = (pieces.filter (· ≠ [])).map String.ofList := by
  have hpieces : (inner.splitOn ',').map Text.trim = pieces := by
    rw [← List.forall₂_eq_eq_eq, List.forall₂_map_left_iff]
    exact cut.imp fun piece core => Text.Trimmed.trim_eq
  rw [Text.commaPieces_eq, hpieces]

theorem exists_commaPieces (inner : List Char) :
    ∃ pieces, List.Forall₂ Text.Trimmed (inner.splitOn ',') pieces ∧
      Text.commaPieces inner = (pieces.filter (· ≠ [])).map String.ofList := by
  refine ⟨(inner.splitOn ',').map Text.trim, ?_, Text.commaPieces_eq inner⟩
  rw [List.forall₂_map_right_iff, List.forall₂_same]
  exact fun piece _ => Text.trimmed_trim piece

theorem ofText?_of_spells (h : Spells text directive) : ofText? text = some directive := by
  have hword (kind : DirectiveKind) : '(' ∉ kind.text.toList := by
    cases kind <;> decide
  cases h with
  | @word kind around =>
    rw [ofText?_of_word around (hword kind), String.ofList_toList, DirectiveKind.of?_text]
    rfl
  | @call kind front inner pieces around name cut =>
    have hfront : '(' ∉ front := fun hmem => hword kind (name.mem (by decide) hmem)
    rw [ofText?_of_call around hfront, name.trim_eq, String.ofList_toList, DirectiveKind.of?_text,
      commaPieces_eq_of_forall₂ cut]
    rfl

theorem spells_of_ofText? (h : ofText? text = some directive) : Spells text directive := by
  have htrim := Text.trimmed_trim text.toList
  by_cases hopen : '(' ∈ Text.trim text.toList
  · obtain ⟨front, rest, hsplit, hfront⟩ := List.eq_append_cons_of_mem hopen
    rw [hsplit] at htrim
    by_cases hclose : rest.getLast? = some ')'
    · obtain ⟨inner, rfl⟩ := List.getLast?_eq_some_iff.mp hclose
      rw [ofText?_of_call htrim hfront, Option.map_eq_some_iff] at h
      obtain ⟨kind, hkind, rfl⟩ := h
      have hname : Text.Trimmed front kind.text.toList := by
        rw [← Text.trim_eq_iff, ← DirectiveKind.of?_eq_some_iff.mp hkind, String.toList_ofList]
      obtain ⟨pieces, cut, hpieces⟩ := exists_commaPieces inner
      rw [hpieces]
      exact .call htrim hname cut
    · rw [ofText?_of_not_closed htrim hfront hclose] at h
      cases h
  · rw [ofText?_of_word htrim hopen, Option.map_eq_some_iff] at h
    obtain ⟨kind, hkind, rfl⟩ := h
    rw [DirectiveKind.of?_eq_some_iff] at hkind
    refine .word ?_
    rwa [← hkind, String.toList_ofList]

/-- A text is read as a directive exactly when it spells it. -/
theorem ofText?_eq_some_iff : ofText? text = some directive ↔ Spells text directive :=
  ⟨spells_of_ofText?, ofText?_of_spells⟩

/-! ## Notes -/

/-- The directives that some texts spell, in order. Texts that spell none are passed over. -/
inductive SpelledIn : List String → List Directive → Prop
  | nil : SpelledIn [] []
  | takes {text : String} {texts : List String} {directive : Directive}
      {directives : List Directive} (spelled : Spells text directive)
      (rest : SpelledIn texts directives) : SpelledIn (text :: texts) (directive :: directives)
  | passes {text : String} {texts : List String} {directives : List Directive}
      (other : ∀ directive, ¬ Spells text directive) (rest : SpelledIn texts directives) :
      SpelledIn (text :: texts) directives

theorem spelledIn_filterMap (texts : List String) : SpelledIn texts (texts.filterMap ofText?) := by
  induction texts with
  | nil => exact .nil
  | cons text texts ih =>
    cases h : ofText? text with
    | some directive =>
      rw [List.filterMap_cons_some h]
      exact .takes (spells_of_ofText? h) ih
    | none =>
      rw [List.filterMap_cons_none h]
      refine .passes (fun directive hspells => ?_) ih
      rw [ofText?_of_spells hspells] at h
      cases h

theorem SpelledIn.filterMap_eq {texts : List String} {directives : List Directive}
    (h : SpelledIn texts directives) : texts.filterMap ofText? = directives := by
  induction h with
  | nil => rfl
  | takes spelled _ ih => rw [List.filterMap_cons_some (ofText?_of_spells spelled), ih]
  | @passes text _ _ other _ ih =>
    have hnone : ofText? text = none :=
      Option.eq_none_iff_forall_ne_some.mpr fun directive h => other directive (spells_of_ofText? h)
    rw [List.filterMap_cons_none hnone, ih]

end Directive

/-- The directives that a note gives. -/
inductive Note.Gives (note : Note) : List Directive → Prop
  /-- The name of the note is that of a directive, and its arguments stay as they are. -/
  | itself {kind : DirectiveKind} (name : note.name = kind.text) :
      Gives note [⟨kind, note.arguments⟩]
  /-- The name of the note is another one, and its arguments are read. -/
  | arguments {directives : List Directive} (name : ∀ kind : DirectiveKind, note.name ≠ kind.text)
      (spelled : Directive.SpelledIn note.arguments directives) : Gives note directives

namespace Directive

variable {note : Note} {directives : List Directive}

theorem gives_ofNote (note : Note) : note.Gives (ofNote note) := by
  unfold ofNote
  split
  · next kind hkind => exact .itself (DirectiveKind.of?_eq_some_iff.mp hkind)
  · next hother => exact .arguments (DirectiveKind.of?_eq_none_iff.mp hother) (spelledIn_filterMap _)

theorem ofNote_of_gives (h : note.Gives directives) : ofNote note = directives := by
  cases h with
  | itself name => rw [ofNote, name, DirectiveKind.of?_text]
  | arguments name spelled =>
    rw [ofNote, DirectiveKind.of?_eq_none_iff.mpr name]
    exact spelled.filterMap_eq

/-- A note is read as the directives that it gives. -/
theorem ofNote_eq_iff : ofNote note = directives ↔ note.Gives directives := by
  refine ⟨?_, ofNote_of_gives⟩
  rintro rfl
  exact gives_ofNote note

end Directive

namespace Function

/-- The directives on a function: what its notes give, one note after the other. -/
def DirectedBy (f : Function) (directives : List Directive) : Prop :=
  ∃ given, List.Forall₂ Note.Gives f.notes given ∧ directives = given.flatten

/-- The directives on a function, in order: those that its notes are, or have as arguments. -/
def directives (f : Function) : List Directive :=
  f.notes.flatMap Directive.ofNote

theorem directedBy_iff {f : Function} {directives : List Directive} :
    f.DirectedBy directives ↔ directives = f.directives := by
  have hgiven (given : List (List Directive)) :
      List.Forall₂ Note.Gives f.notes given ↔ f.notes.map Directive.ofNote = given := by
    rw [← List.forall₂_eq_eq_eq, List.forall₂_map_left_iff]
    exact ⟨fun h => h.imp fun _ _ => Directive.ofNote_of_gives,
      fun h => h.imp fun _ _ => Directive.ofNote_eq_iff.mp⟩
  simp only [DirectedBy, hgiven, exists_eq_left', Function.directives, List.flatMap_def]

end Function

end RemoteCalls
