import RemoteCalls.Stub

/-!
# What a line of a stub refers to

A line refers to the names in it, and to members of a name that stand behind a point. Texts that are
put together where no name goes on refer to what each of them refers to, so that the references of a
line are known from its parts, and those of a declaration from the parts of its type.
-/

namespace RemoteCalls

namespace Stub

/-- Whether a character stands between references: neither in a name nor in front of a member. -/
def separates (c : Char) : Bool :=
  !(Segment.isWordChar c || c == '.')

/-- The names in a line, each with the members that stand behind it. -/
def references (line : String) : List String :=
  ((line.toList.splitOnP separates).filter (· ≠ [])).map String.ofList

/-- What a reference is about: the name in front of its members. -/
def subject (reference : String) : String :=
  String.ofList (reference.toList.takeWhile (· ≠ '.'))

/-- A line refers to a name or to a member of it. -/
def Uses (line name : String) : Prop := ∃ reference ∈ references line, subject reference = name

instance (line name : String) : Decidable (Uses line name) :=
  inferInstanceAs (Decidable (∃ reference ∈ references line, subject reference = name))

/-- A text is one name. -/
def IsWord (name : String) : Prop := name ≠ "" ∧ name.toList.all Segment.isWordChar = true

instance (name : String) : Decidable (IsWord name) :=
  inferInstanceAs (Decidable (name ≠ "" ∧ name.toList.all Segment.isWordChar = true))

theorem IsWord.isWordChar {name : String} (h : IsWord name) {c : Char} (hc : c ∈ name.toList) :
    Segment.isWordChar c = true :=
  List.all_eq_true.mp h.2 c hc

/-- Whether no name goes on behind a text. -/
def endsApart (text : String) : Bool := text.toList.getLast?.all separates

/-- Whether no name goes on in front of a text. -/
def beginsApart (text : String) : Bool := text.toList.head?.all separates

theorem beginsApart_append {text : String} (hne : text ≠ "") (h : beginsApart text = true)
    (behind : String) : beginsApart (text ++ behind) = true := by
  have hne : text.toList ≠ [] := by simpa using hne
  obtain ⟨c, cs, hchars⟩ := List.exists_cons_of_ne_nil hne
  simpa [beginsApart, hchars] using h

theorem references_append_of_beginsApart (text : String) {behind : String}
    (h : beginsApart behind = true) :
    references (text ++ behind) = references text ++ references behind := by
  simp only [references, String.toList_append]
  cases hchars : behind.toList with
  | nil => simp
  | cons c cs =>
    have hc : separates c = true := by simpa [beginsApart, hchars] using h
    have hbehind := List.splitOnP_append_cons [] cs hc
    rw [List.nil_append] at hbehind
    rw [List.splitOnP_append_cons _ _ hc, hbehind]
    simp

theorem references_append_of_endsApart {text : String} (behind : String)
    (h : endsApart text = true) :
    references (text ++ behind) = references text ++ references behind := by
  simp only [references, String.toList_append]
  rcases List.eq_nil_or_concat text.toList with hchars | ⟨cs, c, hchars⟩
  · simp [hchars]
  · rw [List.concat_eq_append] at hchars
    have hc : separates c = true := by simpa [endsApart, hchars] using h
    have htext := List.splitOnP_append_cons cs [] hc
    rw [hchars, htext, List.append_assoc, List.singleton_append, List.splitOnP_append_cons _ _ hc]
    simp

theorem endsApart_append {text : String} (hne : text ≠ "") (h : endsApart text = true)
    (front : String) : endsApart (front ++ text) = true := by
  have hne : text.toList ≠ [] := by simpa using hne
  obtain ⟨cs, c, hchars⟩ := (List.eq_nil_or_concat text.toList).resolve_left hne
  rw [List.concat_eq_append] at hchars
  simpa [endsApart, hchars, ← List.append_assoc] using h

/-- The references of a text between two others. -/
theorem references_between {front behind : String} (hfront : endsApart front = true)
    (hbehind : beginsApart behind = true) (text : String) :
    references (front ++ text ++ behind) =
      references front ++ references text ++ references behind := by
  rw [references_append_of_beginsApart _ hbehind, references_append_of_endsApart _ hfront]

/-- A text in which nothing is apart is one reference. -/
theorem references_of_joined {text : String} (hne : text ≠ "")
    (h : ∀ c ∈ text.toList, separates c = false) : references text = [text] := by
  have hne : text.toList ≠ [] := by simpa using hne
  simp [references, List.splitOnP_eq_singleton h, hne]

/-- A name is its only reference. -/
theorem references_of_word {name : String} (h : IsWord name) : references name = [name] :=
  references_of_joined h.1 fun c hc => by simp [separates, h.isWordChar hc]

/-- A member of a name is one reference. -/
theorem references_member {name member : String} (h : IsWord name) (hmember : IsWord member) :
    references (name ++ "." ++ member) = [name ++ "." ++ member] := by
  refine references_of_joined ?_ ?_
  · intro hempty
    have hlength := congrArg String.length hempty
    simp [String.length_append] at hlength
  · intro c hc
    simp only [String.toList_append, List.mem_append] at hc
    rcases hc with (hc | hc) | hc
    · simp [separates, h.isWordChar hc]
    · obtain rfl : c = '.' := by simpa using hc
      rfl
    · simp [separates, hmember.isWordChar hc]

/-- The part of a name in front of a point is the whole name. -/
theorem IsWord.takeWhile_append {name : String} (h : IsWord name) (behind : List Char) :
    (name.toList ++ behind).takeWhile (· ≠ '.') =
      name.toList ++ behind.takeWhile (· ≠ '.') := by
  refine List.takeWhile_append_of_pos ?_
  intro c hc
  refine decide_eq_true ?_
  rintro rfl
  exact absurd (h.isWordChar hc) (by decide)

/-- A name is about itself. -/
theorem subject_of_word {name : String} (h : IsWord name) : subject name = name := by
  have hname := h.takeWhile_append []
  rw [List.append_nil] at hname
  rw [subject, hname, List.takeWhile_nil, List.append_nil, String.ofList_toList]

/-- A member of a name is about the name. -/
theorem subject_member {name : String} (h : IsWord name) (member : String) :
    subject (name ++ "." ++ member) = name := by
  simp only [subject, String.toList_append, List.append_assoc]
  rw [h.takeWhile_append]
  simp

/-- The references of texts with commas between them. -/
theorem references_intercalate (texts : List String) :
    references (", ".intercalate texts) = texts.flatMap references := by
  induction texts with
  | nil => simp [references]
  | cons text texts ih =>
    cases texts with
    | nil => simp
    | cons next texts =>
      have hcomma : references ", " = [] := by decide
      rw [String.intercalate_cons_cons, String.append_assoc,
        references_append_of_beginsApart _ (beginsApart_append (by decide) (by decide) _),
        references_append_of_endsApart _ (by decide), ih, hcomma]
      simp

/-- Stars are no references. -/
@[simp] theorem references_stars (n : Nat) : references (Shape.stars n) = [] := by
  have hapart : ∀ cs : List Char, (∀ c ∈ cs, separates c = true) →
      ((cs.splitOnP separates).filter (· ≠ [])).map String.ofList = [] := by
    intro cs hcs
    induction cs with
    | nil => simp
    | cons c cs ih =>
      have hc := List.splitOnP_append_cons [] cs (hcs c (by simp))
      rw [List.nil_append] at hc
      rw [hc]
      simpa using ih fun c hc => hcs c (List.mem_cons_of_mem _ hc)
  refine hapart _ ?_
  intro c hc
  simp only [Shape.stars, String.toList_ofList] at hc
  rw [List.eq_of_mem_replicate hc]
  rfl

theorem endsApart_stars (n : Nat) : endsApart (Shape.stars n) = true := by
  simp only [endsApart, Shape.stars, String.toList_ofList]
  cases n with
  | zero => rfl
  | succ n =>
    rw [List.replicate_succ', List.getLast?_concat]
    rfl

theorem beginsApart_brackets (shape : Shape) : beginsApart shape.brackets = true := by
  unfold Shape.brackets
  cases shape.dimensions with
  | nil => rfl
  | cons size sizes =>
    simp only [List.map_cons, String.join_cons, String.append_assoc]
    exact beginsApart_append (by decide) (by decide) _

/-- Qualifiers are references in front of those of the base. -/
theorem references_qualifiers_append (shape : Shape) (base : String) :
    references (shape.qualifiers ++ base) =
      (if shape.isConst then ["const"] else []) ++
        (if shape.isVolatile then ["volatile"] else []) ++ references base := by
  have hends : endsApart shape.qualifiers = true := by
    unfold Shape.qualifiers
    cases shape.isConst <;> cases shape.isVolatile <;> decide
  rw [references_append_of_endsApart _ hends]
  congr 1
  unfold Shape.qualifiers
  cases shape.isConst <;> cases shape.isVolatile <;> decide

/-- The references of a name under stars and dimensions behind a base. -/
theorem references_declarator {opening : String} (hne : opening ≠ "")
    (hbegins : beginsApart opening = true) (hends : endsApart opening = true) (base name : String)
    (n : Nat) (shape : Shape) :
    references (base ++ opening ++ Shape.stars n ++ name ++ shape.brackets) =
      references base ++ references opening ++ references name ++ references shape.brackets := by
  rw [references_append_of_beginsApart _ (beginsApart_brackets shape), String.append_assoc,
    String.append_assoc, references_append_of_beginsApart _ (beginsApart_append hne hbegins _),
    references_append_of_endsApart _ hends, references_append_of_endsApart _ (endsApart_stars n),
    references_stars, List.nil_append]
  simp only [List.append_assoc]

end Stub

namespace CType

open Stub

/-- The references of a type in front of a declared name. -/
def frontReferences : CType → List String
  | base b _ => references b.text
  | function result _ _ _ => references result.spelling

/-- The references of a type behind a declared name. -/
def backReferences : CType → List String
  | base _ shape => references shape.brackets
  | function _ params variadic shape =>
    references shape.brackets ++ references (parameterText (spellings params) variadic)

/-- The references of a declaration. The name that is declared is one of them. -/
theorem references_declare (type : CType) {name : String} (h : IsWord name) :
    references (type.declare name) =
      (if type.shape.isConst then ["const"] else []) ++
        (if type.shape.isVolatile then ["volatile"] else []) ++
        type.frontReferences ++ name :: type.backReferences := by
  cases type with
  | base b shape =>
    have hspace : references " " = [] := by decide
    simp only [declare, baseSpelling]
    rw [references_declarator (by decide) (by decide) (by decide),
      references_qualifiers_append, hspace, references_of_word h]
    simp only [List.append_nil, List.append_assoc, List.singleton_append]
    rfl
  | function result params variadic shape =>
    let list := parameterText (spellings params) variadic
    have hopening : references " (" = [] := by decide
    have hclosing : references ")(" = [] := by decide
    have hend : references ")" = [] := by decide
    have hbegins : beginsApart (")(" ++ list) = true :=
      beginsApart_append (by decide) (by decide) _
    have hlist : references (")(" ++ list) = references list := by
      rw [references_append_of_endsApart _ (by decide), hclosing, List.nil_append]
    simp only [declare, baseSpelling]
    rw [references_append_of_beginsApart _ (by decide), String.append_assoc,
      references_append_of_beginsApart _ hbegins, hlist,
      references_declarator (by decide) (by decide) (by decide),
      references_qualifiers_append, hopening, hend, references_of_word h]
    simp only [List.append_nil, List.append_assoc, List.singleton_append]
    rfl

/-- With fewer qualifiers and another number of pointers, a declaration has no new references. -/
theorem mem_references_declare_withShape {type : CType} {name reference : String} {n : Nat}
    (h : IsWord name) (hmem : reference ∈ references
      ((type.withShape { type.shape with pointers := n, isConst := false }).declare name)) :
    reference ∈ references (type.declare name) := by
  rw [references_declare _ h] at hmem ⊢
  cases type <;>
    simp only [withShape, CType.shape, frontReferences, backReferences, List.mem_append,
      Shape.brackets] at hmem ⊢ <;>
    grind

end CType

end RemoteCalls
