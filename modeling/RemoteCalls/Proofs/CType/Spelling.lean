import RemoteCalls.Proofs.CType.Operators
import RemoteCalls.Proofs.CType.Scanned

/-!
# Types as they are spelled

The result of a function pointer is spelled as a whole in front of the parentheses of its declarator,
also where it is a function pointer again, whose declarator should stand around them. The module
gives the items that such a text is written from. They are those of the declaration of the type if
the type is printable.
-/

namespace RemoteCalls

namespace CType

mutual

/-- The items behind the words of a type, in the text that declares something with the type, around
the items of what is declared. -/
def tailItems : CType → List Item → List Item
  | base b shape, inner => (base b shape).declaratorItems inner
  | function result params variadic shape, inner =>
    result.tailItems [] ++ .token .openParen ::
      (starItems (max shape.pointers 1) ++ inner ++ shape.dimensionItems) ++
      [.token .closeParen, .token .openParen] ++ listItems (spelledItems params) variadic ++
      [.token .closeParen]

/-- The items of the spellings of some types. -/
def spelledItems : List CType → List (List Item)
  | [] => []
  | type :: types => (wordItems type.words ++ type.tailItems []) :: spelledItems types

end

variable {type : CType}

theorem spelledItems_eq_map (types : List CType) :
    spelledItems types = types.map fun type => wordItems type.words ++ type.tailItems [] := by
  induction types with
  | nil => simp [spelledItems]
  | cons type types ih => simp [spelledItems, ih]

/-! ## The words in front -/

theorem words_leaf (type : CType) : type.leaf.words = type.words := by
  induction type using CType.leaf.induct with
  | case1 b shape => simp [leaf, words, Shape.qualifierWords]
  | case2 result params variadic shape ih => simpa [leaf, words] using ih

/-- The words of a spelled type are those of a base that is printable. -/
theorem Spelled.leaf_printable (h : type.Spelled) : type.leaf.Printable := by
  induction h with
  | base hbase _ => exact .base hbase nofun
  | function _ _ _ _ _ _ ih _ => exact ih

/-- The base of a type is one of its parts, but for its pointers and dimensions. -/
theorem mem_identifiers_of_leaf {name : String} (h : name ∈ type.leaf.parts.filterMap identifier?) :
    name ∈ type.parts.filterMap identifier? := by
  induction type using CType.leaf.induct with
  | case1 b shape => simpa [leaf, parts, identifier?] using h
  | case2 result params variadic shape ih =>
    rw [leaf] at h
    simp only [parts, List.filterMap_cons, identifier?, List.filterMap_append]
    exact List.mem_append_left _ (ih h)

/-! ## Printable types -/

/-- The text of a printable type is the declaration of the type. -/
theorem Printable.tailItems_eq (h : type.Printable) (inner : List Item) :
    type.tailItems inner = type.declaratorItems inner := by
  induction h generalizing inner with
  | base _ _ => rw [tailItems]
  | @function b around outer params variadic hbase haround _ _ _ _ ih =>
    have hparams : spelledItems params = itemsOf params := by
      rw [spelledItems_eq_map, itemsOf_eq_map]
      refine List.map_congr_left fun param hparam => ?_
      rw [ih param hparam, items]
    rw [tailItems, hparams]
    simp [tailItems, declaratorItems, Shape.dimensionItems, haround, shape]

/-! ## Spelled types -/

/-- A type is spelled with its items, and declares what is printed with its items. -/
theorem Spelled.prints (h : type.Spelled) :
    Prints type.spelling (wordItems type.words ++ type.tailItems []) ∧
      ∀ text inner, Prints text inner →
        Prints (type.declare text) (wordItems type.words ++ type.tailItems inner) := by
  induction h with
  | base hbase hshape =>
    simp only [tailItems]
    exact ⟨prints_spelling_base (hbase.prints _) hshape,
      fun _ _ => prints_declare_base (hbase.prints _) hshape⟩
  | @function result params variadic outer _ _ houter hshape _ _ ihresult ihparams =>
    have hlist := prints_list (fun param hparam => (ihparams param hparam).1) variadic
    rw [← spellings_eq_map, ← spelledItems_eq_map] at hlist
    have hdeclare : ∀ text inner, Prints text inner →
        Prints ((CType.function result params variadic outer).declare text)
          (wordItems (CType.function result params variadic outer).words ++
            (CType.function result params variadic outer).tailItems inner) := by
      intro text inner hinner
      have hprints := prints_declare_function ihresult.1 houter hshape hlist hinner
      simpa [tailItems, words] using hprints
    refine ⟨?_, hdeclare⟩
    rw [spelling_function]
    exact hdeclare "" [] prints_nil

/-- Behind the words of a function pointer stand the stars of the innermost result, and a pair of
parentheses with stars in it. There is nothing else in them, unless the innermost result is that of
the function pointer itself. -/
theorem Spelled.exists_parens (h : type.Spelled) (hfunction : type.isFunctionPointer = true)
    (inner : List Item) : ∃ n m around more,
      type.tailItems inner = starItems n ++ .token .openParen ::
        (starItems (m + 1) ++ (around ++ .token .closeParen :: more)) ∧
      (around = [] ∨ around = inner ++ type.shape.dimensionItems) := by
  induction h generalizing inner with
  | base _ _ => cases hfunction
  | @function result params variadic outer _ hdimensions houter _ _ _ ih _ =>
    cases result with
    | base b shape =>
      obtain ⟨m, hm⟩ := Nat.exists_eq_add_of_le' (Nat.le_max_right outer.pointers 1)
      have hnone : shape.dimensionItems = [] := by
        rw [Shape.dimensionItems, show shape.dimensions = [] from hdimensions, List.map_nil]
      refine ⟨shape.pointers, m, inner ++ outer.dimensionItems, .token .openParen ::
        (listItems (spelledItems params) variadic ++ [.token .closeParen]), ?_, .inr rfl⟩
      simp [tailItems, declaratorItems, hnone, hm]
    | function result' params' variadic' shape' =>
      obtain ⟨n, m, around, more, htail, haround⟩ := ih rfl []
      have hnone : around = [] := by
        rcases haround with rfl | rfl
        · rfl
        · simp [Shape.dimensionItems, hdimensions]
      refine ⟨n, m, [], more ++ .token .openParen ::
        (starItems (max outer.pointers 1) ++ inner ++ outer.dimensionItems ++
          [.token .closeParen, .token .openParen] ++ listItems (spelledItems params) variadic ++
          [.token .closeParen]), ?_, .inl rfl⟩
      rw [tailItems, htail, hnone]
      simp

end CType

end RemoteCalls
