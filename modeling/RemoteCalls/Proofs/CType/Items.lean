import Mathlib.Data.List.Forall2
import RemoteCalls.CType.Declarator
import RemoteCalls.Outline.Reader
import RemoteCalls.Proofs.Token.Items

/-!
# Types as items

The spelling of a type and the declaration of a name with it are written from the words of its base,
the stars, the brackets of its dimensions, and the parameter lists of function pointers. A type is
printable if each of these is read as what it stands for.
-/

namespace RemoteCalls

/-! ## Items of a type -/

/-- The items of some words. -/
def wordItems (words : List String) : List Item :=
  words.map fun word => .token (.ofWord word)

/-- The items of `n` pointers. -/
def starItems (n : Nat) : List Item :=
  List.replicate n (.token .star)

theorem front_starItems (t : Token) (n : Nat) :
    Item.front t (starItems n) = if n = 0 then t else .star := by
  cases n <;> rfl

theorem front_dimensions (t : Token) (dimensions : List (Option String)) :
    Item.front t (dimensions.map .dimension) = if dimensions = [] then t else .openBracket := by
  cases dimensions <;> rfl

/-- The items between the parentheses of a parameter list. -/
def listItems (params : List (List Item)) (variadic : Bool) : List Item :=
  let all := if variadic then params ++ [[.token .ellipsis]] else params
  if all.isEmpty then [.token (.builtin "void")] else [.token .comma].intercalate all

/-- The words of a base. -/
def Base.words : Base → List String
  | .builtin text => (text.toList.splitOn ' ').map String.ofList
  | .named name => [name]
  | .struct name => ["struct", name]
  | .union name => ["union", name]
  | .enum name => ["enum", name]

namespace Shape

/-- The qualifiers as words. -/
def qualifierWords (shape : Shape) : List String :=
  (if shape.isConst then ["const"] else []) ++ (if shape.isVolatile then ["volatile"] else [])

/-- The items of the dimensions. -/
def dimensionItems (shape : Shape) : List Item :=
  shape.dimensions.map .dimension

end Shape

namespace CType

/-- The words in front of a declarator. -/
def words : CType → List String
  | base b shape => shape.qualifierWords ++ b.words
  | function result _ _ _ => result.words

mutual

/-- The items of a declarator around the items of what it declares. -/
def declaratorItems : CType → List Item → List Item
  | base _ shape, inner => starItems shape.pointers ++ inner ++ shape.dimensionItems
  | function result params variadic shape, inner =>
    starItems result.shape.pointers ++ .token .openParen ::
      (starItems (max shape.pointers 1) ++ inner ++ shape.dimensionItems) ++
      [.token .closeParen, .token .openParen] ++ listItems (itemsOf params) variadic ++
      [.token .closeParen]

/-- The items of the spellings of some types. -/
def itemsOf : List CType → List (List Item)
  | [] => []
  | type :: types => (wordItems type.words ++ type.declaratorItems []) :: itemsOf types

end

/-- The items of a declaration around the items of what is declared. -/
def items (type : CType) (inner : List Item) : List Item :=
  wordItems type.words ++ type.declaratorItems inner

theorem itemsOf_eq_map (types : List CType) : itemsOf types = types.map (·.items []) := by
  induction types with
  | nil => simp [itemsOf]
  | cons type types ih => simp [itemsOf, ih, items]

end CType

/-- The items of a parameter. -/
def Param.items (param : Param) : List Item :=
  param.type.items (wordItems param.name.toList)

/-- The items of the prototype of a function. -/
def Function.items (f : Function) : List Item :=
  f.result.items (.token (.ofWord f.name) :: .token .openParen ::
    listItems (f.params.params.map Param.items) f.params.variadic ++ [.token .closeParen])

/-! ## Types that can be read again -/

/-- A word that is read as a name. -/
structure IsName (name : String) : Prop where
  word : Configuration.isIdentifier name = true
  token : Token.ofWord name = .identifier name

/-- A name that begins no attribute. -/
structure IsFreeName (name : String) : Prop extends IsName name where
  noAttribute : Reader.attributeWords.contains name = false

/-- A name that is neither skipped nor begins an attribute. -/
structure IsPlainName (name : String) : Prop extends IsName name where
  noAttribute : Reader.attributeWords.contains name = false
  notIgnored : Reader.ignoredWords.contains name = false

theorem IsPlainName.free {name : String} (h : IsPlainName name) : IsFreeName name :=
  ⟨h.toIsName, h.noAttribute⟩

/-- A base each of whose words is read as it is meant. -/
inductive Base.Printable : Base → Prop
  | builtin (words : List String) (hne : words ≠ [])
      (hwords : ∀ word ∈ words, word ∈ Token.builtinWords) :
      Printable (.builtin (" ".intercalate words))
  | named {name : String} (h : IsPlainName name) : Printable (.named name)
  | struct {name : String} (h : IsFreeName name) : Printable (.struct name)
  | union {name : String} (h : IsFreeName name) : Printable (.union name)
  | enum {name : String} (h : IsFreeName name) : Printable (.enum name)

/-- The sizes of the dimensions are read as they are meant. -/
def Shape.Printable (shape : Shape) : Prop :=
  ∀ size, some size ∈ shape.dimensions → PlainSize size

/-- The shape of a function pointer: there are pointers, and no qualifiers. -/
structure Shape.IsPointer (shape : Shape) : Prop where
  notConst : shape.isConst = false
  notVolatile : shape.isVolatile = false
  pointers : 0 < shape.pointers

/-- A function pointer has nothing in front of its result. -/
theorem Shape.IsPointer.qualifiers_eq {shape : Shape} (h : shape.IsPointer) :
    shape.qualifiers = "" := by
  simp [qualifiers, h.notConst, h.notVolatile]

/-- A type whose spelling is read again as the type. -/
inductive CType.Printable : CType → Prop
  | base {b : Base} {shape : Shape} (hbase : b.Printable) (hshape : shape.Printable) :
      Printable (.base b shape)
  | function {b : Base} {inner outer : Shape} {params : List CType} {variadic : Bool}
      (hbase : b.Printable) (hinner : inner.dimensions = []) (houter : outer.IsPointer)
      (hshape : outer.Printable) (hparams : ∀ param ∈ params, Printable param)
      (hvoid : ∀ param ∈ params, param ≠ CType.base (.builtin "void") .plain) :
      Printable (.function (.base b inner) params variadic outer)

/-! ## Written types -/

/-- A text that no word goes on with, and that is no assignment behind a star. -/
def Fits (rest : List Char) : Prop :=
  ∀ d ∈ rest.head?, Segment.isWordChar d = false ∧ d ≠ '='

/-- A text is written from some items if a fitting text is behind it. -/
structure Prints (text : String) (items : List Item) : Prop where
  written : ∀ rest, Fits rest → Written (text.toList ++ rest) items rest
  noAssignment : text.toList.head? ≠ some '='

variable {rest : List Char} {text other : String} {inner more : List Item}

theorem fits_cons {d : Char} (hword : Segment.isWordChar d = false) (hassign : d ≠ '=')
    (rest : List Char) : Fits (d :: rest) := by
  rintro _ ⟨⟩
  exact ⟨hword, hassign⟩

theorem fits_space (rest : List Char) : Fits (' ' :: rest) :=
  fits_cons (by decide) (by decide) rest

theorem fits_closeParen (rest : List Char) : Fits (')' :: rest) :=
  fits_cons (by decide) (by decide) rest

theorem prints_nil : Prints "" [] :=
  ⟨fun rest _ => .done rest, nofun⟩

theorem prints_word {word : String} (h : Configuration.isIdentifier word = true) :
    Prints word (wordItems [word]) := by
  refine ⟨fun rest hrest => .word h fun d hd => (hrest d hd).1, ?_⟩
  intro hhead
  unfold Configuration.isIdentifier at h
  obtain ⟨cs, hcs⟩ := List.head?_eq_some_iff.mp hhead
  rw [hcs] at h
  cases h

/-- Two texts with a blank between them. -/
theorem Prints.space (h : Prints text inner) (hother : Prints other more) (htext : text ≠ "") :
    Prints (text ++ " " ++ other) (inner ++ more) := by
  refine ⟨fun rest hrest => ?_, ?_⟩
  · have hspace : (text ++ " " ++ other).toList ++ rest =
        text.toList ++ ' ' :: (other.toList ++ rest) := by simp
    rw [hspace]
    exact (h.written _ (fits_space _)).append (hother.written rest hrest).space
  · have hne : text.toList ≠ [] := by simpa using htext
    obtain ⟨c, cs, hcs⟩ := List.exists_cons_of_ne_nil hne
    have hhead := h.noAssignment
    simp only [String.toList_append, hcs, List.cons_append, List.head?_cons] at hhead ⊢
    exact hhead

/-- Some words are written with a blank between two. -/
theorem prints_words {words : List String} (hne : words ≠ [])
    (h : ∀ word ∈ words, Configuration.isIdentifier word = true) :
    Prints (" ".intercalate words) (wordItems words) := by
  induction words with
  | nil => exact absurd rfl hne
  | cons word words ih =>
    have hword := prints_word (h word (List.mem_cons_self ..))
    cases words with
    | nil => simpa using hword
    | cons next words =>
      have hrest := ih (List.cons_ne_nil _ _) fun other hother =>
        h other (List.mem_cons_of_mem _ hother)
      have hempty : word ≠ "" := by
        rintro rfl
        cases h "" (List.mem_cons_self ..)
      rw [String.intercalate_cons_cons]
      exact hword.space hrest hempty

theorem written_stars (n : Nat) {cs : List Char} {items : List Item}
    (hcs : cs.head? ≠ some '=') (h : Written cs items rest) :
    Written ((Shape.stars n).toList ++ cs) (starItems n ++ items) rest := by
  induction n with
  | zero => simpa [Shape.stars, starItems] using h
  | succ n ih =>
    have hstars : (Shape.stars (n + 1)).toList = '*' :: (Shape.stars n).toList := by
      simp [Shape.stars, List.replicate_succ]
    rw [hstars, starItems, List.replicate_succ]
    refine .star ?_ ih
    cases n with
    | zero => simpa [Shape.stars] using hcs
    | succ n => simp [Shape.stars, List.replicate_succ]

/-- The dimensions of a shape are written whatever is behind them. -/
theorem written_brackets {shape : Shape} (h : shape.Printable) {cs : List Char}
    {items : List Item} (hcs : Written cs items rest) :
    Written (shape.brackets.toList ++ cs) (shape.dimensionItems ++ items) rest := by
  unfold Shape.Printable at h
  unfold Shape.brackets Shape.dimensionItems
  generalize shape.dimensions = dimensions at h
  induction dimensions with
  | nil => simpa using hcs
  | cons size dimensions ih =>
    have hbrackets : (String.join ((size :: dimensions).map fun size =>
          "[" ++ size.getD "" ++ "]")).toList ++ cs =
        '[' :: ((size.getD "").toList ++ ']' :: ((String.join (dimensions.map fun size =>
          "[" ++ size.getD "" ++ "]")).toList ++ cs)) := by
      simp
    rw [hbrackets]
    refine .dimension size ?_ (ih fun other hother => h other (List.mem_cons_of_mem _ hother))
    rintro text rfl
    exact h text (List.mem_cons_self ..)

/-! ## Words of a base -/

/-- A builtin word is read as one. -/
theorem builtin_of_mem {word : String} (h : word ∈ Token.builtinWords) :
    Configuration.isIdentifier word = true ∧ Token.ofWord word = .builtin word ∧
      ' ' ∉ word.toList := by
  have hall : ∀ word ∈ Token.builtinWords, Configuration.isIdentifier word = true ∧
      Token.ofWord word = .builtin word ∧ ' ' ∉ word.toList := by
    decide
  exact hall word h

/-- A builtin base has the words that it is made of. -/
theorem words_builtin {words : List String} (hne : words ≠ [])
    (h : ∀ word ∈ words, word ∈ Token.builtinWords) :
    (Base.builtin (" ".intercalate words)).words = words := by
  have hblank : ∀ cs ∈ words.map String.toList, ' ' ∉ cs := by
    intro cs hcs
    obtain ⟨word, hword, rfl⟩ := List.mem_map.mp hcs
    exact (builtin_of_mem (h word hword)).2.2
  have hchars : (" ".intercalate words).toList = [' '].intercalate (words.map String.toList) := by
    rw [String.toList_intercalate]
    rfl
  rw [Base.words, hchars, List.splitOn_intercalate ' ' hblank (by simpa using hne), List.map_map]
  simp

namespace Base.Printable

variable {b : Base}

theorem words_ne_nil (h : b.Printable) : b.words ≠ [] := by
  cases h with
  | builtin words hne hwords =>
    rw [words_builtin hne hwords]
    exact hne
  | _ => exact List.cons_ne_nil _ _

theorem isIdentifier (h : b.Printable) : ∀ word ∈ b.words,
    Configuration.isIdentifier word = true := by
  cases h with
  | builtin words hne hwords =>
    rw [words_builtin hne hwords]
    exact fun word hword => (builtin_of_mem (hwords word hword)).1
  | named h => simpa [Base.words] using h.word
  | struct h => simpa [Base.words] using ⟨by decide, h.word⟩
  | union h => simpa [Base.words] using ⟨by decide, h.word⟩
  | enum h => simpa [Base.words] using ⟨by decide, h.word⟩

/-- A base is spelled as its words. -/
theorem text_eq (h : b.Printable) : b.text = " ".intercalate b.words := by
  cases h with
  | builtin words hne hwords =>
    rw [words_builtin hne hwords]
    rfl
  | named h => simp [Base.text, Base.words]
  | struct h => simp [Base.text, Base.words, String.intercalate_cons_cons]
  | union h => simp [Base.text, Base.words, String.intercalate_cons_cons]
  | enum h => simp [Base.text, Base.words, String.intercalate_cons_cons]

/-- The only base with the single word `void` is the builtin one. -/
theorem eq_void (h : b.Printable) (hwords : b.words = ["void"]) : b = .builtin "void" := by
  cases h with
  | builtin words hne hall =>
    rw [words_builtin hne hall] at hwords
    subst hwords
    rfl
  | named hname =>
    obtain rfl := List.singleton_inj.mp hwords
    cases hname.token
  | struct _ => simp [Base.words] at hwords
  | union _ => simp [Base.words] at hwords
  | enum _ => simp [Base.words] at hwords

/-- A base is written from its words. -/
theorem prints_text (h : b.Printable) : Prints b.text (wordItems b.words) := by
  rw [h.text_eq]
  exact prints_words h.words_ne_nil h.isIdentifier

end Base.Printable

/-- A text with qualifiers in front of it. -/
theorem prints_qualified (shape : Shape) (h : Prints text inner) :
    Prints (shape.qualifiers ++ text) (wordItems shape.qualifierWords ++ inner) := by
  have hword : ∀ (word : String) {text : String} {items : List Item},
      Configuration.isIdentifier word = true → Prints text items →
      Prints (word ++ " " ++ text) (wordItems [word] ++ items) := by
    intro word text items hword htext
    refine (prints_word hword).space htext ?_
    rintro rfl
    cases hword
  have hvolatile := hword "volatile" (by decide) h
  obtain ⟨isConst, isVolatile, pointers, dimensions⟩ := shape
  cases isConst <;> cases isVolatile
  · simpa [Shape.qualifiers, Shape.qualifierWords, wordItems] using h
  · exact hvolatile
  · exact hword "const" (by decide) h
  · have htext : Shape.qualifiers ⟨true, true, pointers, dimensions⟩ ++ text =
        "const" ++ " " ++ ("volatile" ++ " " ++ text) := by
      rw [← String.toList_inj]
      simp [Shape.qualifiers]
    rw [htext]
    exact hword "const" (by decide) hvolatile

/-- A base with its qualifiers is written from its words. -/
theorem Base.Printable.prints {b : Base} (h : b.Printable) (shape : Shape) :
    Prints (shape.qualifiers ++ b.text) (wordItems (shape.qualifierWords ++ b.words)) := by
  rw [wordItems, List.map_append]
  exact prints_qualified shape h.prints_text

/-! ## Declarators -/

/-- What is printed from items has no assignment in front of what fits behind it. -/
theorem Prints.head_ne (h : Prints text inner) (hrest : Fits rest) :
    (text.toList ++ rest).head? ≠ some '=' := by
  cases htext : text.toList with
  | nil =>
    intro hhead
    exact (hrest '=' hhead).2 rfl
  | cons c cs =>
    have hne := h.noAssignment
    rw [htext] at hne
    exact hne

/-- A printed text with something behind it that is written whatever follows. -/
theorem Prints.behind {tail : String} (h : Prints text inner)
    (hfits : ∀ rest, Fits (tail.toList ++ rest))
    (htail : ∀ rest, Written (tail.toList ++ rest) more rest) :
    Prints (text ++ tail) (inner ++ more) := by
  refine ⟨fun rest _ => ?_, ?_⟩
  · rw [String.toList_append, List.append_assoc]
    exact (h.written _ (hfits rest)).append (htail rest)
  · rw [String.toList_append]
    have hhead := h.head_ne (hfits [])
    rwa [List.append_nil] at hhead

/-- A printed text with a semicolon behind it. -/
theorem Prints.semicolon (h : Prints text inner) :
    Prints (text ++ ";") (inner ++ [.token .semicolon]) :=
  h.behind (fits_cons (by decide) (by decide)) fun rest => .mark rfl (.done rest)

theorem fits_brackets (shape : Shape) (hrest : Fits rest) :
    Fits (shape.brackets.toList ++ rest) := by
  unfold Shape.brackets
  cases shape.dimensions with
  | nil => simpa using hrest
  | cons size dimensions =>
    have hbracket : ∃ cs, (String.join ((size :: dimensions).map fun size =>
        "[" ++ size.getD "" ++ "]")).toList ++ rest = '[' :: cs := by simp
    obtain ⟨cs, hcs⟩ := hbracket
    rw [hcs]
    exact fits_cons (by decide) (by decide) cs

/-- Pointers and dimensions around what is declared. -/
theorem written_shape {shape : Shape} (hshape : shape.Printable) (n : Nat)
    (hinner : Prints text inner) {cs : List Char} (hfits : Fits cs) {items : List Item}
    (hcs : Written cs items rest) :
    Written ((Shape.stars n).toList ++ (text.toList ++ (shape.brackets.toList ++ cs)))
      (starItems n ++ inner ++ shape.dimensionItems ++ items) rest := by
  rw [List.append_assoc, List.append_assoc]
  refine written_stars n ?_ ?_
  · exact hinner.head_ne (fits_brackets shape hfits)
  · exact (hinner.written _ (fits_brackets shape hfits)).append (written_brackets hshape hcs)

/-- Texts with commas between them. -/
theorem prints_intercalate {texts : List String} {rows : List (List Item)}
    (h : List.Forall₂ Prints texts rows) (hne : texts ≠ []) :
    Prints (", ".intercalate texts) ([.token .comma].intercalate rows) := by
  induction h with
  | nil => exact absurd rfl hne
  | @cons text inner texts rows hfirst hrest ih =>
    cases hrest with
    | nil => simpa using hfirst
    | @cons next more texts rows hnext hrest =>
      have hbehind := ih (List.cons_ne_nil _ _)
      rw [String.intercalate_cons_cons, List.intercalate_cons_cons, List.append_assoc]
      refine ⟨fun rest hrest => ?_, ?_⟩
      · have hcomma : (text ++ ", " ++ ", ".intercalate (next :: texts)).toList ++ rest =
            text.toList ++ ',' :: ' ' :: ((", ".intercalate (next :: texts)).toList ++ rest) := by
          simp
        rw [hcomma]
        refine (hfirst.written _ (fits_cons (by decide) (by decide) _)).append ?_
        exact .mark rfl (hbehind.written rest hrest).space
      · have hhead := hfirst.head_ne (fits_cons (by decide : Segment.isWordChar ',' = false) (by decide)
          (' ' :: (", ".intercalate (next :: texts)).toList))
        simpa using hhead

theorem prints_ellipsis : Prints "..." [.token .ellipsis] :=
  ⟨fun rest _ => .ellipsis (.done rest), by decide⟩

/-- The texts of a parameter list are written with commas between them. -/
theorem prints_parameterText {texts : List String} {rows : List (List Item)}
    (h : List.Forall₂ Prints texts rows) (variadic : Bool) :
    Prints (parameterText texts variadic) (listItems rows variadic) := by
  unfold parameterText listItems
  cases variadic with
  | true =>
    have hall : List.Forall₂ Prints (texts ++ ["..."]) (rows ++ [[.token .ellipsis]]) :=
      List.rel_append h (.cons prints_ellipsis .nil)
    simpa using prints_intercalate hall (by simp)
  | false =>
    cases h with
    | nil => exact prints_word (by decide : Configuration.isIdentifier "void" = true)
    | cons hfirst hrest => simpa using prints_intercalate (.cons hfirst hrest) (by simp)

theorem prints_list {α : Type} {params : List α} {text : α → String} {items : α → List Item}
    (h : ∀ param ∈ params, Prints (text param) (items param)) (variadic : Bool) :
    Prints (parameterText (params.map text) variadic) (listItems (params.map items) variadic) := by
  refine prints_parameterText ?_ variadic
  rw [List.forall₂_map_left_iff, List.forall₂_map_right_iff]
  exact List.forall₂_same.mpr h

/-! ## Declarations -/

namespace CType

/-- A name is declared with a named base, which stands in front with its qualifiers. -/
theorem prints_declare_base {b : Base} {shape : Shape} {front : List Item}
    (hfront : Prints (shape.qualifiers ++ b.text) front) (hshape : shape.Printable)
    (hinner : Prints text inner) :
    Prints ((base b shape).declare text) (front ++ (base b shape).declaratorItems inner) := by
  have hchars : ∀ rest, ((base b shape).declare text).toList ++ rest =
      (shape.qualifiers ++ b.text).toList ++ ' ' :: ((Shape.stars shape.pointers).toList ++
        (text.toList ++ (shape.brackets.toList ++ rest))) := by
    intro rest
    simp [declare, baseSpelling]
  refine ⟨fun rest hrest => ?_, ?_⟩
  · have hshaped := written_shape hshape shape.pointers hinner hrest (.done rest)
    rw [List.append_nil] at hshaped
    rw [hchars, declaratorItems]
    exact (hfront.written _ (fits_space _)).append hshaped.space
  · rw [← List.append_nil (declare _ _).toList, hchars]
    exact hfront.head_ne (fits_space _)

/-- A type with a named base is spelled as its declaration without a name, but for the blank behind
a base alone. -/
theorem prints_spelling_base {b : Base} {shape : Shape} {front : List Item}
    (hfront : Prints (shape.qualifiers ++ b.text) front) (hshape : shape.Printable) :
    Prints (base b shape).spelling (front ++ (base b shape).declaratorItems []) := by
  by_cases hplain : shape.pointers = 0 ∧ shape.dimensions = []
  · obtain ⟨isConst, isVolatile, pointers, dimensions⟩ := shape
    obtain ⟨rfl, rfl⟩ := hplain
    simpa [spelling, declaratorItems, starItems, Shape.dimensionItems] using hfront
  · have hsame : (base b shape).spelling = (base b shape).declare "" := by
      unfold spelling declare baseSpelling
      cases hdimensions : shape.dimensions with
      | nil =>
        have hpointers : 0 < shape.pointers :=
          Nat.pos_of_ne_zero fun hzero => hplain ⟨hzero, hdimensions⟩
        simp [Shape.brackets, hdimensions, hpointers, String.append_assoc]
      | cons size dimensions =>
        by_cases hpointers : shape.pointers = 0
        · simp [hpointers, Shape.stars, String.append_assoc]
        · simp [hpointers, Nat.pos_of_ne_zero hpointers, String.append_assoc]
    rw [hsame]
    exact prints_declare_base hfront hshape prints_nil

/-- A name is declared with a function pointer, whose result stands in front as it is spelled. -/
theorem prints_declare_function {result : CType} {outer : Shape} {params : List CType}
    {variadic : Bool} {front list : List Item} (hresult : Prints result.spelling front)
    (houter : outer.IsPointer) (hshape : outer.Printable)
    (hlist : Prints (parameterText (spellings params) variadic) list)
    (hinner : Prints text inner) :
    Prints ((function result params variadic outer).declare text)
      (front ++ .token .openParen ::
        (starItems (max outer.pointers 1) ++ inner ++ outer.dimensionItems) ++
        [.token .closeParen, .token .openParen] ++ list ++ [.token .closeParen]) := by
  have hchars : ∀ rest, ((function result params variadic outer).declare text).toList ++ rest =
      result.spelling.toList ++ ' ' :: '(' ::
        ((Shape.stars (max outer.pointers 1)).toList ++ (text.toList ++
          (outer.brackets.toList ++ ')' :: '(' ::
            ((parameterText (spellings params) variadic).toList ++ ')' :: rest)))) := by
    intro rest
    simp [declare, baseSpelling, houter.qualifiers_eq]
  refine ⟨fun rest hrest => ?_, ?_⟩
  · have hbehind : Written (')' :: '(' ::
          ((parameterText (spellings params) variadic).toList ++ ')' :: rest)) _ rest :=
      .mark rfl (.mark rfl ((hlist.written _ (fits_closeParen rest)).append
        (.mark rfl (.done rest))))
    have hshaped := written_shape hshape (max outer.pointers 1) hinner
      (fits_cons (by decide) (by decide) _) hbehind
    have hall := (hresult.written _ (fits_space _)).append (Written.mark (c := '(') rfl hshaped).space
    rw [hchars]
    simpa using hall
  · rw [← List.append_nil (declare _ _).toList, hchars]
    exact hresult.head_ne (fits_space _)

/-- A function pointer is spelled as its declaration without a name. -/
theorem spelling_function (result : CType) (params : List CType) (variadic : Bool) (outer : Shape) :
    (function result params variadic outer).spelling =
      (function result params variadic outer).declare "" := by
  simp [spelling, declare, baseSpelling]

/-- Another shape with the same dimensions keeps a type printable; that of a function pointer has to
be one of a pointer. -/
theorem Printable.withShape {type : CType} (h : type.Printable) {shape : Shape}
    (hdimensions : shape.dimensions = type.shape.dimensions)
    (hpointer : type.isFunctionPointer = true → type.shape.IsPointer → shape.IsPointer) :
    (type.withShape shape).Printable := by
  cases h with
  | base hbase hshape =>
    refine .base hbase fun size hsize => hshape size ?_
    rwa [hdimensions] at hsize
  | function hbase hinner houter hshape hparams hvoid =>
    refine .function hbase hinner (hpointer rfl houter) (fun size hsize => hshape size ?_) hparams hvoid
    rwa [hdimensions] at hsize

/-- In front of a declarator stands a word. -/
theorem Printable.words_ne_nil {type : CType} (h : type.Printable) : type.words ≠ [] := by
  cases h with
  | base hbase _ => exact List.append_ne_nil_of_right_ne_nil _ hbase.words_ne_nil
  | function hbase _ _ _ _ _ => exact List.append_ne_nil_of_right_ne_nil _ hbase.words_ne_nil

/-- A printable type is spelled with its items, and declares what is printed with its items. -/
theorem Printable.prints {type : CType} (h : type.Printable) :
    Prints type.spelling (type.items []) ∧
      ∀ text inner, Prints text inner → Prints (type.declare text) (type.items inner) := by
  induction h with
  | base hbase hshape =>
    exact ⟨prints_spelling_base (hbase.prints _) hshape,
      fun _ _ => prints_declare_base (hbase.prints _) hshape⟩
  | @function b around outer params variadic hbase haround houter hshape _ _ ih =>
    have hresult : Prints (CType.base b around).spelling _ :=
      prints_spelling_base (hbase.prints around) (by simp [Shape.Printable, haround])
    have hlist := prints_list (fun param hparam => (ih param hparam).1) variadic
    rw [← spellings_eq_map, ← itemsOf_eq_map] at hlist
    have hdeclare : ∀ text inner, Prints text inner →
        Prints ((CType.function (.base b around) params variadic outer).declare text)
          ((CType.function (.base b around) params variadic outer).items inner) := by
      intro text inner hinner
      have hprints := prints_declare_function hresult houter hshape hlist hinner
      simpa [items, declaratorItems, words, Shape.dimensionItems, haround, shape] using hprints
    refine ⟨?_, hdeclare⟩
    rw [spelling_function]
    exact hdeclare "" [] prints_nil

end CType

/-- A parameter is printed with or without its name. -/
theorem Param.prints {param : Param} (htype : param.type.Printable)
    (hname : ∀ name ∈ param.name, IsName name) :
    Prints (match param.name with
      | some name => param.type.declare name
      | none => param.type.spelling) param.items := by
  obtain ⟨name, type⟩ := param
  cases name with
  | none => exact htype.prints.1
  | some name => exact htype.prints.2 name _ (prints_word (hname name rfl).word)

/-- A function all of whose names and types are read again as they are. -/
structure Function.Printable (f : Function) : Prop where
  name : IsPlainName f.name
  result : f.result.Printable
  dimensions : f.result.shape.dimensions = []
  paramTypes : ∀ param ∈ f.params.params, param.type.Printable
  paramNames : ∀ param ∈ f.params.params, ∀ name ∈ param.name, IsPlainName name
  paramVoid : ∀ param ∈ f.params.params, param.type ≠ CType.base (.builtin "void") .plain

/-- A member of a structure that is read again as it is. -/
structure Field.Printable (field : Field) : Prop where
  name : IsPlainName field.name
  type : field.type.Printable
  width : ∀ width ∈ field.width, PlainWidth width

/-- A name with a parameter list behind it. -/
theorem prints_call {name list : String} {items : List Item}
    (hname : Configuration.isIdentifier name = true)
    (hlist : Prints list items) : Prints (name ++ "(" ++ list ++ ")")
      (.token (.ofWord name) :: .token .openParen :: items ++ [.token .closeParen]) := by
  have hword := prints_word hname
  have hchars : ∀ rest, (name ++ "(" ++ list ++ ")").toList ++ rest =
      name.toList ++ '(' :: (list.toList ++ ')' :: rest) := by
    intro rest
    simp
  refine ⟨fun rest _ => ?_, ?_⟩
  · rw [hchars]
    refine (hword.written _ (fits_cons (by decide) (by decide) _)).append (.mark rfl ?_)
    exact (hlist.written _ (fits_closeParen rest)).append (.mark rfl (.done rest))
  · rw [← List.append_nil (name ++ _ ++ _ ++ _).toList, hchars]
    exact hword.head_ne (fits_cons (by decide) (by decide) _)

/-- The prototype of a printable function is written from its items. -/
theorem Function.Printable.prints {f : Function} (h : f.Printable) :
    Prints f.signature f.items :=
  h.result.prints.2 _ _ (prints_call h.name.word (prints_list
    (fun param hparam => Param.prints (h.paramTypes param hparam) fun name hname =>
      (h.paramNames param hparam name hname).toIsName) f.params.variadic))

end RemoteCalls
