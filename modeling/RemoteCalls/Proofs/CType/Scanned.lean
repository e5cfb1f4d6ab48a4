import RemoteCalls.Proofs.CType.Items

/-!
# Types as they are scanned

What a declaration in a source text can bring into a type: words that are names or builtin, sizes
that close their groups, function pointers that have a pointer and a result without dimensions. Such
a type is printable unless something in it cannot be written again, and the module says what that
is.
-/

namespace RemoteCalls

/-! ## Parts of a type -/

/-- The name in a base. -/
def Base.identifier? : Base → Option String
  | .builtin _ => none
  | .named name | .struct name | .union name | .enum name => some name

namespace CType

mutual

/-- A type and all types inside of it. -/
def parts : CType → List CType
  | base b shape => [base b shape]
  | function result params variadic shape =>
    function result params variadic shape :: (result.parts ++ partsOf params)

/-- The parts of a row of types. -/
def partsOf : List CType → List CType
  | [] => []
  | type :: types => type.parts ++ partsOf types

end

/-- The name in the base of a type. -/
def identifier? : CType → Option String
  | base b _ => b.identifier?
  | function .. => none

/-- The types of the parameters of a function pointer. -/
def paramTypes : CType → List CType
  | base .. => []
  | function _ params _ _ => params

/-- Whether a type is a function pointer whose result is one again. -/
def returnsFunctionPointer : CType → Bool
  | base .. => false
  | function result _ _ _ => result.isFunctionPointer

/-- Whether a type is the word `void` and nothing else. -/
def isPlainVoid : CType → Bool
  | base b shape => b == .builtin "void" && shape == .plain
  | function .. => false

theorem mem_partsOf {part : CType} {types : List CType} :
    part ∈ partsOf types ↔ ∃ type ∈ types, part ∈ type.parts := by
  induction types with
  | nil => simp [partsOf]
  | cons type types ih => simp [partsOf, ih]

theorem mem_parts_self (type : CType) : type ∈ type.parts := by
  cases type <;> simp [parts]

end CType

/-- Whether a word is neither skipped nor begins an attribute. -/
def Reader.isPlainWord (word : String) : Bool :=
  !attributeWords.contains word && !ignoredWords.contains word

/-- A part of a type whose words, parameters and sizes can be written and read again: its tag is not
the one that stands for none, its words are not skipped, none of its parameters is nothing but
`void`, and its sizes have no directive in them. It may be a function pointer that returns one, whose
spelling is no type. -/
structure CType.SpelledPart (part : CType) : Prop where
  tag : ∀ name ∈ part.identifier?, name ≠ Structure.anonymousTag
  word : ∀ name ∈ part.identifier?, Reader.isPlainWord name = true
  params : ∀ param ∈ part.paramTypes, param.isPlainVoid = false
  sizes : ∀ size ∈ part.shape.dimensions.filterMap id, WithoutDirective size

instance (part : CType) : Decidable part.SpelledPart :=
  decidable_of_iff
    ((∀ name ∈ part.identifier?, name ≠ Structure.anonymousTag) ∧
      (∀ name ∈ part.identifier?, Reader.isPlainWord name = true) ∧
      (∀ param ∈ part.paramTypes, param.isPlainVoid = false) ∧
      ∀ size ∈ part.shape.dimensions.filterMap id, WithoutDirective size)
    ⟨fun ⟨tag, word, params, sizes⟩ => ⟨tag, word, params, sizes⟩,
      fun h => ⟨h.tag, h.word, h.params, h.sizes⟩⟩

/-- A part of a type that can be written and read again, and is not a function pointer that returns
one. -/
structure CType.PlainPart (part : CType) : Prop extends part.SpelledPart where
  result : part.returnsFunctionPointer = false

instance (part : CType) : Decidable part.PlainPart :=
  decidable_of_iff (part.SpelledPart ∧ part.returnsFunctionPointer = false)
    ⟨fun ⟨spelled, result⟩ => ⟨spelled, result⟩, fun h => ⟨h.toSpelledPart, h.result⟩⟩

/-- A type all of whose words, parameters and sizes are read as they are meant. -/
inductive CType.Spelled : CType → Prop
  | base {b : Base} {shape : Shape} (hbase : b.Printable) (hshape : shape.Printable) :
      Spelled (.base b shape)
  | function {result : CType} {params : List CType} {variadic : Bool} {outer : Shape}
      (hresult : Spelled result) (hdimensions : result.shape.dimensions = [])
      (houter : outer.IsPointer) (hshape : outer.Printable)
      (hparams : ∀ param ∈ params, Spelled param)
      (hvoid : ∀ param ∈ params, param ≠ CType.base (.builtin "void") .plain) :
      Spelled (.function result params variadic outer)

/-! ## Types from a source text -/

/-- A base whose words stand in a source text; a tag may be missing. -/
inductive Base.Scanned : Base → Prop
  | builtin (words : List String) (hne : words ≠ [])
      (hwords : ∀ word ∈ words, word ∈ Token.builtinWords) :
      Scanned (.builtin (" ".intercalate words))
  | named {name : String} (h : IsPlainName name) : Scanned (.named name)
  | struct {name : String} (h : name = Structure.anonymousTag ∨ IsFreeName name) :
      Scanned (.struct name)
  | union {name : String} (h : name = Structure.anonymousTag ∨ IsFreeName name) :
      Scanned (.union name)
  | enum {name : String} (h : name = Structure.anonymousTag ∨ IsFreeName name) :
      Scanned (.enum name)

/-- The sizes of the dimensions stand in a source text. -/
def Shape.Scanned (shape : Shape) : Prop :=
  ∀ size, some size ∈ shape.dimensions → ScannedSize size

/-- A type that a declaration in a source text can have. -/
inductive CType.Scanned : CType → Prop
  | base {b : Base} {shape : Shape} (hbase : b.Scanned) (hshape : shape.Scanned) :
      Scanned (.base b shape)
  | function {result : CType} {params : List CType} {variadic : Bool} {outer : Shape}
      (hresult : Scanned result) (hinner : result.shape.dimensions = [])
      (hparams : ∀ param ∈ params, Scanned param) (houter : outer.IsPointer)
      (hshape : outer.Scanned) : Scanned (.function result params variadic outer)

/-- Parameters that a declaration in a source text can have. -/
def ParamList.Scanned (params : ParamList) : Prop :=
  ∀ param ∈ params.params, param.type.Scanned ∧ ∀ name ∈ param.name, IsName name

/-- A function that a source text can declare. -/
structure Function.Scanned (f : Function) : Prop where
  name : IsFreeName f.name
  result : f.result.Scanned
  dimensions : f.result.shape.dimensions = []
  params : f.params.Scanned

/-- A variable that a source text can declare. -/
structure Variable.Scanned (v : Variable) : Prop where
  name : IsName v.name
  type : v.type.Scanned

/-- A member that stands in a source text. -/
structure Field.Scanned (field : Field) : Prop where
  name : IsName field.name
  type : field.type.Scanned
  width : ∀ width ∈ field.width, ScannedWidth width

/-- A structure whose members stand in a source text, under the given tag, which may be missing. -/
structure Structure.ScannedAs (tag : String) (s : Structure) : Prop where
  name : s.name = tag
  fields : ∀ field ∈ s.fields, field.Scanned

/-- A structure that a source text can declare. -/
structure Structure.Scanned (s : Structure) : Prop where
  name : IsName s.name
  fields : ∀ field ∈ s.fields, field.Scanned

/-! ## Declarators from a source text -/

/-- The size and the parameters of an operator stand in a source text. -/
def DeclaratorOp.Scanned : DeclaratorOp → Prop
  | .pointer => True
  | .array size => ∀ text ∈ size, ScannedSize text
  | .function params => params.Scanned

/-- What a declarator in a source text can declare. -/
def Declared.Scanned : Declared → Prop
  | .object type => type.Scanned
  | .function result params =>
    result.Scanned ∧ result.shape.dimensions = [] ∧ params.Scanned

namespace CType.Scanned

variable {type : CType}

theorem shape (h : type.Scanned) : type.shape.Scanned := by
  cases h with
  | base _ hshape => exact hshape
  | function _ _ _ _ hshape => exact hshape

/-- One more pointer. -/
theorem pointer (h : type.Scanned) : type.pointer.Scanned := by
  cases h with
  | base hbase hshape => exact .base hbase hshape
  | function hresult hinner hparams houter hshape =>
    exact .function hresult hinner hparams
      ⟨houter.notConst, houter.notVolatile, Nat.succ_pos _⟩ hshape

/-- One more dimension. -/
theorem array (h : type.Scanned) {size : Option String} (hsize : ∀ text ∈ size, ScannedSize text) :
    (type.array size).Scanned := by
  have hsizes : ∀ {shape : Shape}, shape.Scanned →
      Shape.Scanned { shape with dimensions := size :: shape.dimensions } := by
    intro shape hshape text htext
    rcases List.mem_cons.mp htext with htext | htext
    · exact hsize text htext.symm
    · exact hshape text htext
  cases h with
  | base hbase hshape => exact .base hbase (hsizes hshape)
  | function hresult hinner hparams houter hshape =>
    exact .function hresult hinner hparams ⟨houter.notConst, houter.notVolatile, houter.pointers⟩
      (hsizes hshape)

end CType.Scanned

namespace Declared

/-- The pointer to a function. -/
theorem scanned_functionType {result : CType} {params : ParamList}
    (h : Declared.Scanned (.function result params)) :
    (params.functionType result).pointer.Scanned := by
  obtain ⟨hresult, hdimensions, hparams⟩ := h
  refine .function hresult hdimensions ?_ ⟨rfl, rfl, Nat.one_pos⟩ nofun
  intro type htype
  obtain ⟨param, hparam, rfl⟩ := List.mem_map.mp htype
  exact (hparams param hparam).1

theorem scanned_decayed {declared : Declared} (h : declared.Scanned) : declared.decayed.Scanned := by
  cases declared with
  | object type => exact h
  | function result params => exact scanned_functionType h

/-- An operator around what is declared. -/
theorem scanned_derive {declared made : Declared} (h : declared.Scanned) {op : DeclaratorOp}
    (hop : op.Scanned) (hmade : declared.derive op = .ok made) : made.Scanned := by
  cases op with
  | pointer =>
    cases hmade
    cases declared with
    | object type => exact CType.Scanned.pointer h
    | function result params => exact scanned_functionType h
  | array size =>
    cases declared with
    | object type =>
      cases hmade
      exact CType.Scanned.array h hop
    | function result params => cases hmade
  | function params =>
    cases declared with
    | object type =>
      unfold derive at hmade
      dsimp only at hmade
      split at hmade
      · next hempty =>
        cases hmade
        exact ⟨h, List.isEmpty_iff.mp hempty, hop⟩
      · cases hmade
    | function result params => cases hmade

/-- All operators around a base. -/
theorem scanned_ofOps {base : CType} (hbase : base.Scanned) {ops : List DeclaratorOp}
    (hops : ∀ op ∈ ops, op.Scanned) {made : Declared} (hmade : ofOps base ops = .ok made) :
    made.Scanned := by
  induction ops generalizing made with
  | nil =>
    cases hmade
    exact hbase
  | cons op outer ih =>
    rw [ofOps] at hmade
    cases hinner : ofOps base outer with
    | error fault =>
      rw [hinner] at hmade
      cases hmade
    | ok declared =>
      rw [hinner] at hmade
      have hdeclared := ih (fun other hother => hops other (List.mem_cons_of_mem _ hother)) hinner
      exact scanned_derive hdeclared (hops op (List.mem_cons_self ..)) hmade

end Declared

/-! ## Types that can be written again -/

theorem isPlainName_of_isPlainWord {name : String} (h : IsName name)
    (hplain : Reader.isPlainWord name = true) : IsPlainName name := by
  unfold Reader.isPlainWord at hplain
  rw [Bool.and_eq_true, Bool.not_eq_true', Bool.not_eq_true'] at hplain
  exact ⟨h, hplain.1, hplain.2⟩

/-- A base from a source text is printable unless its tag is missing. -/
theorem Base.Scanned.printable {b : Base} (h : b.Scanned)
    (htag : ∀ name ∈ b.identifier?, name ≠ Structure.anonymousTag) : b.Printable := by
  cases h with
  | builtin words hne hwords => exact .builtin words hne hwords
  | named h => exact .named h
  | struct h => exact .struct (h.resolve_left (htag _ rfl))
  | union h => exact .union (h.resolve_left (htag _ rfl))
  | enum h => exact .enum (h.resolve_left (htag _ rfl))

theorem Shape.Scanned.printable {shape : Shape} (h : shape.Scanned)
    (hsizes : ∀ size ∈ shape.dimensions.filterMap id, WithoutDirective size) : shape.Printable := by
  intro size hsize
  exact plainSize_of_scanned (h size hsize) (hsizes size (by simpa using hsize))

theorem CType.ne_of_isPlainVoid {type : CType} (h : type.isPlainVoid = false) :
    type ≠ CType.base (.builtin "void") .plain := by
  rintro rfl
  cases h

namespace CType

variable {type : CType}

/-- A scanned type is spelled if all of its parts are. -/
theorem Scanned.spelled (h : type.Scanned) (hparts : ∀ part ∈ type.parts, part.SpelledPart) :
    type.Spelled := by
  induction h with
  | base hbase hshape =>
    have hpart := hparts _ (mem_parts_self _)
    exact .base (hbase.printable hpart.tag) (hshape.printable hpart.sizes)
  | @function result params variadic outer hresult hinner hparams houter hshape ihresult ihparams =>
    have hpart := hparts _ (mem_parts_self _)
    have hspelled : result.Spelled := ihresult fun part hpart =>
      hparts part (List.mem_cons_of_mem _ (List.mem_append_left _ hpart))
    have hall : ∀ param ∈ params, param.Spelled := fun param hparam =>
      ihparams param hparam fun part hpart =>
        hparts part (List.mem_cons_of_mem _
          (List.mem_append_right _ (mem_partsOf.mpr ⟨param, hparam, hpart⟩)))
    exact .function hspelled hinner houter (hshape.printable hpart.sizes) hall
      fun param hparam => ne_of_isPlainVoid (hpart.params param hparam)

theorem Printable.spelled (h : type.Printable) : type.Spelled := by
  induction h with
  | base hbase hshape => exact .base hbase hshape
  | function hbase hinner houter hshape _ hvoid ih =>
    refine .function (.base hbase ?_) hinner houter hshape ih hvoid
    intro size hsize
    rw [hinner] at hsize
    cases hsize

/-- A function pointer with a spelled type is printable if its result is no function pointer and its
parameters are printable. -/
theorem Spelled.printable_function {result : CType} {params : List CType} {variadic : Bool}
    {outer : Shape} (h : (CType.function result params variadic outer).Spelled)
    (hresult : result.isFunctionPointer = false) (hparams : ∀ param ∈ params, param.Printable) :
    (CType.function result params variadic outer).Printable := by
  cases h with
  | function hspelled hdimensions houter hshape _ hvoid =>
    cases hspelled with
    | base hbase _ => exact .function hbase hdimensions houter hshape hparams hvoid
    | function _ _ _ _ _ _ => cases hresult

/-- A spelled type is printable exactly if no function pointer in it returns one. -/
theorem Spelled.printable_iff (h : type.Spelled) :
    type.Printable ↔ ∀ part ∈ type.parts, part.returnsFunctionPointer = false := by
  constructor
  · intro hprintable
    clear h
    induction hprintable with
    | base _ _ =>
      intro part hpart
      rw [List.mem_singleton.mp hpart]
      rfl
    | function _ _ _ _ _ _ ih =>
      intro part hpart
      rcases List.mem_cons.mp hpart with rfl | hpart
      · rfl
      · rcases List.mem_append.mp hpart with hpart | hpart
        · rw [List.mem_singleton.mp hpart]
          rfl
        · obtain ⟨param, hparam, hpart⟩ := mem_partsOf.mp hpart
          exact ih param hparam part hpart
  · intro hparts
    induction h with
    | base hbase hshape => exact .base hbase hshape
    | @function result params variadic outer hresult hdimensions houter hshape hparams hvoid _ ih =>
      have hspelled : (CType.function result params variadic outer).Spelled :=
        .function hresult hdimensions houter hshape hparams hvoid
      refine hspelled.printable_function (hparts _ (mem_parts_self _)) fun param hparam => ?_
      refine ih param hparam fun part hpart => hparts part ?_
      exact List.mem_cons_of_mem _
        (List.mem_append_right _ (mem_partsOf.mpr ⟨param, hparam, hpart⟩))

/-- A scanned type all of whose parts are plain is printable. -/
theorem Scanned.printable (h : type.Scanned) (hparts : ∀ part ∈ type.parts, part.PlainPart) :
    type.Printable :=
  (h.spelled fun part hpart => (hparts part hpart).toSpelledPart).printable_iff.mpr
    fun part hpart => (hparts part hpart).result

end CType

/-! ## Functions that can be written again -/

namespace Function

/-- All types in the prototype of a function. -/
def types (f : Function) : List CType :=
  f.result.parts ++ CType.partsOf (f.params.params.map (·.type))

/-- The name of a function and those of its parameters. -/
def ownNames (f : Function) : List String :=
  f.name :: f.params.params.filterMap (·.name)

/-- All names in the prototype of a function. -/
def identifiers (f : Function) : List String :=
  f.ownNames ++ f.types.filterMap CType.identifier?

/-- A function whose prototype can be written and read again: so can all parts of its types, its
own names are not skipped, and no parameter is nothing but `void`. -/
structure Plain (f : Function) : Prop where
  types : ∀ type ∈ f.types, type.PlainPart
  words : ∀ name ∈ f.ownNames, Reader.isPlainWord name = true
  params : ∀ param ∈ f.params.params, param.type.isPlainVoid = false

instance (f : Function) : Decidable f.Plain :=
  decidable_of_iff
    ((∀ type ∈ f.types, type.PlainPart) ∧
      (∀ name ∈ f.ownNames, Reader.isPlainWord name = true) ∧
      ∀ param ∈ f.params.params, param.type.isPlainVoid = false)
    ⟨fun ⟨types, words, params⟩ => ⟨types, words, params⟩,
      fun h => ⟨h.types, h.words, h.params⟩⟩

/-- A scanned function that is plain is printable. -/
theorem Scanned.printable {f : Function} (h : f.Scanned) (hplain : f.Plain) : f.Printable where
  name := isPlainName_of_isPlainWord h.name.toIsName (hplain.words _ (List.mem_cons_self ..))
  result := h.result.printable fun part hpart => hplain.types part (List.mem_append_left _ hpart)
  dimensions := h.dimensions
  paramTypes := by
    intro param hparam
    refine (h.params param hparam).1.printable fun part hpart => ?_
    have hmem : part ∈ CType.partsOf (f.params.params.map (·.type)) :=
      CType.mem_partsOf.mpr ⟨param.type, List.mem_map_of_mem hparam, hpart⟩
    exact hplain.types part (List.mem_append_right _ hmem)
  paramNames := by
    intro param hparam name hname
    refine isPlainName_of_isPlainWord ((h.params param hparam).2 name hname) (hplain.words _ ?_)
    exact List.mem_cons_of_mem _ (List.mem_filterMap.mpr ⟨param, hparam, hname⟩)
  paramVoid := fun param hparam => CType.ne_of_isPlainVoid (hplain.params param hparam)

end Function

/-! ## Structures that can be written again -/

namespace Structure

/-- All types in the members of a structure. -/
def types (s : Structure) : List CType :=
  CType.partsOf (s.fields.map (·.type))

/-- The name of a structure and those of its members. -/
def ownNames (s : Structure) : List String :=
  s.name :: s.fields.map (·.name)

/-- The words that the function pointers among the members begin with. -/
def callbackWords (s : Structure) : List String :=
  (s.fields.filter (·.type.isFunctionPointer)).filterMap (·.type.words.head?)

/-- A structure whose definition can be written and read again: so can all parts of its types, its
own names are not skipped, and no width has a directive in it. -/
structure Plain (s : Structure) : Prop where
  types : ∀ type ∈ s.types, type.PlainPart
  words : ∀ name ∈ s.ownNames, Reader.isPlainWord name = true
  widths : ∀ width ∈ s.fields.filterMap (·.width), WithoutDirective width

instance (s : Structure) : Decidable s.Plain :=
  decidable_of_iff
    ((∀ type ∈ s.types, type.PlainPart) ∧
      (∀ name ∈ s.ownNames, Reader.isPlainWord name = true) ∧
      ∀ width ∈ s.fields.filterMap (·.width), WithoutDirective width)
    ⟨fun ⟨types, words, widths⟩ => ⟨types, words, widths⟩,
      fun h => ⟨h.types, h.words, h.widths⟩⟩

/-- The name of a scanned structure that is plain is a plain name. -/
theorem Scanned.isPlainName {s : Structure} (h : s.Scanned) (hplain : s.Plain) :
    IsPlainName s.name :=
  isPlainName_of_isPlainWord h.name (hplain.words _ (List.mem_cons_self ..))

/-- The members of a scanned structure that is plain are printable. -/
theorem Scanned.printable {s : Structure} (h : s.Scanned) (hplain : s.Plain) {field : Field}
    (hfield : field ∈ s.fields) : field.Printable where
  name := isPlainName_of_isPlainWord (h.fields field hfield).name
    (hplain.words _ (List.mem_cons_of_mem _ (List.mem_map_of_mem hfield)))
  type := (h.fields field hfield).type.printable fun part hpart => hplain.types part
    (CType.mem_partsOf.mpr ⟨field.type, List.mem_map_of_mem hfield, hpart⟩)
  width := fun width hwidth => plainWidth_of_scanned ((h.fields field hfield).width width hwidth)
    (hplain.widths width (List.mem_filterMap.mpr ⟨field, hfield, hwidth⟩))

end Structure

end RemoteCalls
