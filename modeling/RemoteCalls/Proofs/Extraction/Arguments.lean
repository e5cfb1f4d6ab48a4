import RemoteCalls.Proofs.CType.Meaning
import RemoteCalls.Proofs.Extraction.Recorded
import RemoteCalls.Proofs.Outline.PrintedVariables
import RemoteCalls.Proofs.Stub.Marshalling

/-!
# What the handler passes

The handler keeps a parameter in an object of its own and passes the object or its address. Where it
passes the address, the declaration of the object is to have one pointer less than the parameter. It
has for pointers, but not for an array of pointers, whose address is that of an array, and not for a
pointer to a function, whose only star the declaration prints again.
-/

namespace RemoteCalls

/-! ## Meanings but for `const` -/

namespace Meaning

/-- A type without the `const` of what its pointers lead to and its arrays hold. -/
def dropConst : Meaning → Meaning
  | base b => .base b
  | const target => target.dropConst
  | volatile target => .volatile target.dropConst
  | pointer target => .pointer target.dropConst
  | array size element => .array size element.dropConst
  | function result params variadic => .function result params variadic

/-- Whether a type is a pointer. -/
def isPointer : Meaning → Bool
  | pointer _ => true
  | _ => false

theorem dropConst_repeat (target : Meaning) (n : Nat) :
    (Nat.repeat pointer n target).dropConst = Nat.repeat pointer n target.dropConst := by
  induction n with
  | zero => rfl
  | succ n ih => rw [Nat.repeat, dropConst, ih, Nat.repeat]

/-- Pointers to what is no pointer are equal just if there are as many. -/
theorem repeat_eq_iff {target : Meaning} (h : target.isPointer = false) {n m : Nat} :
    Nat.repeat pointer n target = Nat.repeat pointer m target ↔ n = m := by
  refine ⟨fun heq => ?_, fun heq => heq ▸ rfl⟩
  induction n generalizing m with
  | zero =>
    cases m with
    | zero => rfl
    | succ m =>
      have hzero : target = .pointer (Nat.repeat pointer m target) := heq
      rw [hzero] at h
      cases h
  | succ n ih =>
    cases m with
    | zero =>
      have hzero : .pointer (Nat.repeat pointer n target) = target := heq
      rw [← hzero] at h
      cases h
    | succ m => rw [ih (Meaning.pointer.inj heq)]

end Meaning

namespace Shape

/-- What the pointers of a shape lead to, but for `const`. -/
def target (shape : Shape) (base : Meaning) : Meaning :=
  if shape.isVolatile then .volatile base.dropConst else base.dropConst

theorem dropConst_qualify (shape : Shape) (base : Meaning) :
    (shape.qualify base).dropConst = shape.target base := by
  unfold qualify target
  cases shape.isConst <;> cases shape.isVolatile <;> rfl

/-- What a shape without dimensions makes of a base, but for `const`. -/
theorem dropConst_around {shape : Shape} (h : shape.dimensions = []) (base : Meaning) :
    (shape.around base).dropConst = Nat.repeat .pointer shape.pointers (shape.target base) := by
  rw [around, h, List.foldr_nil, Meaning.dropConst_repeat, dropConst_qualify]

/-- The address of an object with a number of pointers and the target of a shape. -/
theorem dropConst_address {shape : Shape} (h : shape.dimensions = []) (n : Nat) (base : Meaning) :
    Meaning.pointer (({ shape with pointers := n, isConst := false } : Shape).around base).dropConst =
      Nat.repeat .pointer (n + 1) (shape.target base) := by
  have haround := dropConst_around (show Shape.dimensions { shape with
    pointers := n, isConst := false } = [] from h) base
  rw [haround, Nat.repeat]
  rfl

/-- What a shape with dimensions makes is no pointer. -/
theorem isPointer_around {shape : Shape} (h : shape.dimensions ≠ []) (base : Meaning) :
    (shape.around base).dropConst.isPointer = false := by
  obtain ⟨size, sizes, hdimensions⟩ := List.exists_cons_of_ne_nil h
  rw [around, hdimensions]
  rfl

end Shape

namespace CType

/-- The type that the declaration of a name declares: one to a function has at least one star. -/
def printed : CType → CType
  | base b shape => base b shape
  | function result params variadic shape =>
    function result params variadic { shape with pointers := max shape.pointers 1 }

theorem declare_printed (type : CType) (name : String) :
    type.printed.declare name = type.declare name := by
  cases type with
  | base b shape => rfl
  | function result params variadic shape =>
    simp [printed, declare, baseSpelling, Shape.qualifiers, Shape.brackets]

/-- A type with another shape has the same function pointers that return one. -/
theorem returns_withShape (type : CType) (shape : Shape) :
    (∀ part ∈ (type.withShape shape).parts, part.returnsFunctionPointer = false) ↔
      ∀ part ∈ type.parts, part.returnsFunctionPointer = false := by
  cases type with
  | base b around => simp [withShape, parts, returnsFunctionPointer]
  | function result params variadic around =>
    simp [withShape, parts, returnsFunctionPointer]

end CType

namespace RemoteParam

variable {param : RemoteParam}

/-- The type of the object that a parameter is kept in, as its declaration has it. -/
def keptType (param : RemoteParam) : CType := param.storageType.printed

/-- What is passed for a parameter that is kept in an object of some type: the object itself or its
address. -/
def passed (param : RemoteParam) (kept : Meaning) : Meaning :=
  if param.byAddress then .pointer kept else kept

theorem exists_keptType (param : RemoteParam) :
    ∃ shape, param.keptType = param.type.withShape shape := by
  unfold keptType storageType
  dsimp only
  split <;> cases param.type <;> exact ⟨_, rfl⟩

theorem keptType_spelled (h : param.type.Spelled) : param.keptType.Spelled := by
  obtain ⟨name, type, direction, isString⟩ := param
  have hpositive : ∀ n, 0 < max n 1 := fun n =>
    Nat.lt_of_lt_of_le Nat.one_pos (Nat.le_max_right n 1)
  unfold keptType storageType
  dsimp only at h ⊢
  cases h with
  | base hbase hshape => split <;> exact .base hbase hshape
  | function hresult hdimensions houter hshape hparams hvoid =>
    split
    · exact .function hresult hdimensions ⟨rfl, houter.notVolatile, hpositive _⟩ hshape hparams hvoid
    · exact .function hresult hdimensions ⟨houter.notConst, houter.notVolatile, hpositive _⟩ hshape
        hparams hvoid

/-- A parameter that is passed as it is is kept in an object of its own type. -/
theorem keptType_of_value (h : param.type.Spelled) (haddress : param.byAddress = false) :
    param.keptType = param.type := by
  have hstorage : param.storageType = param.type := by
    simp [storageType, haddress]
  rw [keptType, hstorage]
  cases htype : param.type with
  | base b shape => rfl
  | function result params variadic shape =>
    rw [htype] at h
    cases h with
    | function _ _ houter _ _ _ => rw [CType.printed, Nat.max_eq_left houter.pointers]

/-- What is passed has the type of the parameter up to `const` if the parameter has no pointer, or
no dimensions and, for one to a function, a second pointer. -/
theorem passed_meaning_iff (h : param.type.Spelled) (hstring : param.isString = false)
    (hname : param.name ≠ resultName) :
    (param.passed param.keptType.meaning).dropConst = param.type.meaning.dropConst ↔
      param.type.shape.pointers = 0 ∨ param.type.shape.dimensions = [] ∧
        (param.type.isFunctionPointer = true → 2 ≤ param.type.shape.pointers) := by
  by_cases hpointers : param.type.shape.pointers = 0
  · have haddress : param.byAddress = false := by simp [byAddress, hpointers]
    rw [passed, haddress, keptType_of_value h haddress]
    exact iff_of_true rfl (.inl hpointers)
  · have haddress : param.byAddress = true := by
      simp [byAddress, Nat.pos_of_ne_zero hpointers, hstring]
    have hpassed : param.passed param.keptType.meaning = .pointer param.keptType.meaning := by
      rw [passed, haddress, if_pos rfl]
    have hstorage : param.storageType = param.type.withShape
        { param.type.shape with
          pointers := param.type.shape.pointers - 1
          isConst := false } := by
      simp [storageType, haddress, hname]
    rw [hpassed, keptType, hstorage, Meaning.dropConst]
    clear hpassed hstorage haddress
    by_cases hdimensions : param.type.shape.dimensions = []
    · cases htype : param.type with
      | base b shape =>
        rw [htype] at hpointers hdimensions
        simp only [CType.shape] at hpointers hdimensions
        have hstars : shape.pointers - 1 + 1 = shape.pointers :=
          Nat.sub_one_add_one hpointers
        refine iff_of_true ?_ (.inr ⟨hdimensions, fun hfunction => by cases hfunction⟩)
        simp only [CType.shape, CType.withShape, CType.printed, CType.meaning]
        rw [Shape.dropConst_address hdimensions, Shape.dropConst_around hdimensions, hstars]
      | function result params variadic shape =>
        rw [htype] at hpointers hdimensions
        simp only [CType.shape] at hpointers hdimensions
        have htarget : (shape.target (.function result.meaning (CType.meanings params)
            variadic)).isPointer = false := by
          unfold Shape.target
          split <;> rfl
        simp only [CType.shape, CType.withShape, CType.printed, CType.meaning]
        rw [Shape.dropConst_address hdimensions, Shape.dropConst_around hdimensions,
          Meaning.repeat_eq_iff htarget]
        constructor
        · intro hcount
          exact .inr ⟨hdimensions, fun _ => by omega⟩
        · rintro (hzero | ⟨-, htwo⟩)
          · exact absurd hzero hpointers
          · have := htwo rfl
            omega
    · refine iff_of_false ?_ ?_
      · intro heq
        have harray : param.type.meaning.dropConst.isPointer = false := by
          cases htype : param.type <;> rw [htype] at hdimensions <;>
            exact Shape.isPointer_around hdimensions _
        rw [← heq] at harray
        cases harray
      · rintro (hzero | ⟨hnone, -⟩)
        · exact hpointers hzero
        · exact hdimensions hnone

end RemoteParam

/-! ## Declarations of objects -/

/-- The rules of C itself, in which nothing is a marker. -/
def plainRules : NoteRules := ⟨[], .attach⟩

/-- The declaration of a name with a spelled type is read as one variable just if the type is
printable, and the variable has this type then. -/
theorem Outline.declares_iff {type : CType} (h : type.Spelled) {name : String}
    (hname : IsPlainName name) (file : Path) (origin : Origin) (wanted : CType → Prop) :
    (∃ w, Outline.ofText plainRules file origin (type.declare name ++ ";") =
        [.declaration (.variable w)] ∧ w.name = name ∧ wanted w.type) ↔
      type.Printable ∧ wanted type := by
  have hplain : StartsPlain plainRules (wordItems type.words) := fun _ _ => rfl
  by_cases hprintable : type.Printable
  · have hprints := (hprintable.prints.2 _ _ (prints_word hname.word)).semicolon
    have hwritten := hprints.written [] (fun _ hc => by cases hc)
    rw [List.append_nil] at hwritten
    have hfound : FindsVariable name type
        (Outline.ofText plainRules file origin (type.declare name ++ ";")) :=
      Outline.ofText_of_written hwritten fun _ =>
        (Outline.standsFor_variable hprintable hname hplain).yields
    obtain ⟨v, hread, hsame, htype⟩ := hfound
    constructor
    · rintro ⟨w, hw, -, hwanted⟩
      rw [hread] at hw
      cases hw
      exact ⟨hprintable, htype ▸ hwanted⟩
    · rintro ⟨-, hwanted⟩
      exact ⟨v, hread, hsame, htype ▸ hwanted⟩
  · refine iff_of_false ?_ fun hboth => hprintable hboth.1
    rintro ⟨w, hw, -⟩
    obtain ⟨diagnostic, hreported⟩ :=
      Outline.exists_diagnostic_of_spelled h hprintable hname hplain file origin
    rw [hw, List.mem_singleton] at hreported
    cases hreported

/-! ## Arguments of the handler -/

namespace RemoteFunction

/-- The declaration of the object that a parameter is kept in. -/
def keeping (param : RemoteParam) : String := param.storageType.declare param.name ++ ";"

/-- A parameter is an argument of the call in the handler, itself or its address. What is passed is
declared among the locals of the handler, or in the result structure if it is an output. -/
structure Passes (remote : RemoteFunction) (param : RemoteParam) : Prop where
  argument : ∃ before after, remote.handlerExecute =
    [remote.callTarget ++ callText remote.names.function (before ++
      ((if param.byAddress then "&" else "") ++
        (if param.direction = .output then "_res." else "") ++ param.name) :: after)]
  object : param.direction ≠ .output → keeping param ∈ remote.handlerLocals
  member : param.direction = .output → remote.hasResponse = true →
    ∀ indent, indent ++ keeping param ∈ remote.headerLines indent

/-- Each parameter under another name than that of the returned value is passed. -/
theorem passes_of_mem {remote : RemoteFunction} {param : RemoteParam}
    (hparam : param ∈ remote.params) (hname : param.name ≠ resultName) : remote.Passes param where
  argument := by
    have hkept : param ∈ remote.params.filter (·.name ≠ resultName) :=
      List.mem_filter.mpr ⟨hparam, decide_eq_true hname⟩
    obtain ⟨before, after, hsplit⟩ := List.append_of_mem hkept
    refine ⟨before.map (·.argument), after.map (·.argument), ?_⟩
    rw [handlerExecute_eq, hsplit, List.map_append, List.map_cons]
    rfl
  object := fun hdirection => List.mem_append_right _
    (List.mem_map_of_mem (List.mem_filter.mpr ⟨hparam, decide_eq_true hdirection⟩))
  member := by
    intro hdirection hresponse indent
    have houtput : param ∈ remote.outputs :=
      List.mem_filter.mpr ⟨hparam, by rw [hdirection]; rfl⟩
    have hline : indent ++ keeping param ∈ remote.outputs.map fun param =>
        indent ++ param.storageType.declare param.name ++ ";" :=
      List.mem_map.mpr ⟨param, houtput, String.append_assoc ..⟩
    unfold headerLines
    rw [if_pos hresponse]
    exact List.mem_append_left _ (List.mem_append_left _
      (List.mem_append_left _ (List.mem_append_right _ hline)))

/-- A declared parameter of a recorded function has a scanned type and a name. -/
theorem scanned_declared (calls : List Call) {f : Function}
    (hf : f ∈ (Catalog.session calls).functions) {remote : RemoteFunction}
    (hremote : ofFunction f = .ok remote) {param : RemoteParam}
    (hparam : param ∈ remote.params.take f.params.params.length) :
    param.type.Scanned ∧ IsName param.name := by
  obtain ⟨declared, returned, hparams⟩ := exists_parts hremote
  have hscanned : f.Scanned := Catalog.scannedFunctions_session calls f hf
  have horigin : (⟨some param.name, param.type⟩ : Param) ∈ f.params.params := by
    rw [hparams.take_params] at hparam
    rw [hparams.declared.origins_eq]
    exact List.mem_map_of_mem hparam
  obtain ⟨htype, hnames⟩ := hscanned.params _ horigin
  exact ⟨htype, hnames _ rfl⟩

/-- The object that a parameter is kept in is declared such that what is passed has the type of the
parameter. -/
theorem declares_passed_iff {param : RemoteParam} (htype : param.type.Spelled)
    (hplain : IsPlainName param.name) (hstring : param.isString = false)
    (hname : param.name ≠ resultName) (file : Path) (origin : Origin) :
    (∃ w, Outline.ofText plainRules file origin (keeping param) =
        [.declaration (.variable w)] ∧ w.name = param.name ∧
        (param.passed w.type.meaning).dropConst = param.type.meaning.dropConst) ↔
      (∀ part ∈ param.type.parts, part.returnsFunctionPointer = false) ∧
        (param.type.shape.pointers = 0 ∨ param.type.shape.dimensions = [] ∧
          (param.type.isFunctionPointer = true → 2 ≤ param.type.shape.pointers)) := by
  have hkept : param.keptType.Spelled := RemoteParam.keptType_spelled htype
  rw [keeping, ← CType.declare_printed, ← RemoteParam.keptType,
    Outline.declares_iff hkept hplain file origin
      fun type => (param.passed type.meaning).dropConst = param.type.meaning.dropConst,
    hkept.printable_iff, RemoteParam.passed_meaning_iff htype hstring hname]
  obtain ⟨shape, hshape⟩ := param.exists_keptType
  rw [hshape, CType.returns_withShape]

/-- What the handler passes for a declared parameter that is no string has the type of the parameter,
up to `const`, exactly if no function pointer in the type returns one, and the type has no pointers,
or no dimensions and two pointers at least if it is one to a function. The object that is passed, or
whose address is, has the type that its declaration is read with. For this no tag may be missing in
the type, no parameter of a function pointer may be nothing but `void`, no size may have a directive
in it, and no name may be a word that is skipped. -/
theorem passes_type_iff (calls : List Call) {f : Function}
    (hf : f ∈ (Catalog.session calls).functions) {remote : RemoteFunction}
    (hremote : ofFunction f = .ok remote) {param : RemoteParam}
    (hparam : param ∈ remote.params.take f.params.params.length)
    (hstring : param.isString = false) (hname : param.name ≠ resultName)
    (hword : Reader.isPlainWord param.name = true)
    (hparts : ∀ part ∈ param.type.parts, part.SpelledPart) (file : Path) (origin : Origin) :
    remote.Passes param ∧
      ((∃ w, Outline.ofText plainRules file origin (keeping param) =
          [.declaration (.variable w)] ∧ w.name = param.name ∧
          (param.passed w.type.meaning).dropConst = param.type.meaning.dropConst) ↔
        (∀ part ∈ param.type.parts, part.returnsFunctionPointer = false) ∧
          (param.type.shape.pointers = 0 ∨ param.type.shape.dimensions = [] ∧
            (param.type.isFunctionPointer = true → 2 ≤ param.type.shape.pointers))) := by
  obtain ⟨htype, hnamed⟩ := scanned_declared calls hf hremote hparam
  exact ⟨passes_of_mem (List.mem_of_mem_take hparam) hname,
    declares_passed_iff (htype.spelled hparts) (isPlainName_of_isPlainWord hnamed hword) hstring
      hname file origin⟩

/-- Whether a parameter is one of those whose declarations are read, and no string. -/
def isOrdinary (param : RemoteParam) : Bool :=
  !param.isString && param.name != resultName && Reader.isPlainWord param.name &&
    decide (∀ part ∈ param.type.parts, part.SpelledPart)

/-- An input and an output behind pointers, a pointer to a callback, and an array. -/
theorem passes_type_iff_of_pointers :
    let calls : List Call := [.ofText .empty (.ofMarkers ["RPC"]) ⟨"api.h"⟩
      "/* @RPC(OUT(to)) */ void f(const int *from, int **to, void (**cb)(int), char text[4]);"]
    ∃ f ∈ (Catalog.session calls).functions, ∃ remote, ofFunction f = .ok remote ∧
      remote.params.map (·.name) = ["from", "to", "cb", "text"] ∧
      ∀ param ∈ remote.params, remote.Passes param ∧
        ∃ w, Outline.ofText plainRules ⟨"rpc.c"⟩ .input (keeping param) =
          [.declaration (.variable w)] ∧ w.name = param.name ∧
          (param.passed w.type.meaning).dropConst = param.type.meaning.dropConst := by
  intro calls
  have hrecorded : ∃ f ∈ (Catalog.session calls).functions,
      ((ofFunction f).toOption.any fun remote =>
        remote.params.map (·.name) == ["from", "to", "cb", "text"] &&
          f.params.params.length == 4 && remote.params.all fun param => isOrdinary param &&
            decide ((∀ part ∈ param.type.parts, part.returnsFunctionPointer = false) ∧
              (param.type.shape.pointers = 0 ∨ param.type.shape.dimensions = [] ∧
                (param.type.isFunctionPointer = true → 2 ≤ param.type.shape.pointers)))) = true := by
    decide +kernel
  obtain ⟨f, hf, hmatch⟩ := hrecorded
  cases hremote : ofFunction f with
  | error fault =>
    rw [hremote] at hmatch
    cases hmatch
  | ok remote =>
    rw [hremote] at hmatch
    simp only [Except.toOption, Option.any_some, Bool.and_eq_true, beq_iff_eq, List.all_eq_true,
      decide_eq_true_eq] at hmatch
    obtain ⟨⟨hnames, hcount⟩, hall⟩ := hmatch
    have hdeclared : remote.params.take f.params.params.length = remote.params := by
      have hlength := congrArg List.length hnames
      rw [List.length_map] at hlength
      rw [List.take_of_length_le (by rw [hcount, hlength]; decide)]
    refine ⟨f, hf, remote, hremote, hnames, fun param hparam => ?_⟩
    obtain ⟨hordinary, hcondition⟩ := hall param hparam
    unfold isOrdinary at hordinary
    simp only [Bool.and_eq_true, Bool.not_eq_true', bne_iff_ne, decide_eq_true_eq] at hordinary
    obtain ⟨⟨⟨hstring, hname⟩, hword⟩, hparts⟩ := hordinary
    have hpasses := passes_type_iff calls hf hremote (by rwa [hdeclared]) hstring hname hword hparts
      ⟨"rpc.c"⟩ .input
    exact ⟨hpasses.1, hpasses.2.mpr hcondition⟩

/-- The callback `void (*cb)(int)` is kept in an object with the declaration of the parameter
itself, and its address is passed. -/
theorem not_passes_type_of_callback :
    ¬ ∀ (calls : List Call), ∀ f ∈ (Catalog.session calls).functions, ∀ remote,
      ofFunction f = .ok remote → ∀ param ∈ remote.params.take f.params.params.length,
      param.isString = false → param.name ≠ resultName → Reader.isPlainWord param.name = true →
      (∀ part ∈ param.type.parts, part.SpelledPart) → ∀ (file : Path) (origin : Origin),
        ∃ w, Outline.ofText plainRules file origin (keeping param) =
          [.declaration (.variable w)] ∧ w.name = param.name ∧
          (param.passed w.type.meaning).dropConst = param.type.meaning.dropConst := by
  intro hall
  let calls : List Call := [.ofText .empty (.ofMarkers ["RPC"]) ⟨"api.h"⟩
    "void reg(void (*cb)(int));"]
  have hrecorded : ∃ f ∈ (Catalog.session calls).functions,
      ((ofFunction f).toOption.any fun remote =>
        (remote.params.take f.params.params.length).any fun param => isOrdinary param &&
          param.type.isFunctionPointer && param.type.shape.pointers == 1) = true := by
    decide +kernel
  obtain ⟨f, hf, hmatch⟩ := hrecorded
  cases hremote : ofFunction f with
  | error fault =>
    rw [hremote] at hmatch
    cases hmatch
  | ok remote =>
    rw [hremote] at hmatch
    unfold isOrdinary at hmatch
    simp only [Except.toOption, Option.any_some, List.any_eq_true, Bool.and_eq_true,
      Bool.not_eq_true', bne_iff_ne, beq_iff_eq, decide_eq_true_eq] at hmatch
    obtain ⟨param, hparam, ⟨⟨⟨⟨hstring, hname⟩, hword⟩, hparts⟩, hfunction⟩, hstars⟩ := hmatch
    obtain ⟨htype, hnamed⟩ := scanned_declared calls hf hremote hparam
    have hread := hall calls f hf remote hremote param hparam hstring hname hword hparts
      ⟨"rpc.c"⟩ .input
    rw [declares_passed_iff (htype.spelled hparts) (isPlainName_of_isPlainWord hnamed hword)
      hstring hname] at hread
    rcases hread.2 with hzero | ⟨-, htwo⟩
    · omega
    · have := htwo hfunction
      omega

end RemoteFunction

end RemoteCalls
