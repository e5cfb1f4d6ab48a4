import RemoteCalls.Proofs.Extraction.Recorded
import RemoteCalls.Proofs.Outline.PrintedStructures
import RemoteCalls.Proofs.Stub.Lines

/-!
# Stubs are read again

The text around a remote function is read into what it is made of: the result structure, the
prototypes of the helper functions, the client function and the handler, in this order, and nothing
else. The registration of the handler is a macro call, which stands for nothing.
-/

namespace RemoteCalls

/-! ## Names -/

/-- The words that are read as something else than a name, or are skipped. -/
def reservedWords : List String :=
  Token.builtinWords ++ Token.qualifierWords ++ Token.storageWords ++
    ["struct", "union", "enum", "typedef"] ++ Reader.attributeWords ++ Reader.ignoredWords

/-- A word that is not reserved is a plain name. -/
theorem isPlainName_of_not_reserved {name : String}
    (hword : Configuration.isIdentifier name = true) (h : name ∉ reservedWords) :
    IsPlainName name := by
  simp only [reservedWords, List.mem_append, not_or] at h
  obtain ⟨⟨⟨⟨⟨hbuiltin, hqualifier⟩, hstorage⟩, hkeyword⟩, hattribute⟩, hignored⟩ := h
  simp only [List.mem_cons, List.not_mem_nil, or_false, not_or] at hkeyword
  obtain ⟨hstruct, hunion, henum, htypedef⟩ := hkeyword
  refine ⟨⟨hword, ?_⟩, by simpa using hattribute, by simpa using hignored⟩
  simp [Token.ofWord, hbuiltin, hqualifier, hstorage, hstruct, hunion, henum, htypedef]

/-- A name with a back that no reserved word has is a plain name. -/
theorem isPlainName_append {name back : String} (hname : Configuration.isIdentifier name = true)
    (hback : back.toList.all Segment.isWordChar = true)
    (hreserved : ∀ word ∈ reservedWords, ¬ back.toList <:+ word.toList) :
    IsPlainName (name ++ back) := by
  refine isPlainName_of_not_reserved ?_ fun hmem => ?_
  · unfold Configuration.isIdentifier at hname ⊢
    rw [String.toList_append]
    cases hchars : name.toList with
    | nil =>
      rw [hchars] at hname
      cases hname
    | cons c cs =>
      rw [hchars] at hname
      simp only [List.cons_append, List.all_append, Bool.and_eq_true] at hname ⊢
      exact ⟨hname.1, hname.2, hback⟩
  · refine hreserved _ hmem ?_
    rw [String.toList_append]
    exact List.suffix_append _ _

/-- The names that are made from the name of a function are plain, whether its own name is or not.
-/
theorem RemoteNames.isPlainName_of {name : String} (h : Configuration.isIdentifier name = true) :
    IsPlainName (RemoteNames.of name).handler ∧ IsPlainName (RemoteNames.of name).response ∧
      IsPlainName (RemoteNames.of name).result := by
  refine ⟨isPlainName_append h ?_ ?_, isPlainName_append h ?_ ?_, isPlainName_append h ?_ ?_⟩
  all_goals decide

theorem isPlainName_resultName : IsPlainName resultName :=
  isPlainName_of_not_reserved (by decide) (by decide)

/-- A remote function is printable if the function is. -/
theorem RemoteFunction.Parts.printable {f : Function} {remote : RemoteFunction}
    {declared returned : List RemoteParam} (h : Parts f remote declared returned)
    (hf : f.Printable) : remote.Printable := by
  have hparams : ∀ param ∈ remote.params, IsPlainName param.name ∧ param.type.Printable := by
    intro param hparam
    rcases h.mem_params hparam with hparam | ⟨-, rfl⟩
    · have hmem : ⟨some param.name, param.type⟩ ∈ f.params.params := by
        rw [h.declared.origins_eq]
        exact List.mem_map_of_mem hparam
      exact ⟨hf.paramNames _ hmem _ rfl, hf.paramTypes _ hmem⟩
    · exact ⟨isPlainName_resultName, hf.result⟩
  obtain ⟨hhandler, hresponse, hresult⟩ := RemoteNames.isPlainName_of hf.name.word
  rw [← h.names] at hhandler hresponse hresult
  refine ⟨?_, hhandler, hresponse, hresult, fun param hparam => (hparams param hparam).1,
    fun param hparam => (hparams param hparam).2⟩
  rw [h.names]
  exact hf.name

/-! ## Parts of a stub -/

/-- A part of the text around a remote function. -/
inductive StubPart where
  | function (name : String) (result : CType) (params : ParamList) (isDefined : Bool)
  | struct (name : String) (members : List String)

/-- A finding declares a part of a stub. -/
inductive StubPart.Found : StubPart → Finding → Prop
  | function (g : Function) :
      Found (.function g.name g.result g.params g.isDefined) (.declaration (.function g))
  | struct (s : Structure) (h : s.isDefined = true) :
      Found (.struct s.name (s.fields.map (·.name))) (.declaration (.struct s))

/-- Some findings declare the parts of a stub in order, and there is nothing else among them. -/
def StubPart.AllFound (parts : List StubPart) (found : List Finding) : Prop :=
  List.Forall₂ Found parts found

namespace Stub

/-- The type of a pointer to a structure. -/
def pointerTo (tag : String) : CType := .base (.struct tag) { Shape.plain with pointers := 1 }

/-- A function of a stub that returns nothing and takes a pointer to a structure. -/
def helperPart (name tag param : String) (isDefined : Bool) : StubPart :=
  .function name (.base (.builtin "void") .plain) ⟨[⟨some param, pointerTo tag⟩], false⟩ isDefined

/-- The handler of a remote function. -/
def handlerPart (remote : RemoteFunction) (isDefined : Bool) : StubPart :=
  helperPart remote.names.handler "rpc_decoder" "_dec" isDefined

/-- The response function of a remote function. -/
def responsePart (remote : RemoteFunction) : StubPart :=
  helperPart remote.names.response remote.names.result "res" false

/-- The parts of the header. -/
def headerParts (remote : RemoteFunction) : List StubPart :=
  (if remote.hasResponse then
    .struct remote.names.result (remote.outputs.map (·.name)) ::
      (if remote.inlineResponse then [] else [responsePart remote])
  else []) ++ [handlerPart remote false]

/-- What the text around a remote function is made of. -/
def parts (blocks : CodeBlocks) (f : Function) (remote : RemoteFunction) : List StubPart :=
  (if blocks.header then headerParts remote else []) ++
    [.function f.name f.result f.params true] ++ [handlerPart remote true]

end Stub

/-! ## Lines that stand for parts -/

/-- No name among some items is a marker. -/
def NoMarkers (rules : NoteRules) (items : List Item) : Prop :=
  ∀ name, .token (.identifier name) ∈ items → rules.isMarker name = false

theorem NoMarkers.mono {rules : NoteRules} {items more : List Item} (h : NoMarkers rules more)
    (hsub : items ⊆ more) : NoMarkers rules items :=
  fun name hname => h name (hsub hname)

theorem NoMarkers.startsPlain {rules : NoteRules} {items more : List Item}
    (h : NoMarkers rules more) (hsub : items ⊆ more) : StartsPlain rules items :=
  fun name hname => h name (hsub (List.mem_of_head? hname))

/-- Some lines are written from items that yield the given parts if none of their names is a
marker. -/
def LinesFor (lines : List String) (parts : List StubPart) : Prop :=
  ∃ items, WrittenLines lines items ∧ ∀ setting : Setting, NoMarkers setting.rules items →
    Outline.Yields setting items (StubPart.AllFound parts)

namespace LinesFor

variable {lines others : List String} {parts more : List StubPart}

theorem nil : LinesFor [] [] :=
  ⟨[], .nil, fun _ _ => Outline.yields_nil.mono fun _ hfound => hfound ▸ .nil⟩

/-- An empty line stands for nothing. -/
theorem empty : LinesFor [""] [] :=
  ⟨[], .plain prints_nil, fun _ _ => Outline.yields_nil.mono fun _ hfound => hfound ▸ .nil⟩

theorem append (h : LinesFor lines parts) (hmore : LinesFor others more) :
    LinesFor (lines ++ others) (parts ++ more) := by
  obtain ⟨items, hwritten, hyields⟩ := h
  obtain ⟨items', hwritten', hyields'⟩ := hmore
  refine ⟨items ++ items', hwritten.append hwritten', fun setting hmarkers => ?_⟩
  have hfirst := hyields setting (hmarkers.mono (List.subset_append_left _ _))
  have hrest := hyields' setting (hmarkers.mono (List.subset_append_right _ _))
  refine (hfirst.append hrest).mono ?_
  rintro _ ⟨first, rest, rfl, hfound, hfound'⟩
  exact List.rel_append hfound hfound'

/-- Lines that stand for one part. -/
theorem one {part : StubPart} (items : List Item) (hwritten : WrittenLines lines items)
    (h : ∀ setting : Setting, NoMarkers setting.rules items →
      Outline.StandsFor setting items fun found => ∃ one, found = [one] ∧ part.Found one) :
    LinesFor lines [part] := by
  refine ⟨items, hwritten, fun setting hmarkers => (h setting hmarkers).yields.mono ?_⟩
  rintro _ ⟨one, rfl, hfound⟩
  exact .cons hfound .nil

end LinesFor

namespace Outline

variable {f : Function} {isDefined : Bool} {found : List Finding}

/-- A function that is found is a part of a stub. -/
theorem FindsFunction.exists_found (h : FindsFunction f isDefined found) :
    ∃ one, found = [one] ∧ (StubPart.function f.name f.result f.params isDefined).Found one := by
  obtain ⟨g, rfl, hsame, rfl⟩ := h
  refine ⟨_, rfl, ?_⟩
  rw [← hsame.name, ← hsame.result, ← hsame.params]
  exact .function g

end Outline

namespace WrittenLines

/-- The definition of a structure is written around the lines of its members. -/
theorem struct {tag : String} (htag : IsPlainName tag) {members : List String} {list : List Item}
    (hmembers : WrittenLines members list) :
    WrittenLines (["struct " ++ tag ++ " \x7b"] ++ members ++ ["\x7d;"])
      (.token .struct :: .token (.ofWord tag) :: .token .openBrace ::
        (list ++ [.token .closeBrace, .token .semicolon])) := by
  have hopen : Prints ("struct " ++ tag ++ " \x7b") (wordItems ["struct"] ++ wordItems [tag] ++
      [.token .openBrace]) := by
    have htext : "struct " ++ tag ++ " \x7b" = "struct" ++ " " ++ tag ++ " \x7b" := by
      rw [← String.toList_inj]
      simp
    rw [htext]
    have hstruct : Prints "struct" (wordItems ["struct"]) := prints_word (by decide)
    have hwords := hstruct.space (prints_word htag.word) (by decide)
    exact hwords.behind (fun rest => fits_space _) fun rest => .space (.mark rfl (.done rest))
  have hclose : Prints "\x7d;" [.token .closeBrace, .token .semicolon] :=
    ⟨fun rest _ => .mark rfl (.mark rfl (.done rest)), by decide⟩
  have hwritten := ((WrittenLines.plain hopen).append hmembers).append (.plain hclose)
  rwa [List.append_assoc] at hwritten

/-- A function is written around a body that closes its groups, whichever blocks the body has. -/
theorem function {indent head : String} {items : List Item} (h : Prints head items)
    (hindent : IsIndent indent) {lines? : Block → Option (List String)}
    (hlines : ∀ block lines, lines? block = some lines → ∀ line ∈ lines, IsCode line)
    (blocks : List Block) : ∃ body, Item.Balanced body ∧
      WrittenLines (Stub.functionLines indent head lines? blocks)
        (items ++ .token .openBrace :: (body ++ [.token .closeBrace])) := by
  obtain ⟨body, hbalanced, hbody⟩ := Stub.bodyLines_areCode hindent hlines blocks
  have hopen : Prints "\x7b" [.token .openBrace] :=
    ⟨fun rest _ => .mark rfl (.done rest), by decide⟩
  have hclose : Prints "\x7d" [.token .closeBrace] :=
    ⟨fun rest _ => .mark rfl (.done rest), by decide⟩
  have hall := (((WrittenLines.plain h).append (.plain hopen)).append hbody).append (.plain hclose)
  exact ⟨body, hbalanced, by simpa [Stub.functionLines] using hall⟩

end WrittenLines

namespace LinesFor

variable {f : Function} {indent : String}

/-- A prototype with a semicolon stands for its function. -/
theorem prototype (h : f.Printable) :
    LinesFor [f.signature ++ ";"] [.function f.name f.result f.params false] := by
  refine .one _ (.plain h.prints.semicolon) fun setting hmarkers => ?_
  have hplain := hmarkers.startsPlain (List.subset_append_left f.items _)
  exact (Outline.standsFor_prototype h hplain).mono fun _ hfound => hfound.exists_found

/-- A prototype with a body behind it stands for its function, whichever blocks the body has. -/
theorem definition (h : f.Printable) (hindent : IsIndent indent)
    (lines? : Block → Option (List String))
    (hlines : ∀ block lines, lines? block = some lines → ∀ line ∈ lines, IsCode line)
    (blocks : List Block) : LinesFor (Stub.functionLines indent f.signature lines? blocks)
      [.function f.name f.result f.params true] := by
  obtain ⟨body, hbalanced, hwritten⟩ := WrittenLines.function h.prints hindent hlines blocks
  refine .one _ hwritten fun setting hmarkers => ?_
  have hplain := hmarkers.startsPlain (List.subset_append_left f.items _)
  exact (Outline.standsFor_definition h hplain hbalanced).mono fun _ hfound => hfound.exists_found

/-- The members of a result structure are written from fields with the names of the parameters. -/
theorem exists_fields (hindent : IsIndent indent) {params : List RemoteParam}
    (hparams : ∀ param ∈ params, IsPlainName param.name ∧ param.type.Printable) :
    ∃ fields : List Field, (∀ field ∈ fields, field.Printable) ∧
      fields.map (·.name) = params.map (·.name) ∧
      WrittenLines (params.map fun param =>
        indent ++ param.storageType.declare param.name ++ ";") (fields.flatMap Field.items) := by
  induction params with
  | nil => exact ⟨[], fun field hfield => absurd hfield List.not_mem_nil, rfl, .nil⟩
  | cons param params ih =>
    obtain ⟨⟨hname, htype⟩, hrest⟩ := List.forall_mem_cons.mp hparams
    obtain ⟨fields, hfields, hnames, hwritten⟩ := ih hrest
    obtain ⟨type, hkept, hdeclare⟩ := RemoteParam.exists_storage htype
    have hfield : Field.Printable ⟨param.name, type, none⟩ := ⟨hname, hkept, nofun⟩
    refine ⟨⟨param.name, type, none⟩ :: fields, List.forall_mem_cons.mpr ⟨hfield, hfields⟩, ?_, ?_⟩
    · rw [List.map_cons, List.map_cons, hnames]
    · have hprints := (hkept.prints.2 _ _ (prints_word hname.word)).semicolon
      have hline := WrittenLines.line hindent hprints
      rw [← hdeclare, ← String.append_assoc] at hline
      exact hline.append hwritten

/-- The definition of a structure stands for it. -/
theorem struct {tag : String} (htag : IsPlainName tag) (hindent : IsIndent indent)
    (params : List RemoteParam)
    (hparams : ∀ param ∈ params, IsPlainName param.name ∧ param.type.Printable) :
    LinesFor (["struct " ++ tag ++ " \x7b"] ++ params.map (fun param =>
        indent ++ param.storageType.declare param.name ++ ";") ++ ["\x7d;"])
      [.struct tag (params.map (·.name))] := by
  obtain ⟨fields, hfields, hnames, hmembers⟩ := exists_fields hindent hparams
  refine .one (structItems tag fields) (.struct htag hmembers) fun setting hmarkers => ?_
  have hplain : ∀ field ∈ fields, field.StartsPlain setting.rules := by
    intro field hfield _
    refine hmarkers.startsPlain fun item hitem => ?_
    have hmem : item ∈ fields.flatMap Field.items := List.mem_flatMap.mpr ⟨field, hfield, hitem⟩
    simp [structItems, hmem]
  refine (Outline.standsFor_struct htag hfields hplain).mono ?_
  rintro _ ⟨s, rfl, rfl, rfl, hdefined⟩
  rw [← hnames]
  exact ⟨_, rfl, .struct s hdefined⟩

/-- A macro call stands for nothing. -/
theorem macroCall {name first second : String} (hname : IsName name)
    (hfirst : Configuration.isIdentifier first = true)
    (hsecond : Configuration.isIdentifier second = true) :
    LinesFor [name ++ "(" ++ first ++ ", " ++ second ++ ");"] [] := by
  have hprints : Prints (name ++ "(" ++ first ++ ", " ++ second ++ ");")
      (.token (.identifier name) :: .token .openParen ::
        ((.token (.ofWord first) :: .token .comma :: wordItems [second]) ++
          [.token .closeParen, .token .semicolon])) := by
    have hcall := (prints_call hname.word (prints_intercalate (.cons (prints_word hfirst)
      (.cons (prints_word hsecond) .nil)) (List.cons_ne_nil _ _))).semicolon
    have htext : name ++ "(" ++ first ++ ", " ++ second ++ ");" =
        name ++ "(" ++ ", ".intercalate [first, second] ++ ")" ++ ";" := by
      rw [← String.toList_inj]
      simp [String.intercalate_cons_cons]
    rw [htext, ← hname.token]
    exact hcall
  have hbalanced : Item.Balanced (.token (.ofWord first) :: .token .comma :: wordItems [second]) :=
    (Item.Balanced.words [first]).append (.cons rfl rfl (.words [second]))
  refine ⟨_, .plain hprints, fun setting hmarkers => ?_⟩
  have hmarker := hmarkers name (List.mem_cons_self ..)
  refine (Outline.standsFor_macroCall hmarker ?_ hbalanced).yields.mono fun _ hfound => hfound ▸ .nil
  exact fun _ => ofWord_ne rfl

end LinesFor

/-! ## The text around a remote function -/

namespace Stub

variable {f : Function} {remote : RemoteFunction} {indent : String}

/-- A function at the place of another one that returns nothing and takes one parameter. -/
def helperFunction (f : Function) (name : String) (param : Param) : Function :=
  { f with name := name, result := .base (.builtin "void") .plain, params := ⟨[param], false⟩ }

theorem signature_helperFunction (f : Function) (name tag param : String) :
    (helperFunction f name ⟨some param, pointerTo tag⟩).signature =
      "void " ++ name ++ "(struct " ++ tag ++ " *" ++ param ++ ")" := by
  rw [← String.toList_inj]
  simp [helperFunction, pointerTo, Function.signature, parameterText, CType.declare,
    CType.baseSpelling, Shape.qualifiers, Shape.stars, Shape.brackets, Shape.plain, Base.text]

theorem printable_helperFunction {name tag param : String} (hname : IsPlainName name)
    (htag : IsPlainName tag) (hparam : IsPlainName param) :
    (helperFunction f name ⟨some param, pointerTo tag⟩).Printable where
  name := hname
  result := .base (.builtin ["void"] (List.cons_ne_nil _ _) (by decide)) nofun
  dimensions := rfl
  paramTypes := by
    intro param hparam
    rw [List.mem_singleton.mp hparam]
    exact .base (.struct htag.free) nofun
  paramNames := by
    intro param hparam' name hname
    rw [List.mem_singleton.mp hparam'] at hname
    cases hname
    exact hparam
  paramVoid := by
    intro param hparam
    rw [List.mem_singleton.mp hparam]
    nofun

/-- The handler as a function. -/
def handlerFunction (f : Function) (remote : RemoteFunction) : Function :=
  helperFunction f remote.names.handler ⟨some "_dec", pointerTo "rpc_decoder"⟩

theorem signature_handlerFunction (f : Function) (remote : RemoteFunction) :
    (handlerFunction f remote).signature =
      "void " ++ remote.names.handler ++ "(struct rpc_decoder *_dec)" := by
  rw [handlerFunction, signature_helperFunction, ← String.toList_inj]
  simp

theorem printable_handlerFunction (f : Function) (h : IsPlainName remote.names.handler) :
    (handlerFunction f remote).Printable :=
  printable_helperFunction h (isPlainName_of_not_reserved (by decide) (by decide))
    (isPlainName_of_not_reserved (by decide) (by decide))

/-- The prototype of the handler stands for it. -/
theorem linesFor_handlerPrototype (f : Function) (h : IsPlainName remote.names.handler) :
    LinesFor ["void " ++ remote.names.handler ++ "(struct rpc_decoder *_dec);"]
      [handlerPart remote false] := by
  have hline := LinesFor.prototype (printable_handlerFunction f h)
  have htext : "void " ++ remote.names.handler ++ "(struct rpc_decoder *_dec);" =
      "void " ++ remote.names.handler ++ "(struct rpc_decoder *_dec)" ++ ";" := by
    rw [← String.toList_inj]
    simp
  rw [signature_handlerFunction, ← htext] at hline
  exact hline

/-- The handler stands for itself, whichever blocks are selected. -/
theorem linesFor_handler (f : Function) (h : IsPlainName remote.names.handler)
    (hcode : remote.Declarable) (hindent : IsIndent indent) (blocks : List Block) :
    LinesFor (functionLines indent ("void " ++ remote.names.handler ++ "(struct rpc_decoder *_dec)")
      remote.handlerBlock? blocks) [handlerPart remote true] := by
  have hlines := LinesFor.definition (printable_handlerFunction f h) hindent remote.handlerBlock?
    (fun _ _ => hcode.handlerBlock_isCode) blocks
  rw [signature_handlerFunction] at hlines
  exact hlines

/-- The prototype of the response function stands for it. -/
theorem linesFor_response (f : Function) (hresponse : IsPlainName remote.names.response)
    (hresult : IsPlainName remote.names.result) :
    LinesFor ["void " ++ remote.names.response ++ "(struct " ++ remote.names.result ++ " *res);"]
      [responsePart remote] := by
  have hline := LinesFor.prototype (printable_helperFunction (f := f) hresponse hresult
    (isPlainName_of_not_reserved (by decide) (by decide) : IsPlainName "res"))
  have htext : "void " ++ remote.names.response ++ "(struct " ++ remote.names.result ++ " *res);" =
      "void " ++ remote.names.response ++ "(struct " ++ remote.names.result ++ " *" ++ "res" ++ ")" ++
        ";" := by
    rw [← String.toList_inj]
    simp
  rw [signature_helperFunction, ← htext] at hline
  exact hline

/-- The registration of the handler stands for nothing. -/
theorem linesFor_registration (hfunction : Configuration.isIdentifier remote.names.function = true)
    (hhandler : Configuration.isIdentifier remote.names.handler = true) :
    LinesFor ["", "RPC_REGISTER_HANDLER(" ++ remote.names.function ++ ", " ++ remote.names.handler ++
      ");"] [] := by
  have hmacro := LinesFor.macroCall (⟨by decide, by decide⟩ : IsName "RPC_REGISTER_HANDLER")
    hfunction hhandler
  have htext : "RPC_REGISTER_HANDLER" ++ "(" = "RPC_REGISTER_HANDLER(" := by decide
  rw [htext] at hmacro
  exact LinesFor.empty.append hmacro

/-- The lines of the header stand for its parts. -/
theorem linesFor_header (f : Function) (h : remote.Printable) (hindent : IsIndent indent) :
    LinesFor (remote.headerLines indent) (headerParts remote) := by
  have hresponse : LinesFor (if remote.inlineResponse then [] else
      ["void " ++ remote.names.response ++ "(struct " ++ remote.names.result ++ " *res);"])
      (if remote.inlineResponse then [] else [responsePart remote]) := by
    split
    · exact .nil
    · exact linesFor_response f h.response h.result
  have hstruct := LinesFor.struct h.result hindent remote.outputs fun param hparam =>
    ⟨h.paramNames param (List.mem_of_mem_filter hparam),
      h.paramTypes param (List.mem_of_mem_filter hparam)⟩
  unfold RemoteFunction.headerLines headerParts
  refine .append ?_ (linesFor_handlerPrototype f h.handler)
  split
  · have hall := (hstruct.append .empty).append hresponse
    simpa using hall
  · exact .nil

/-- The text around a remote function stands for its parts, whichever blocks are selected. -/
theorem linesFor_lines (hf : f.Printable) (h : remote.Printable) (hindent : IsIndent indent)
    (blocks : CodeBlocks) : LinesFor (lines indent blocks f remote) (parts blocks f remote) := by
  have hheader : LinesFor (if blocks.header then remote.headerLines indent ++ [""] else [])
      (if blocks.header then headerParts remote else []) := by
    split
    · have hlines := (linesFor_header f h hindent).append .empty
      rwa [List.append_nil] at hlines
    · exact .nil
  have hclient := LinesFor.definition hf hindent remote.clientBlock?
    (fun _ _ => h.declarable.clientBlock_isCode) blocks.body
  have hhandler := linesFor_handler f h.handler h.declarable hindent blocks.body
  have hfooter : LinesFor (if blocks.footer then
      ["", "RPC_REGISTER_HANDLER(" ++ remote.names.function ++ ", " ++ remote.names.handler ++ ");"]
      else []) [] := by
    split
    · exact linesFor_registration h.function.word h.handler.word
    · exact .nil
  have hall := (((hheader.append hclient).append .empty).append hhandler).append hfooter
  rw [List.append_nil, List.append_nil] at hall
  exact hall

end Stub

end RemoteCalls
