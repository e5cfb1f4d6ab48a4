import RemoteCalls.Proofs.Outline.Admitting
import RemoteCalls.Proofs.Remote.Discovery
import RemoteCalls.Proofs.Stub.Rereading

/-!
# Stubs that are read without reports

Not every stub can be read: a type may have a tag that is missing in the source text, a name may be
an attribute or be skipped, and a function pointer that returns one is spelled without its name. But
where a stub is read and nothing is reported, all that is found in it is the function, its helper
functions and its result structure, whatever their types have become.
-/

namespace RemoteCalls

/-- A finding declares what stands in the stub with the given names. -/
def RemoteNames.Finds (names : RemoteNames) (finding : Finding) : Prop :=
  ∃ d, finding = .declaration d ∧ names.Declares d

/-- A part of a stub has one of the names around a function. -/
def StubPart.IsOf (names : RemoteNames) : StubPart → Prop
  | function name _ _ _ => name ∈ [names.function, names.handler, names.response]
  | struct name _ => name = names.result

theorem StubPart.Found.finds {part : StubPart} {finding : Finding} (h : part.Found finding)
    {names : RemoteNames} (hpart : part.IsOf names) : names.Finds finding := by
  cases h with
  | function g => exact ⟨_, rfl, .function g hpart⟩
  | struct s => exact ⟨_, rfl, .struct s hpart⟩

/-- All parts of a stub with the names around a function are found as such. -/
theorem StubPart.AllFound.finds {parts : List StubPart} {found : List Finding}
    (h : AllFound parts found) {names : RemoteNames} (hparts : ∀ part ∈ parts, part.IsOf names) :
    ∀ finding ∈ found, names.Finds finding := by
  induction h with
  | nil => exact fun _ hfinding => absurd hfinding List.not_mem_nil
  | cons hfirst _ ih =>
    obtain ⟨hpart, hothers⟩ := List.forall_mem_cons.mp hparts
    exact List.forall_mem_cons.mpr ⟨hfirst.finds hpart, ih hothers⟩

/-! ## Lines that declare nothing else -/

/-- Some lines are written from items in which only what has the given names is found, if they are
read without a report and none of their names is a marker. -/
def LinesAdmit (names : RemoteNames) (lines : List String) : Prop :=
  ∃ items, WrittenLines lines items ∧ ∀ setting : Setting, NoMarkers setting.rules items →
    Outline.Admits setting items names.Finds

namespace LinesAdmit

variable {names : RemoteNames} {lines others : List String}

/-- Lines that stand for parts of a stub. -/
theorem of_linesFor {parts : List StubPart} (h : LinesFor lines parts)
    (hparts : ∀ part ∈ parts, part.IsOf names) : LinesAdmit names lines := by
  obtain ⟨items, hwritten, hyields⟩ := h
  exact ⟨items, hwritten, fun setting hmarkers =>
    (hyields setting hmarkers).admits fun _ hfound => hfound.finds hparts⟩

theorem nil : LinesAdmit names [] := of_linesFor .nil nofun

theorem empty : LinesAdmit names [""] := of_linesFor .empty nofun

theorem append (h : LinesAdmit names lines) (hmore : LinesAdmit names others) :
    LinesAdmit names (lines ++ others) := by
  obtain ⟨items, hwritten, hadmits⟩ := h
  obtain ⟨items', hwritten', hadmits'⟩ := hmore
  refine ⟨items ++ items', hwritten.append hwritten', fun setting hmarkers => ?_⟩
  exact (hadmits setting (hmarkers.mono (List.subset_append_left _ _))).append
    (hadmits' setting (hmarkers.mono (List.subset_append_right _ _)))

end LinesAdmit

/-! ## The function and its result structure -/

/-- The parameters of a function from a source text are printed from flat rows of items, and each of
them begins as a declaration or as a type. -/
theorem Function.Scanned.exists_rows {f : Function} (h : f.Scanned) (hsizes : f.NoDirective) :
    ∃ rows, List.Forall₂ Prints (f.params.params.map fun param =>
      match param.name with
      | some name => param.type.declare name
      | none => param.type.spelling) rows ∧ ∀ row ∈ rows, Item.Flat row ∧
        ∃ name : Option String, CType.BeginsBy (wordItems name.toList) row := by
  refine RemoteCalls.exists_rows fun param hparam => ?_
  obtain ⟨htype, hname⟩ := h.params param hparam
  obtain ⟨⟨row, hprints, hflat, hdeclared⟩, hdeclare⟩ := htype.exists_items (hsizes.param hparam)
  cases hparam' : param.name with
  | none => exact ⟨row, hprints, hflat, none, hdeclared.beginsBy⟩
  | some name =>
    obtain ⟨row, hprints, hflat, hdeclared⟩ := hdeclare name _
      (prints_word (hname name hparam').word) (.words [name])
    exact ⟨row, hprints, hflat, some name, hdeclared.beginsBy⟩

/-- The prototype of a function from a source text is declared by its result, with its name and a
flat list of parameters behind it. -/
theorem Function.Scanned.exists_items {f : Function} (h : f.Scanned) (hsizes : f.NoDirective) :
    ∃ list items, Prints f.signature items ∧ Item.Flat list ∧
      Reader.BeginsList (list ++ [.token .closeParen]) ∧
      f.result.DeclaredBy (.token (.identifier f.name) :: .token .openParen :: list ++
        [.token .closeParen]) items := by
  obtain ⟨rows, hrows, hall⟩ := h.exists_rows hsizes
  have hflat := Item.Flat.list (fun row hrow => (hall row hrow).1) f.params.variadic
  have hbegins := Reader.beginsList_listItems (fun row hrow => (hall row hrow).2) f.params.variadic
  have hcall := prints_call h.name.word (prints_parameterText hrows f.params.variadic)
  rw [h.name.token] at hcall
  have hflatCall := Item.Flat.cons (t := .identifier f.name) rfl rfl hflat.parens
  obtain ⟨items, hprints, -, hdeclared⟩ := (h.result.exists_items hsizes.result).2 _ _ hcall hflatCall
  exact ⟨_, items, hprints, hflat, hbegins, hdeclared⟩

namespace Stub

variable {f : Function} {remote : RemoteFunction} {indent : String}

/-- In the client function only the function can be found. -/
theorem linesAdmit_client (hf : f.Scanned) (hsizes : f.NoDirective)
    (hname : remote.names.function = f.name) (hcode : remote.Declarable) (hindent : IsIndent indent)
    (blocks : List Block) :
    LinesAdmit remote.names (functionLines indent f.signature remote.clientBlock? blocks) := by
  obtain ⟨list, items, hprints, hflat, hbegins, hdeclared⟩ := hf.exists_items hsizes
  obtain ⟨body, hbody, hwritten⟩ := WrittenLines.function hprints hindent
    (fun _ _ => hcode.clientBlock_isCode) blocks
  refine ⟨_, hwritten, fun setting hmarkers => ?_⟩
  have hplain := hmarkers.startsPlain (List.subset_append_left items _)
  refine Outline.admits_declaration (List.append_ne_nil_of_right_ne_nil _ (List.cons_ne_nil _ _))
    (fun steps => ?_) fun row behind hrow =>
      Outline.Front.of_beginsBy hdeclared.beginsBy hplain hrow behind
  refine (Reader.external_declaredBy hf.name hflat hbegins hf.dimensions hdeclared hbody).mono ?_
    fun _ ht => ht
  rintro _ _ ⟨_, rfl, g, rfl, hg⟩ d hd
  rw [List.mem_singleton.mp hd]
  refine ⟨_, rfl, .function _ ?_⟩
  rw [hname]
  exact List.mem_cons.mpr (.inl hg)

/-- The members of a result structure are written from flat items. -/
theorem exists_members (hindent : IsIndent indent) {params : List RemoteParam}
    (hparams : ∀ param ∈ params, IsFlat (param.storageType.declare param.name)) :
    ∃ list, Item.Flat list ∧ WrittenLines (params.map fun param =>
      indent ++ param.storageType.declare param.name ++ ";") list := by
  induction params with
  | nil => exact ⟨[], .nil, .nil⟩
  | cons param params ih =>
    obtain ⟨⟨items, hprints, hflat⟩, hothers⟩ := List.forall_mem_cons.mp hparams
    obtain ⟨list, hlist, hwritten⟩ := ih hothers
    have hline := WrittenLines.line hindent hprints.semicolon
    rw [← String.append_assoc] at hline
    exact ⟨_, (hflat.append (.cons rfl rfl .nil)).append hlist, hline.append hwritten⟩

/-- In the definition of a structure only the structure can be found. -/
theorem linesAdmit_struct {names : RemoteNames} (hresult : IsPlainName names.result)
    (hindent : IsIndent indent) {params : List RemoteParam}
    (hparams : ∀ param ∈ params, IsFlat (param.storageType.declare param.name)) :
    LinesAdmit names (["struct " ++ names.result ++ " \x7b"] ++ params.map (fun param =>
      indent ++ param.storageType.declare param.name ++ ";") ++ ["\x7d;"]) := by
  obtain ⟨list, hlist, hmembers⟩ := exists_members hindent hparams
  refine ⟨_, .struct hresult hmembers, fun setting hmarkers => ?_⟩
  refine Outline.admits_declaration (List.cons_ne_nil _ _) (fun steps => ?_) fun row behind hrow => ?_
  · rw [hresult.token]
    refine (Reader.external_members hresult.free hlist).mono ?_ fun _ ht => ht
    rintro _ _ ⟨s, rfl, hs⟩ d hd
    rw [List.mem_singleton.mp hd]
    exact ⟨_, rfl, .struct _ hs⟩
  · have hfirst : Reader.headToken (row ++ behind) = .struct := hrow.headToken behind
    refine Outline.Front.of_declaration (hfirst ▸ rfl) fun name hname => ?_
    cases hfirst.symm.trans hname

/-! ## The text around a remote function -/

/-- The lines of a stub are code if the function is from a source text. -/
theorem declarable_of_parts {declared returned : List RemoteParam}
    (h : RemoteFunction.Parts f remote declared returned) (hf : f.Scanned) (hsizes : f.NoDirective) :
    remote.Declarable where
  function := h.names ▸ hf.name.word
  response := h.names ▸ (RemoteNames.isPlainName_of hf.name.word).2.1.word
  result := h.names ▸ (RemoteNames.isPlainName_of hf.name.word).2.2.word
  paramNames := fun param hparam => (h.scanned hf hsizes hparam).1
  declared := by
    intro param hparam name hname
    obtain ⟨-, htype, hsizes⟩ := h.scanned hf hsizes hparam
    exact (htype.declare_isFlat hsizes hname).isCode
  stored := by
    intro param hparam name hname
    obtain ⟨-, htype, hsizes⟩ := h.scanned hf hsizes hparam
    exact (RemoteParam.storage_isFlat htype hsizes hname).isCode

/-- In the header only the helper functions and the result structure can be found. -/
theorem linesAdmit_header (f : Function) (hnames : IsPlainName remote.names.handler ∧
      IsPlainName remote.names.response ∧ IsPlainName remote.names.result)
    (hparams : ∀ param ∈ remote.params, IsFlat (param.storageType.declare param.name))
    (hindent : IsIndent indent) : LinesAdmit remote.names (remote.headerLines indent) := by
  obtain ⟨hhandler, hresponse, hresult⟩ := hnames
  have hprototype : LinesAdmit remote.names (if remote.inlineResponse then [] else
      ["void " ++ remote.names.response ++ "(struct " ++ remote.names.result ++ " *res);"]) := by
    split
    · exact .nil
    · refine .of_linesFor (linesFor_response f hresponse hresult) (List.forall_mem_singleton.mpr ?_)
      exact List.mem_cons_of_mem _ (List.mem_cons_of_mem _ (List.mem_cons_self ..))
  have houtputs : ∀ param ∈ remote.outputs, IsFlat (param.storageType.declare param.name) :=
    fun param hparam => hparams param (List.mem_of_mem_filter hparam)
  have hstruct := linesAdmit_struct hresult hindent houtputs
  unfold RemoteFunction.headerLines
  refine .append ?_ (.of_linesFor (linesFor_handlerPrototype f hhandler)
    (List.forall_mem_singleton.mpr (List.mem_cons_of_mem _ (List.mem_cons_self ..))))
  split
  · have hall := (hstruct.append .empty).append hprototype
    simpa using hall
  · exact .nil

/-- In the text around a function from a source text only the function, its helper functions and its
result structure can be found, whichever blocks are selected. -/
theorem linesAdmit_lines (hf : f.Scanned) (hsizes : f.NoDirective)
    (hremote : RemoteFunction.ofFunction f = .ok remote) (hindent : IsIndent indent)
    (blocks : CodeBlocks) : LinesAdmit (.of f.name) (lines indent blocks f remote) := by
  obtain ⟨declared, returned, hparts⟩ := RemoteFunction.exists_parts hremote
  have hcode := declarable_of_parts hparts hf hsizes
  have hnames := RemoteNames.isPlainName_of hf.name.word
  rw [← hparts.names] at hnames ⊢
  have hheader : LinesAdmit remote.names
      (if blocks.header then remote.headerLines indent ++ [""] else []) := by
    split
    · refine (linesAdmit_header f hnames (fun param hparam => ?_) hindent).append .empty
      obtain ⟨hname, htype, hsizes⟩ := hparts.scanned hf hsizes hparam
      exact RemoteParam.storage_isFlat htype hsizes hname
    · exact .nil
  have hclient := linesAdmit_client hf hsizes (by rw [hparts.names]; rfl) hcode hindent blocks.body
  have hhandler : LinesAdmit remote.names _ :=
    .of_linesFor (linesFor_handler f hnames.1 hcode hindent blocks.body)
      (List.forall_mem_singleton.mpr (List.mem_cons_of_mem _ (List.mem_cons_self ..)))
  have hfooter : LinesAdmit remote.names (if blocks.footer then
      ["", "RPC_REGISTER_HANDLER(" ++ remote.names.function ++ ", " ++ remote.names.handler ++ ");"]
      else []) := by
    split
    · exact .of_linesFor (linesFor_registration hcode.function hnames.1.word) nofun
    · exact .nil
  exact (((hheader.append hclient).append .empty).append hhandler).append hfooter

end Stub

end RemoteCalls
