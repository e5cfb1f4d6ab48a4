import Mathlib.Data.List.Infix
import RemoteCalls.Proofs.Remote
import RemoteCalls.Proofs.Stub.Marshalling

/-!
# Stubs without comments

Where no comment begins in the names of a function and in the spellings of its types, none begins in
the lines of its stub. A comment could also begin where two texts are joined, so that the fixed texts
between the names matter: none of them begins with a star or ends with a slash.
-/

namespace RemoteCalls

/-! ## Texts in which no comment begins -/

namespace Text

/-- No comment begins in a text. -/
def Uncommented (text : String) : Prop := ¬ ['/', '*'] <:+: text.toList

/-- No comment begins in a text, nor does one where it ends, whatever is put behind it. -/
def Firm (text : String) : Prop := Uncommented text ∧ text.toList.getLast? ≠ some '/'

/-- A text that can stand between any two others without a comment beginning where they meet. -/
def Seam (text : String) : Prop :=
  Firm text ∧ text.toList ≠ [] ∧ text.toList.head? ≠ some '*'

instance (text : String) : Decidable (Uncommented text) :=
  inferInstanceAs (Decidable (¬ ['/', '*'] <:+: text.toList))

instance (text : String) : Decidable (Firm text) :=
  inferInstanceAs (Decidable (_ ∧ _))

instance (text : String) : Decidable (Seam text) :=
  inferInstanceAs (Decidable (_ ∧ _ ∧ _))

variable {text more : String}

/-- Two characters stand next to each other in one of two texts, or where they are joined. -/
theorem pair_infix_append_iff {a b : Char} {front behind : List Char} :
    [a, b] <:+: front ++ behind ↔ [a, b] <:+: front ∨ [a, b] <:+: behind ∨
      (front.getLast? = some a ∧ behind.head? = some b) := by
  induction front with
  | nil => simp
  | cons c front ih =>
    rw [List.cons_append, List.infix_cons_iff, List.infix_cons_iff, ih]
    cases front with
    | nil =>
      have hhead : [a, b] <+: c :: behind ↔ c = a ∧ behind.head? = some b := by
        cases behind <;> simp [List.cons_prefix_cons, eq_comm]
      simp [hhead, List.cons_prefix_cons, or_comm]
    | cons d front =>
      rw [List.getLast?_cons_cons]
      simp [List.cons_prefix_cons, or_assoc]

/-- Two texts are joined at a place where no comment begins. -/
theorem Uncommented.append (h : Uncommented text) (hmore : Uncommented more)
    (hjoin : text.toList.getLast? ≠ some '/' ∨ more.toList.head? ≠ some '*') :
    Uncommented (text ++ more) := by
  unfold Uncommented at h hmore ⊢
  rw [String.toList_append, pair_infix_append_iff]
  rintro (hfront | hbehind | ⟨hlast, hhead⟩)
  · exact h hfront
  · exact hmore hbehind
  · exact hjoin.elim (· hlast) (· hhead)

theorem Uncommented.part (h : Uncommented text) (hopens : more.toList <:+: text.toList) :
    Uncommented more :=
  fun hmore => h (hmore.trans hopens)

theorem Uncommented.left (h : Uncommented (text ++ more)) : Uncommented text :=
  h.part (by simpa using (List.prefix_append _ _).isInfix)

theorem Uncommented.right (h : Uncommented (text ++ more)) : Uncommented more :=
  h.part (by simpa using (List.suffix_append _ _).isInfix)

theorem Firm.then (h : Firm text) (hmore : Uncommented more) : Uncommented (text ++ more) :=
  h.1.append hmore (.inl h.2)

theorem Firm.append (h : Firm text) (hmore : Firm more) : Firm (text ++ more) := by
  refine ⟨h.then hmore.1, ?_⟩
  rw [String.toList_append, List.getLast?_append]
  have hlast := hmore.2
  cases hmost : more.toList.getLast? with
  | none => exact h.2
  | some c => rwa [hmost] at hlast

theorem Uncommented.seam (h : Uncommented text) (hmore : Seam more) : Firm (text ++ more) := by
  refine ⟨h.append hmore.1.1 (.inr hmore.2.2), ?_⟩
  rw [String.toList_append, List.getLast?_append_of_ne_nil _ hmore.2.1]
  exact hmore.1.2

theorem firm_of_not_mem (h : '/' ∉ text.toList) : Firm text :=
  ⟨fun hopens => h (hopens.mem (by simp)), fun hlast => h (List.mem_of_getLast? hlast)⟩

theorem uncommented_intercalate {separator : String} (hseparator : Seam separator)
    {texts : List String} (h : ∀ text ∈ texts, Uncommented text) :
    Uncommented (separator.intercalate texts) := by
  induction texts with
  | nil => exact (by decide : Uncommented "")
  | cons text texts ih =>
    obtain ⟨htext, htexts⟩ := List.forall_mem_cons.mp h
    cases texts with
    | nil => simpa using htext
    | cons next texts =>
      rw [String.intercalate_cons_cons]
      exact (htext.seam hseparator).then (ih htexts)

end Text

open Text

/-! ## Declarations -/

theorem Shape.qualifiers_firm (shape : Shape) : Firm shape.qualifiers := by
  obtain ⟨isConst, isVolatile, pointers, dimensions⟩ := shape
  unfold qualifiers
  cases isConst <;> cases isVolatile <;> simp only [if_true, Bool.false_eq_true, if_false] <;> decide

theorem Shape.stars_firm (n : Nat) : Firm (stars n) := by
  refine firm_of_not_mem fun hmem => ?_
  rw [stars, String.toList_ofList] at hmem
  exact absurd (List.eq_of_mem_replicate hmem) (by decide)

/-- The dimensions of a shape begin with a bracket, if there are any. -/
theorem Shape.head?_brackets (shape : Shape) : shape.brackets.toList.head? ≠ some '*' := by
  unfold brackets
  cases shape.dimensions with
  | nil => decide
  | cons size sizes => simp [String.join_cons]

/-- No comment begins in the texts that a type is written from. -/
def CType.Uncommented : CType → Prop
  | base b shape => Text.Uncommented b.text ∧ Text.Uncommented shape.brackets
  | function result params variadic shape =>
    Text.Uncommented result.spelling ∧ Text.Uncommented shape.brackets ∧
      Text.Uncommented (parameterText (spellings params) variadic)

theorem CType.uncommented_of_spelling {type : CType} (h : Text.Uncommented type.spelling) :
    type.Uncommented := by
  cases type with
  | base b shape =>
    rw [spelling] at h
    refine ⟨h.left.left.right, ?_⟩
    by_cases hdimensions : shape.dimensions.isEmpty = true
    · rw [Shape.brackets, List.isEmpty_iff.mp hdimensions]
      decide
    · rw [if_neg hdimensions] at h
      exact h.right.right
  | function result params variadic shape =>
    rw [spelling] at h
    exact ⟨h.left.left.left.left.left.left.right, h.left.left.left.right, h.left.right⟩

/-- A name is declared with a type without a comment. -/
theorem CType.Uncommented.declare {type : CType} (h : type.Uncommented) {name : String}
    (hname : Text.Uncommented name) : Text.Uncommented (type.declare name) := by
  cases type with
  | base b shape =>
    obtain ⟨hbase, hbrackets⟩ := h
    have hspelled := (shape.qualifiers_firm.then hbase).seam (by decide : Seam " ")
    exact ((hspelled.append (Shape.stars_firm _)).then hname).append hbrackets
      (.inr shape.head?_brackets)
  | function result params variadic shape =>
    obtain ⟨hresult, hbrackets, hparams⟩ := h
    have hopen := (shape.qualifiers_firm.then hresult).seam (by decide : Seam " (")
    have hdeclarator := ((hopen.append (Shape.stars_firm (max shape.pointers 1))).then
      hname).append hbrackets (.inr shape.head?_brackets)
    exact (((hdeclarator.seam (by decide : Seam ")(")).then hparams).seam
      (by decide : Seam ")")).1

/-- The type in which a parameter is kept has the texts of its own type. -/
theorem RemoteParam.storageType_uncommented {param : RemoteParam} (h : param.type.Uncommented) :
    param.storageType.Uncommented := by
  obtain ⟨name, type, direction, isString⟩ := param
  unfold storageType
  dsimp only
  split
  · cases type <;> exact h
  · exact h

theorem uncommented_parameterText {texts : List String} (h : ∀ text ∈ texts, Uncommented text)
    (variadic : Bool) : Uncommented (parameterText texts variadic) := by
  have hall : ∀ text ∈ (if variadic then texts ++ ["..."] else texts), Uncommented text := by
    intro text htext
    split at htext
    · rcases List.mem_append.mp htext with htext | htext
      · exact h text htext
      · rw [List.mem_singleton.mp htext]
        decide
    · exact h text htext
  unfold parameterText
  dsimp only
  generalize (if variadic then texts ++ ["..."] else texts) = all at hall
  split
  · decide
  · exact uncommented_intercalate (by decide) hall

/-- No comment begins in the names of a function and its parameters and in the spellings of its
types. -/
structure Function.Uncommented (f : Function) : Prop where
  name : Text.Uncommented f.name
  result : Text.Uncommented f.result.spelling
  params : ∀ param ∈ f.params.params, Text.Uncommented param.type.spelling ∧
    ∀ name, param.name = some name → Text.Uncommented name

theorem Function.Uncommented.signature {f : Function} (h : f.Uncommented) :
    Text.Uncommented f.signature := by
  unfold Function.signature
  dsimp only
  refine (CType.uncommented_of_spelling h.result).declare
    ((((h.name.seam (by decide : Seam "(")).then ?_).seam (by decide : Seam ")")).1)
  refine uncommented_parameterText (fun text htext => ?_) _
  obtain ⟨param, hparam, rfl⟩ := List.mem_map.mp htext
  obtain ⟨htype, hname⟩ := h.params param hparam
  split
  · next name hnamed => exact (CType.uncommented_of_spelling htype).declare (hname name hnamed)
  · exact htype

/-! ## Lines about one parameter -/

/-- No comment begins in the name of a parameter and in the texts of its type. -/
structure RemoteParam.Uncommented (param : RemoteParam) : Prop where
  name : Text.Uncommented param.name
  type : param.type.Uncommented

namespace RemoteParam.Uncommented

variable {param : RemoteParam}

theorem value (h : param.Uncommented) : Text.Uncommented param.value := by
  unfold RemoteParam.value
  split
  · exact (((by decide : Firm "(*").then h.name).seam (by decide : Seam ")")).1
  · exact h.name

theorem operands (h : param.Uncommented) : Text.Uncommented param.operands := by
  unfold RemoteParam.operands
  split
  · exact (((h.name.seam (by decide : Seam ", sizeof(")).then h.value).seam
      (by decide : Seam ")")).1
  · exact h.value

theorem wire (param : RemoteParam) : Text.Uncommented param.wire.text := by
  cases param.wire <;> decide

theorem encodeLine (h : param.Uncommented) : Text.Uncommented param.encodeLine := by
  rw [encodeLine_eq]
  have hcall := ((by decide : Firm "ser_encode_").then (wire param)).seam
    (by decide : Seam "(&_ctx.encoder, ")
  exact ((hcall.then h.operands).seam (by decide : Seam ");")).1

/-- The line that decodes a value with the given decoder to the given place. -/
theorem decoding (h : param.Uncommented) {place : String} (hplace : Seam place) :
    Text.Uncommented ("ser_decode_" ++ param.wire.text ++ place ++ param.name ++ ");") := by
  have hcall := ((by decide : Firm "ser_decode_").then (wire param)).seam hplace
  exact ((hcall.then h.name).seam (by decide : Seam ");")).1

theorem argument (h : param.Uncommented) : Text.Uncommented param.argument := by
  have hfront : Firm ((if param.byAddress then "&" else "") ++
      (if param.direction = .output then "_res." else "")) := by
    split <;> split <;> decide
  exact hfront.then h.name

/-- The declaration of what a parameter is kept in. -/
theorem storage (h : param.Uncommented) :
    Text.Uncommented (param.storageType.declare param.name ++ ";") :=
  (((storageType_uncommented h.type).declare h.name).seam (by decide : Seam ";")).1

end RemoteParam.Uncommented

/-! ## Lines about a function -/

/-- No comment begins in the names around a remote function, in the names of its parameters and in
the texts of their types. -/
structure RemoteFunction.Uncommented (remote : RemoteFunction) : Prop where
  function : Text.Uncommented remote.names.function
  handler : Text.Uncommented remote.names.handler
  response : Text.Uncommented remote.names.response
  result : Text.Uncommented remote.names.result
  params : ∀ param ∈ remote.params, param.Uncommented

theorem RemoteFunction.Parts.uncommented {f : Function} {remote : RemoteFunction}
    {declared returned : List RemoteParam} (h : Parts f remote declared returned)
    (hf : f.Uncommented) : remote.Uncommented := by
  have hback : ∀ back, Seam back → Text.Uncommented (f.name ++ back) := fun back hseam =>
    (hf.name.seam hseam).1
  constructor
  · rw [h.names]
    exact hf.name
  · rw [h.names]
    exact hback handlerBack (by decide)
  · rw [h.names]
    exact hback responseBack (by decide)
  · rw [h.names]
    exact hback resultBack (by decide)
  · intro param hparam
    rcases h.mem_params hparam with hdeclared | ⟨-, rfl⟩
    · have horigin : (⟨some param.name, param.type⟩ : Param) ∈ f.params.params := by
        rw [h.declared.origins_eq]
        exact List.mem_map_of_mem hdeclared
      obtain ⟨htype, hname⟩ := hf.params _ horigin
      exact ⟨hname _ rfl, CType.uncommented_of_spelling htype⟩
    · exact ⟨(by decide : Text.Uncommented resultName),
        CType.uncommented_of_spelling hf.result⟩

namespace RemoteFunction.Uncommented

variable {remote : RemoteFunction} (h : remote.Uncommented)
include h

theorem outputs : ∀ param ∈ remote.outputs, param.Uncommented :=
  fun param hparam => h.params param (List.mem_of_mem_filter hparam)

/-- The declaration of an object of the result structure. -/
theorem answer {name : String} (hname : Seam name) :
    Text.Uncommented ("struct " ++ remote.names.result ++ name) :=
  (((by decide : Firm "struct ").then h.result).seam hname).1

theorem headerLines {indent : String} (hindent : Firm indent) :
    ∀ line ∈ remote.headerLines indent, Text.Uncommented line := by
  have hmember : ∀ param ∈ remote.outputs,
      Text.Uncommented (indent ++ param.storageType.declare param.name ++ ";") := by
    intro param hparam
    rw [String.append_assoc]
    exact hindent.then (h.outputs param hparam).storage
  have hresponse : Text.Uncommented
      ("void " ++ remote.names.response ++ "(struct " ++ remote.names.result ++ " *res);") :=
    (((((by decide : Firm "void ").then h.response).seam (by decide : Seam "(struct ")).then
      h.result).seam (by decide : Seam " *res);")).1
  have hhandler : Text.Uncommented
      ("void " ++ remote.names.handler ++ "(struct rpc_decoder *_dec);") :=
    (((by decide : Firm "void ").then h.handler).seam
      (by decide : Seam "(struct rpc_decoder *_dec);")).1
  intro line hline
  unfold RemoteFunction.headerLines at hline
  rcases List.mem_append.mp hline with hline | hline
  · split at hline
    · simp only [List.mem_append, List.mem_cons, List.not_mem_nil, or_false,
        List.mem_map] at hline
      rcases hline with ((rfl | ⟨param, hparam, rfl⟩) | rfl | rfl) | hline
      · exact h.answer (by decide)
      · exact hmember param hparam
      · decide
      · decide
      · split at hline
        · cases hline
        · rw [List.mem_singleton.mp hline]
          exact hresponse
    · cases hline
  · rw [List.mem_singleton.mp hline]
    exact hhandler

theorem clientLocals : ∀ line ∈ remote.clientLocals, Text.Uncommented line := by
  intro line hline
  unfold RemoteFunction.clientLocals at hline
  rcases List.mem_append.mp hline with hline | hline
  · rw [List.mem_singleton.mp hline]
    decide
  · split at hline
    · simp only [List.mem_cons, List.not_mem_nil, or_false] at hline
      rcases hline with rfl | rfl
      · decide
      · exact h.answer (by decide)
    · split at hline
      · next param hparam =>
        rw [List.mem_singleton.mp hline]
        have htype := (h.params param (List.mem_of_find?_eq_some hparam)).type
        exact ((htype.declare (by decide)).seam (by decide : Seam " = \x7b0\x7d;")).1
      · cases hline

theorem clientEncode : ∀ line ∈ remote.clientEncode, Text.Uncommented line := by
  intro line hline
  obtain ⟨param, hparam, rfl⟩ := List.mem_map.mp hline
  have hinput := List.mem_of_mem_filter (List.mem_of_mem_filter hparam)
  exact (h.params param hinput).encodeLine

theorem clientSend : ∀ line ∈ remote.clientSend, Text.Uncommented line := by
  have hname : Text.Uncommented ("\"" ++ remote.names.function ++ "\"") :=
    (((by decide : Firm "\"").then h.function).seam (by decide : Seam "\"")).1
  have hevent := ((by decide : Firm "nrf_rpc_event_send(&_ctx, ").then hname).seam
    (by decide : Seam ");")
  have hcommand := ((by decide : Firm "nrf_rpc_cmd_send(&_ctx, ").then hname).seam
    (by decide : Seam ", ")
  intro line hline
  unfold RemoteFunction.clientSend at hline
  dsimp only at hline
  split at hline
  · rw [List.mem_singleton.mp hline]
    exact hevent.1
  · rw [List.mem_singleton.mp hline]
    refine ((hcommand.then ?_).seam (by decide : Seam ");")).1
    split
    · decide
    · split
      · exact h.response
      · decide

theorem clientDecode : ∀ line ∈ remote.clientDecode, Text.Uncommented line := by
  intro line hline
  unfold RemoteFunction.clientDecode at hline
  split at hline
  · rcases List.mem_append.mp hline with hline | hline
    · obtain ⟨param, hparam, rfl⟩ := List.mem_map.mp hline
      exact (h.outputs param hparam).decoding (by decide)
    · obtain ⟨param, hparam, rfl⟩ := List.mem_map.mp hline
      have hquiet := h.outputs param (List.mem_of_mem_filter hparam)
      exact (((hquiet.value.seam (by decide : Seam " = _res.")).then hquiet.name).seam
        (by decide : Seam ";")).1
  · cases hline

omit h in
theorem clientReturn (remote : RemoteFunction) :
    ∀ line ∈ remote.clientReturn, Text.Uncommented line := by
  intro line hline
  unfold RemoteFunction.clientReturn at hline
  split at hline
  · split at hline
    · rw [List.mem_singleton.mp hline]
      decide
    · rw [List.mem_singleton.mp hline]
      decide
  · cases hline

theorem handlerLocals : ∀ line ∈ remote.handlerLocals, Text.Uncommented line := by
  intro line hline
  unfold RemoteFunction.handlerLocals at hline
  rcases List.mem_append.mp hline with hline | hline
  · split at hline
    · rw [List.mem_singleton.mp hline]
      exact h.answer (by decide)
    · cases hline
  · obtain ⟨param, hparam, rfl⟩ := List.mem_map.mp hline
    exact (h.params param (List.mem_of_mem_filter hparam)).storage

theorem handlerDecode : ∀ line ∈ remote.handlerDecode, Text.Uncommented line := by
  intro line hline
  obtain ⟨param, hparam, rfl⟩ := List.mem_map.mp hline
  exact (h.params param (List.mem_of_mem_filter hparam)).decoding (by decide)

theorem handlerExecute : ∀ line ∈ remote.handlerExecute, Text.Uncommented line := by
  have harguments : Text.Uncommented
      (", ".intercalate ((remote.params.filter (·.name ≠ resultName)).map (·.argument))) := by
    refine uncommented_intercalate (by decide) fun text htext => ?_
    obtain ⟨param, hparam, rfl⟩ := List.mem_map.mp htext
    exact (h.params param (List.mem_of_mem_filter hparam)).argument
  have htarget : Firm remote.callTarget := by
    unfold RemoteFunction.callTarget
    split <;> decide
  intro line hline
  rw [handlerExecute_eq] at hline
  rw [List.mem_singleton.mp hline]
  exact htarget.then
    ((((h.function.seam (by decide : Seam "(")).then harguments).seam (by decide : Seam ");")).1)

theorem handlerResponse : ∀ line ∈ remote.handlerResponse, Text.Uncommented line := by
  intro line hline
  unfold RemoteFunction.handlerResponse at hline
  split at hline
  · cases hline
  · split at hline
    · rcases List.mem_append.mp hline with hline | hline
      · obtain ⟨param, hparam, rfl⟩ := List.mem_map.mp hline
        have hname := (h.params param (List.mem_of_mem_filter hparam)).name
        exact (((((by decide : Firm "_res.").then hname).seam (by decide : Seam " = ")).then
          hname).seam (by decide : Seam ";")).1
      · rw [List.mem_singleton.mp hline]
        decide
    · rw [List.mem_singleton.mp hline]
      decide

/-- The line that registers the handler. -/
theorem footer : Text.Uncommented
    ("RPC_REGISTER_HANDLER(" ++ remote.names.function ++ ", " ++ remote.names.handler ++ ");") :=
  (((((by decide : Firm "RPC_REGISTER_HANDLER(").then h.function).seam (by decide : Seam ", ")).then
    h.handler).seam (by decide : Seam ");")).1

/-- The prototype of the handler. -/
theorem handlerHead :
    Text.Uncommented ("void " ++ remote.names.handler ++ "(struct rpc_decoder *_dec)") :=
  (((by decide : Firm "void ").then h.handler).seam
    (by decide : Seam "(struct rpc_decoder *_dec)")).1

theorem clientBlock {block : Block} {lines : List String}
    (hblock : remote.clientBlock? block = some lines) :
    ∀ line ∈ lines, Text.Uncommented line := by
  cases block <;> cases hblock
  · exact h.clientLocals
  · exact h.clientEncode
  · exact h.clientSend
  · exact h.clientDecode
  · exact clientReturn remote

theorem handlerBlock {block : Block} {lines : List String}
    (hblock : remote.handlerBlock? block = some lines) :
    ∀ line ∈ lines, Text.Uncommented line := by
  cases block <;> cases hblock
  · exact h.handlerLocals
  · exact h.handlerDecode
  · exact h.handlerExecute
  · exact h.handlerResponse

end RemoteFunction.Uncommented

end RemoteCalls
