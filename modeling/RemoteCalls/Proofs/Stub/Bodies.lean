import RemoteCalls.Proofs.Stub.Code

/-!
# The bodies of stubs are code

Whatever a function is called and whatever parameters it has, each line between the comments of a
block is code if the names are words and code declares the parameters.
-/

namespace RemoteCalls

open RemoteCalls.Configuration (isIdentifier)

namespace RemoteParam

variable {param : RemoteParam}

/-- The type in which a parameter is kept declares names as the type of the parameter does with
another shape that has the same dimensions. A pointer to a function may lose its only star, which
makes no difference where a name is declared with it. -/
theorem exists_shape (param : RemoteParam) : ∃ shape : Shape,
    (∀ name, param.storageType.declare name = (param.type.withShape shape).declare name) ∧
      shape.dimensions = param.type.shape.dimensions ∧
      (param.type.isFunctionPointer = true → param.type.shape.IsPointer → shape.IsPointer) := by
  obtain ⟨name, type, direction, isString⟩ := param
  unfold storageType
  dsimp only
  split
  · cases type with
    | base b shape =>
      exact ⟨{ shape with pointers := shape.pointers - 1, isConst := false }, fun _ => rfl, rfl, nofun⟩
    | function result params variadic outer =>
      refine ⟨{ outer with pointers := max (outer.pointers - 1) 1, isConst := false },
        fun name => ?_, rfl, fun _ houter => ⟨rfl, houter.notVolatile, ?_⟩⟩
      · simp [CType.withShape, CType.shape, CType.declare, CType.baseSpelling, Shape.qualifiers,
          Shape.brackets]
      · exact Nat.lt_of_lt_of_le Nat.one_pos (Nat.le_max_right _ _)
  · exact ⟨type.shape, fun _ => by rw [CType.withShape_shape], rfl, fun _ h => h⟩

/-- A parameter is kept in a printable type if it has one. -/
theorem exists_storage (h : param.type.Printable) : ∃ type : CType, type.Printable ∧
    ∀ name, param.storageType.declare name = type.declare name := by
  obtain ⟨shape, hdeclare, hdimensions, hpointer⟩ := exists_shape param
  exact ⟨_, h.withShape hdimensions hpointer, hdeclare⟩

/-- A name is declared with the type in which a parameter is kept. -/
theorem storage_isCode (h : param.type.Printable) {name : String}
    (hname : isIdentifier name = true) : IsCode (param.storageType.declare name) := by
  obtain ⟨type, htype, hdeclare⟩ := exists_storage h
  rw [hdeclare]
  exact .declaration htype hname

/-- The names of the encoders and decoders are words. -/
theorem isIdentifier_wire (wire : Wire) : isIdentifier ("ser_encode_" ++ wire.text) = true ∧
    isIdentifier ("ser_decode_" ++ wire.text) = true := by
  cases wire <;> decide

/-- A member of the result structure begins with a word. -/
theorem beginsWord_member (name : String) : BeginsWord ("_res." ++ name).toList := by
  rw [String.toList_append]
  exact .append (by decide) _

section

variable (hname : isIdentifier param.name = true)
include hname

theorem value_isCode : IsCode param.value := by
  unfold value
  split
  · exact .pointee hname
  · exact .word hname

theorem operands_isCode : IsCode param.operands := by
  unfold operands
  split
  · have htext : param.name ++ ", sizeof(" ++ param.value ++ ")" =
        ", ".intercalate [param.name, "sizeof" ++ "(" ++ param.value ++ ")"] := by
      rw [← String.toList_inj]
      simp [String.intercalate_cons_cons]
    rw [htext]
    exact .intercalate (.pair (.word hname) (.call (by decide) (value_isCode hname)))
  · exact value_isCode hname

theorem encodeLine_isCode : IsCode param.encodeLine := by
  have htext : param.encodeLine = RemoteFunction.callText ("ser_encode_" ++ param.wire.text)
      ["&" ++ ("_ctx" ++ "." ++ "encoder"), param.operands] := by
    rw [encodeLine_eq, ← String.toList_inj]
    simp [RemoteFunction.callText, String.intercalate_cons_cons]
  rw [htext]
  refine .callText (isIdentifier_wire _).1 (.pair ?_ (operands_isCode hname))
  exact .address (.member (by decide) (by decide)) (by decide)

theorem decodeLine_isCode : IsCode param.decodeLine := by
  have htext : param.decodeLine = RemoteFunction.callText ("ser_decode_" ++ param.wire.text)
      ["_dec", "&" ++ param.name] := by
    rw [← String.toList_inj]
    simp [decodeLine, RemoteFunction.callText, String.intercalate_cons_cons]
  rw [htext]
  refine .callText (isIdentifier_wire _).2 (.pair (.word (by decide)) ?_)
  exact .address (.word hname) (beginsWord_of_isIdentifier hname)

theorem argument_isCode : IsCode param.argument := by
  have hplace : IsCode ((if param.direction = .output then "_res." else "") ++ param.name) ∧
      BeginsWord ((if param.direction = .output then "_res." else "") ++ param.name).toList := by
    split
    · exact ⟨.answer hname, beginsWord_member _⟩
    · rw [String.empty_append]
      exact ⟨.word hname, beginsWord_of_isIdentifier hname⟩
  unfold argument
  rw [String.append_assoc]
  split
  · exact .address hplace.1 hplace.2
  · rw [String.empty_append]
    exact hplace.1

end

end RemoteParam

/-- A remote function whose names are words, and whose parameters are declared by code, with their
own types and with those in which they are kept. -/
structure RemoteFunction.Declarable (remote : RemoteFunction) : Prop where
  function : isIdentifier remote.names.function = true
  response : isIdentifier remote.names.response = true
  result : isIdentifier remote.names.result = true
  paramNames : ∀ param ∈ remote.params, isIdentifier param.name = true
  declared : ∀ param ∈ remote.params, ∀ name, isIdentifier name = true →
    IsCode (param.type.declare name)
  stored : ∀ param ∈ remote.params, ∀ name, isIdentifier name = true →
    IsCode (param.storageType.declare name)

namespace RemoteFunction.Declarable

variable {remote : RemoteFunction} {param : RemoteParam}

theorem isIdentifier_resultName : isIdentifier resultName = true := by decide

/-- An object of a structure type is declared. -/
theorem object_isCode {tag name : String} (htag : isIdentifier tag = true)
    (hname : isIdentifier name = true) : IsCode ("struct " ++ tag ++ " " ++ name ++ ";") := by
  have htext : "struct " ++ tag ++ " " ++ name ++ ";" =
      " ".intercalate ["struct", tag, name] ++ ";" := by
    rw [← String.toList_inj]
    simp [String.intercalate_cons_cons]
  rw [htext]
  exact .semicolon (.words (List.cons_ne_nil _ _) (List.forall_mem_cons.mpr
    ⟨by decide, List.forall_mem_cons.mpr ⟨htag, List.forall_mem_singleton.mpr hname⟩⟩))

/-- The line that returns the value is code whatever the parameters are. -/
theorem clientReturn_isCode (remote : RemoteFunction) :
    ∀ line ∈ remote.clientReturn, IsCode line := by
  have hreturn : ∀ {value : String}, IsCode value → BeginsWord value.toList →
      IsCode ("return" ++ " " ++ value ++ ";") := fun hvalue hword =>
    (IsCode.join joins_space (.word (by decide)) hvalue hword).semicolon
  intro line hline
  unfold clientReturn at hline
  split at hline
  · split at hline
    · rw [List.mem_singleton.mp hline]
      exact hreturn (.answer isIdentifier_resultName) (by decide)
    · rw [List.mem_singleton.mp hline]
      exact hreturn (.word isIdentifier_resultName) (by decide)
  · cases hline

section

variable (h : remote.Declarable)
include h

theorem mem_outputs (hparam : param ∈ remote.outputs) : isIdentifier param.name = true :=
  h.paramNames param (List.mem_of_mem_filter hparam)

theorem answer_isCode : IsCode ("struct " ++ remote.names.result ++ " _res;") := by
  have htext : "struct " ++ remote.names.result ++ " _res;" =
      "struct " ++ remote.names.result ++ " " ++ "_res" ++ ";" := by
    rw [← String.toList_inj]
    simp
  rw [htext]
  exact object_isCode h.result (by decide)

theorem clientLocals_isCode : ∀ line ∈ remote.clientLocals, IsCode line := by
  intro line hline
  rcases List.mem_append.mp hline with hline | hline
  · rw [List.mem_singleton.mp hline]
    exact object_isCode (by decide : isIdentifier "rpc_encoder" = true)
      (by decide : isIdentifier "_ctx" = true)
  split at hline
  · rcases List.mem_pair.mp hline with rfl | rfl
    · exact object_isCode (by decide : isIdentifier "rpc_decoder" = true)
        (by decide : isIdentifier "_rsp" = true)
    · exact h.answer_isCode
  split at hline
  · next param hreturned =>
    have hdeclared := h.declared param (List.mem_of_find?_eq_some hreturned) resultName
      isIdentifier_resultName
    have htext : param.type.declare resultName ++ " = \x7b0\x7d;" =
        param.type.declare resultName ++ " = \x7b0\x7d" ++ ";" := by
      rw [String.append_assoc]
      rfl
    rw [List.mem_singleton.mp hline, htext]
    exact hdeclared.initialized.semicolon
  · cases hline

theorem clientEncode_isCode : ∀ line ∈ remote.clientEncode, IsCode line := by
  intro line hline
  obtain ⟨param, hparam, rfl⟩ := List.mem_map.mp hline
  have hinput : param ∈ remote.inputs := List.mem_of_mem_filter hparam
  exact RemoteParam.encodeLine_isCode (h.paramNames param (List.mem_of_mem_filter hinput))

theorem clientSend_isCode : ∀ line ∈ remote.clientSend, IsCode line := by
  intro line hline
  have hcontext : IsCode ("&" ++ "_ctx") := .address (.word (by decide)) (by decide)
  have hresponse : IsCode ("&" ++ "_rsp") := .address (.word (by decide)) (by decide)
  have hname : IsCode ("\"" ++ remote.names.function ++ "\"") := .literal h.function
  unfold clientSend at hline
  dsimp only at hline
  split at hline
  · have htext : line = callText "nrf_rpc_event_send"
        ["&" ++ "_ctx", "\"" ++ remote.names.function ++ "\""] := by
      rw [List.mem_singleton.mp hline, ← String.toList_inj]
      simp [callText, String.intercalate_cons_cons]
    rw [htext]
    exact .callText (by decide) (.pair hcontext hname)
  · have hanswer : IsCode (if remote.inlineResponse then "&_rsp"
        else if remote.hasResponse then remote.names.response else "NULL") := by
      split
      · exact hresponse
      split
      · exact .word h.response
      · exact .word (by decide)
    have htext : line = callText "nrf_rpc_cmd_send"
        ["&" ++ "_ctx", "\"" ++ remote.names.function ++ "\"", if remote.inlineResponse then "&_rsp"
          else if remote.hasResponse then remote.names.response else "NULL"] := by
      rw [List.mem_singleton.mp hline, ← String.toList_inj]
      simp [callText, String.intercalate_cons_cons]
    rw [htext]
    exact .callText (by decide) (List.forall_mem_cons.mpr ⟨hcontext, .pair hname hanswer⟩)

theorem clientDecode_isCode : ∀ line ∈ remote.clientDecode, IsCode line := by
  intro line hline
  unfold clientDecode at hline
  split at hline
  · rcases List.mem_append.mp hline with hline | hline
    · obtain ⟨param, hparam, rfl⟩ := List.mem_map.mp hline
      have hname := h.mem_outputs hparam
      have htext : "ser_decode_" ++ param.wire.text ++ "(&_rsp, &_res." ++ param.name ++ ");" =
          callText ("ser_decode_" ++ param.wire.text)
            ["&" ++ "_rsp", "&" ++ ("_res." ++ param.name)] := by
        rw [← String.toList_inj]
        simp [callText, String.intercalate_cons_cons]
      rw [htext]
      refine .callText (RemoteParam.isIdentifier_wire _).2 (.pair ?_ ?_)
      · exact .address (.word (by decide)) (by decide)
      · exact .address (.answer hname) (RemoteParam.beginsWord_member _)
    · obtain ⟨param, hparam, rfl⟩ := List.mem_map.mp hline
      have hname := h.mem_outputs (List.mem_of_mem_filter hparam)
      have htext : param.value ++ " = _res." ++ param.name ++ ";" =
          param.value ++ " = " ++ ("_res." ++ param.name) ++ ";" := by
        rw [← String.toList_inj]
        simp
      rw [htext]
      exact .assignment (RemoteParam.value_isCode hname) (.answer hname)
        (RemoteParam.beginsWord_member _)
  · cases hline

theorem handlerLocals_isCode : ∀ line ∈ remote.handlerLocals, IsCode line := by
  intro line hline
  rcases List.mem_append.mp hline with hline | hline
  · split at hline
    · rw [List.mem_singleton.mp hline]
      exact h.answer_isCode
    · cases hline
  · obtain ⟨param, hparam, rfl⟩ := List.mem_map.mp hline
    have hmem := List.mem_of_mem_filter hparam
    exact (h.stored param hmem _ (h.paramNames param hmem)).semicolon

theorem handlerDecode_isCode : ∀ line ∈ remote.handlerDecode, IsCode line := by
  intro line hline
  obtain ⟨param, hparam, rfl⟩ := List.mem_map.mp hline
  exact RemoteParam.decodeLine_isCode (h.paramNames param (List.mem_of_mem_filter hparam))

theorem handlerExecute_isCode : ∀ line ∈ remote.handlerExecute, IsCode line := by
  intro line hline
  rw [handlerExecute_eq] at hline
  have harguments : ∀ argument ∈ (remote.params.filter (·.name ≠ resultName)).map (·.argument),
      IsCode argument := by
    intro argument hargument
    obtain ⟨param, hparam, rfl⟩ := List.mem_map.mp hargument
    exact RemoteParam.argument_isCode (h.paramNames param (List.mem_of_mem_filter hparam))
  have hcall := IsCode.callText h.function harguments
  rw [List.mem_singleton.mp hline]
  unfold callTarget
  split
  · refine (IsCode.answer isIdentifier_resultName).join joins_equals hcall ?_
    rw [callText, String.append_assoc, String.append_assoc, String.toList_append]
    exact (beginsWord_of_isIdentifier h.function).append _
  · rw [String.empty_append]
    exact hcall

theorem handlerResponse_isCode : ∀ line ∈ remote.handlerResponse, IsCode line := by
  intro line hline
  unfold handlerResponse at hline
  split at hline
  · cases hline
  split at hline
  · rcases List.mem_append.mp hline with hline | hline
    · obtain ⟨param, hparam, rfl⟩ := List.mem_map.mp hline
      have hname := h.paramNames param (List.mem_of_mem_filter hparam)
      exact .assignment (.answer hname) (.word hname) (beginsWord_of_isIdentifier hname)
    · rw [List.mem_singleton.mp hline]
      have hanswer : IsCode "_res" := .word (by decide)
      exact .callText (by decide : isIdentifier "nrf_rpc_rsp_send" = true)
        (.pair (.address hanswer (by decide))
          (.call (by decide : isIdentifier "sizeof" = true) hanswer))
  · have htext : line = callText "nrf_rpc_rsp_send_void" [] := List.mem_singleton.mp hline
    rw [htext]
    exact .callText (by decide) fun argument hargument => absurd hargument List.not_mem_nil

/-- All lines of a block in the client function are code. -/
theorem clientBlock_isCode {block : Block} {lines : List String}
    (hlines : remote.clientBlock? block = some lines) : ∀ line ∈ lines, IsCode line := by
  cases block <;> cases hlines
  · exact h.clientLocals_isCode
  · exact h.clientEncode_isCode
  · exact h.clientSend_isCode
  · exact h.clientDecode_isCode
  · exact clientReturn_isCode remote

/-- All lines of a block in the handler are code. -/
theorem handlerBlock_isCode {block : Block} {lines : List String}
    (hlines : remote.handlerBlock? block = some lines) : ∀ line ∈ lines, IsCode line := by
  cases block <;> cases hlines
  · exact h.handlerLocals_isCode
  · exact h.handlerDecode_isCode
  · exact h.handlerExecute_isCode
  · exact h.handlerResponse_isCode

end

end RemoteFunction.Declarable

/-- A remote function all of whose names are plain and all of whose types are printable. -/
structure RemoteFunction.Printable (remote : RemoteFunction) : Prop where
  function : IsPlainName remote.names.function
  handler : IsPlainName remote.names.handler
  response : IsPlainName remote.names.response
  result : IsPlainName remote.names.result
  paramNames : ∀ param ∈ remote.params, IsPlainName param.name
  paramTypes : ∀ param ∈ remote.params, param.type.Printable

theorem RemoteFunction.Printable.declarable {remote : RemoteFunction} (h : remote.Printable) :
    remote.Declarable where
  function := h.function.word
  response := h.response.word
  result := h.result.word
  paramNames := fun param hparam => (h.paramNames param hparam).word
  declared := fun param hparam _ hname => .declaration (h.paramTypes param hparam) hname
  stored := fun param hparam _ hname => RemoteParam.storage_isCode (h.paramTypes param hparam) hname

end RemoteCalls
