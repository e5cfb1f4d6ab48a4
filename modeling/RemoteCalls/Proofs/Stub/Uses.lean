import RemoteCalls.Proofs.Stub.Marshalling
import RemoteCalls.Proofs.Stub.References

/-!
# What stubs refer to

The bodies of a stub declare the names `_res`, `_rsp` and `_result` for their own use. Apart from
them a body refers to the function, its parameters and names of the library, so that for each
section it is known which of these names it refers to, and under which condition.
-/

namespace RemoteCalls

open Stub

/-- The names that stubs declare for their own use. -/
def helperNames : List String := ["_res", "_rsp", resultName]

/-- A reference to something else than a name that stubs declare for themselves. -/
def Neutral (reference : String) : Prop := subject reference ∉ helperNames

instance (reference : String) : Decidable (Neutral reference) :=
  inferInstanceAs (Decidable (subject reference ∉ helperNames))

/-- The names of a function and its parameters are words, and their declarations do not use a name
that stubs declare for themselves. -/
structure Function.AvoidsHelpers (f : Function) : Prop where
  word : IsWord f.name
  result : ∀ helper ∈ helperNames, ¬ Uses (f.result.declare f.name) helper
  params : ∀ param ∈ f.params.params, ∀ name, param.name = some name →
    IsWord name ∧ ∀ helper ∈ helperNames, ¬ Uses (param.type.declare name) helper

namespace RemoteFunction

/-- The sections of the client function with all blocks. -/
def clientSections (remote : RemoteFunction) : List (List String) :=
  Block.all.filterMap remote.clientBlock?

/-- The sections of the handler with all blocks. -/
def handlerSections (remote : RemoteFunction) : List (List String) :=
  Block.all.filterMap remote.handlerBlock?

/-- The helper names that the locals of a client function declare. -/
inductive ClientLocal (remote : RemoteFunction) : String → Prop where
  | response (h : remote.readsResponse = true) : ClientLocal remote "_rsp"
  | answer (h : remote.readsResponse = true) : ClientLocal remote "_res"
  | result (h : remote.readsResponse = false) (hreturned : remote.returned?.isSome = true) :
    ClientLocal remote resultName

/-- What a client function refers to besides neutral names. The response is handed over whether
there is an answer or not. -/
inductive ClientUse (remote : RemoteFunction) : String → Prop where
  | local {name : String} (h : ClientLocal remote name) : ClientUse remote name
  | response (hinline : remote.inlineResponse = true) : ClientUse remote "_rsp"
  | member (h : remote.readsResponse = true) (param : RemoteParam)
    (hparam : param ∈ remote.outputs) : ClientUse remote ("_res." ++ param.name)

/-- What a handler refers to besides neutral names. A member is used by the call too, whether there
is an answer or not. -/
inductive HandlerUse (remote : RemoteFunction) : String → Prop where
  | answer (h : remote.hasResponse = true) : HandlerUse remote "_res"
  | member (param : RemoteParam) (hparam : param ∈ remote.outputs)
    (h : remote.hasResponse = true ∨ param.direction = .output ∧ param.name ≠ resultName) :
    HandlerUse remote ("_res." ++ param.name)

theorem hasResponse_of_readsResponse {remote : RemoteFunction} (h : remote.readsResponse = true) :
    remote.inlineResponse = true ∧ remote.hasResponse = true := by
  simpa [readsResponse] using h

end RemoteFunction

/-! ## Lines for one parameter -/

namespace RemoteParam

variable {param : RemoteParam}

theorem references_value (h : IsWord param.name) : references param.value = [param.name] := by
  unfold value
  split
  · rw [references_between (by decide) (by decide), references_of_word h]
    rfl
  · exact references_of_word h

theorem references_operands (h : IsWord param.name) :
    references param.operands ⊆ ["sizeof", param.name] := by
  unfold operands
  split
  · have hfront : references (param.name ++ ", sizeof(") = [param.name, "sizeof"] := by
      rw [references_append_of_beginsApart _ (by decide), references_of_word h]
      rfl
    have hend : references ")" = [] := rfl
    rw [references_between (endsApart_append (by decide) (by decide) _) (by decide), hfront, hend,
      references_value h]
    simp
  · rw [references_value h]
    simp

theorem references_encodeLine (h : IsWord param.name) :
    references param.encodeLine ⊆
      ["ser_encode_" ++ param.wire.text, "_ctx.encoder", "sizeof", param.name] := by
  have hfront : references ("ser_encode_" ++ param.wire.text ++ "(&_ctx.encoder, ") =
      ["ser_encode_" ++ param.wire.text, "_ctx.encoder"] := by
    cases param.wire <;> rfl
  have hend : references ");" = [] := rfl
  rw [encodeLine_eq, references_between (endsApart_append (by decide) (by decide) _) (by decide),
    hfront, hend, List.append_nil]
  exact List.append_subset.mpr
    ⟨by simp, List.Subset.trans (references_operands h) (by simp)⟩

theorem references_decodeLine (h : IsWord param.name) :
    references param.decodeLine = ["ser_decode_" ++ param.wire.text, "_dec", param.name] := by
  unfold decodeLine
  cases param.wire <;>
    rw [references_between (by decide) (by decide), references_of_word h] <;> rfl

/-- The line that reads a parameter from the answer. -/
theorem references_answerLine (h : IsWord param.name) :
    references ("ser_decode_" ++ param.wire.text ++ "(&_rsp, &_res." ++ param.name ++ ");") =
      ["ser_decode_" ++ param.wire.text, "_rsp", "_res." ++ param.name] := by
  have hmember : references ("_res" ++ "." ++ param.name) = ["_res" ++ "." ++ param.name] :=
    references_member (by decide) h
  have hopening : "(&_rsp, &_res." = "(&_rsp, &" ++ ("_res" ++ ".") := rfl
  have hline : "ser_decode_" ++ param.wire.text ++ "(&_rsp, &_res." ++ param.name ++ ");" =
      "ser_decode_" ++ param.wire.text ++ "(&_rsp, &" ++ ("_res" ++ "." ++ param.name) ++ ");" := by
    rw [hopening]
    simp only [String.append_assoc]
  rw [hline, references_between (endsApart_append (by decide) (by decide) _) (by decide), hmember]
  cases param.wire <;> rfl

/-- The line that hands an output on to the caller. -/
theorem references_handLine (h : IsWord param.name) :
    references (param.value ++ " = _res." ++ param.name ++ ";") =
      [param.name, "_res." ++ param.name] := by
  have hmember : references ("_res" ++ "." ++ param.name) = ["_res" ++ "." ++ param.name] :=
    references_member (by decide) h
  have hequals : " = _res." = " = " ++ ("_res" ++ ".") := rfl
  have hline : param.value ++ " = _res." ++ param.name ++ ";" =
      param.value ++ " = " ++ ("_res" ++ "." ++ param.name) ++ ";" := by
    rw [hequals]
    simp only [String.append_assoc]
  rw [hline, references_between (endsApart_append (by decide) (by decide) _) (by decide), hmember,
    references_append_of_beginsApart _ (by decide), references_value h]
  rfl

/-- The line that puts a parameter into the answer. -/
theorem references_storeLine (h : IsWord param.name) :
    references ("_res." ++ param.name ++ " = " ++ param.name ++ ";") =
      ["_res." ++ param.name, param.name] := by
  have hmember : references ("_res" ++ "." ++ param.name) = ["_res" ++ "." ++ param.name] :=
    references_member (by decide) h
  have hanswer : "_res." = "_res" ++ "." := rfl
  rw [hanswer, references_between (endsApart_append (by decide) (by decide) _) (by decide),
    references_append_of_beginsApart _ (by decide), hmember, references_of_word h]
  rfl

/-- The argument of a parameter: its name, or a member of the answer. -/
theorem references_argument (h : IsWord param.name) :
    references param.argument =
      [if param.direction = .output then "_res." ++ param.name else param.name] := by
  have hmember : references ("_res" ++ "." ++ param.name) = ["_res" ++ "." ++ param.name] :=
    references_member (by decide) h
  have hand : references "&" = [] := rfl
  have hempty : references "" = [] := rfl
  unfold argument
  rw [String.append_assoc, references_append_of_endsApart _ (by split <;> decide)]
  have hfront : references (if param.byAddress = true then "&" else "") = [] := by
    split
    · exact hand
    · exact hempty
  rw [hfront, List.nil_append]
  split
  · exact hmember
  · rw [String.empty_append]
    exact references_of_word h

end RemoteParam

/-! ## Names -/

theorem neutral_of_word {name : String} (h : IsWord name) (hname : name ∉ helperNames) :
    Neutral name := by
  rwa [Neutral, subject_of_word h]

theorem not_neutral_of_mem {name : String} (h : name ∈ helperNames) : ¬ Neutral name := by
  revert name
  decide

/-- A line that uses no helper name refers to neutral names only. -/
theorem neutral_of_not_uses {line : String} (h : ∀ helper ∈ helperNames, ¬ Uses line helper) :
    ∀ reference ∈ references line, Neutral reference :=
  fun reference hreference hhelper => h _ hhelper ⟨reference, hreference, rfl⟩

/-- A name with a back behind it. -/
theorem IsWord_append {name back : String} (h : IsWord name) (hback : IsWord back) :
    IsWord (name ++ back) := by
  refine ⟨?_, ?_⟩
  · intro hempty
    exact h.1 (String.append_eq_empty_iff.mp hempty).1
  · rw [String.toList_append, List.all_append, h.2, hback.2]
    rfl

/-- The names around a function are none that stubs declare for themselves, being too long. -/
theorem neutral_append {name back : String} (h : IsWord name) (hback : IsWord back)
    (hlength : 8 ≤ back.length) : Neutral (name ++ back) := by
  refine neutral_of_word (IsWord_append h hback) ?_
  intro hhelper
  have hshort : ∀ helper ∈ helperNames, helper.length ≤ 7 := by decide
  have hlong := hshort _ hhelper
  rw [String.length_append] at hlong
  omega

namespace RemoteFunction

namespace Parts

variable {f : Function} {remote : RemoteFunction} {declared returned : List RemoteParam}

theorem isWord_of_declared (h : Parts f remote declared returned) (havoids : f.AvoidsHelpers)
    {param : RemoteParam} (hparam : param ∈ declared) :
    IsWord param.name ∧ ∀ helper ∈ helperNames, ¬ Uses (param.type.declare param.name) helper := by
  have horigin : (⟨some param.name, param.type⟩ : Param) ∈ f.params.params := by
    rw [h.declared.origins_eq]
    exact List.mem_map_of_mem hparam
  exact havoids.params _ horigin _ rfl

theorem neutral_of_declared (h : Parts f remote declared returned) (havoids : f.AvoidsHelpers)
    {param : RemoteParam} (hparam : param ∈ declared) : Neutral param.name := by
  obtain ⟨hword, huses⟩ := h.isWord_of_declared havoids hparam
  refine neutral_of_not_uses huses _ ?_
  rw [CType.references_declare _ hword]
  simp

theorem isWord (h : Parts f remote declared returned) (havoids : f.AvoidsHelpers)
    {param : RemoteParam} (hparam : param ∈ remote.params) : IsWord param.name := by
  rcases h.mem_params hparam with hparam | ⟨-, rfl⟩
  · exact (h.isWord_of_declared havoids hparam).1
  · exact (by decide : IsWord resultName)

/-- No declared parameter is called like the returned value. -/
theorem name_ne_result (h : Parts f remote declared returned) (havoids : f.AvoidsHelpers)
    {param : RemoteParam} (hparam : param ∈ declared) : param.name ≠ resultName := by
  intro hname
  refine not_neutral_of_mem ?_ (h.neutral_of_declared havoids hparam)
  rw [hname]
  decide

theorem declared_of_name_ne (h : Parts f remote declared returned) {param : RemoteParam}
    (hparam : param ∈ remote.params) (hname : param.name ≠ resultName) : param ∈ declared := by
  rcases h.mem_params hparam with hparam | ⟨-, rfl⟩
  · exact hparam
  · exact absurd rfl hname

/-- The parameter that carries the returned value is the one behind the declared ones. -/
theorem returned?_eq_some (h : Parts f remote declared returned) (havoids : f.AvoidsHelpers)
    {param : RemoteParam} (hparam : remote.returned? = some param) :
    param = ⟨resultName, f.result, .output, false⟩ ∧ param ∈ remote.outputs := by
  have hmem : param ∈ remote.params := List.mem_of_find?_eq_some hparam
  have hname : param.name = resultName := by
    simpa using List.find?_some hparam
  rcases h.mem_params hmem with hdeclared | ⟨-, heq⟩
  · exact absurd hname (h.name_ne_result havoids hdeclared)
  · refine ⟨heq, List.mem_filter.mpr ⟨hmem, ?_⟩⟩
    rw [heq]
    rfl

end Parts

/-! ## Sections -/

/-- Some lines refer to nothing but neutral names and what is allowed. -/
def RefersOnly (allowed : String → Prop) (lines : List String) : Prop :=
  ∀ line ∈ lines, ∀ reference ∈ references line, Neutral reference ∨ allowed reference

namespace RefersOnly

variable {allowed : String → Prop}

theorem nil : RefersOnly allowed [] := by
  intro line hline
  cases hline

theorem append {lines more : List String} (h : RefersOnly allowed lines)
    (hmore : RefersOnly allowed more) : RefersOnly allowed (lines ++ more) := by
  intro line hline
  rcases List.mem_append.mp hline with hline | hline
  · exact h line hline
  · exact hmore line hline

theorem cons {line : String} {lines : List String}
    (h : ∀ reference ∈ references line, Neutral reference ∨ allowed reference)
    (hlines : RefersOnly allowed lines) : RefersOnly allowed (line :: lines) := by
  intro other hother
  rcases List.mem_cons.mp hother with rfl | hother
  · exact h
  · exact hlines other hother

theorem singleton {line : String}
    (h : ∀ reference ∈ references line, Neutral reference ∨ allowed reference) :
    RefersOnly allowed [line] :=
  cons h nil

theorem mono {more : String → Prop} {lines : List String} (h : RefersOnly allowed lines)
    (hmore : ∀ reference, allowed reference → more reference) : RefersOnly more lines :=
  fun line hline reference hreference => (h line hline reference hreference).imp_right (hmore _)

theorem singleton_neutral {line : String} (h : ∀ reference ∈ references line, Neutral reference) :
    RefersOnly allowed [line] :=
  singleton fun reference hreference => .inl (h reference hreference)

theorem map {params : List RemoteParam} {text : RemoteParam → String}
    (h : ∀ param ∈ params, ∀ reference ∈ references (text param),
      Neutral reference ∨ allowed reference) : RefersOnly allowed (params.map text) := by
  intro line hline
  obtain ⟨param, hparam, rfl⟩ := List.mem_map.mp hline
  exact h param hparam

end RefersOnly

section Sections

variable {f : Function} {remote : RemoteFunction} {declared returned : List RemoteParam}
  (h : Parts f remote declared returned) (havoids : f.AvoidsHelpers)

include h havoids

/-- The line that declares the answer refers to the answer. -/
theorem refersOnly_answer {allowed : String → Prop} (hanswer : allowed "_res") :
    RefersOnly allowed ["struct " ++ remote.names.result ++ " _res;"] := by
  have hback : IsWord resultBack := by decide
  have hname : remote.names.result = f.name ++ resultBack := by rw [h.names]; rfl
  have hneutral : Neutral (f.name ++ resultBack) :=
    neutral_append havoids.word hback (by decide)
  have hline : references ("struct " ++ remote.names.result ++ " _res;") =
      ["struct", f.name ++ resultBack, "_res"] := by
    rw [hname, references_between (by decide) (by decide),
      references_of_word (IsWord_append havoids.word hback)]
    rfl
  refine .singleton fun reference hreference => ?_
  rw [hline] at hreference
  simp only [List.mem_cons, List.not_mem_nil, or_false] at hreference
  rcases hreference with rfl | rfl | rfl
  · exact .inl (by decide)
  · exact .inl hneutral
  · exact .inr hanswer

omit h in
/-- The line that declares the returned value refers to it. -/
theorem references_resultDeclaration :
    ∀ reference ∈ references (f.result.declare resultName ++ " = \x7b0\x7d;"),
      Neutral reference ∨ reference = resultName := by
  have hend : references " = \x7b0\x7d;" = ["0"] := rfl
  have hresult := neutral_of_not_uses havoids.result
  intro reference hreference
  rw [references_append_of_beginsApart _ (by decide), hend,
    CType.references_declare _ (by decide)] at hreference
  rw [CType.references_declare _ havoids.word] at hresult
  simp only [List.mem_append, List.mem_cons, List.not_mem_nil, or_false] at hreference hresult
  rcases hreference with ((hreference | hreference) | rfl | hreference) | rfl
  · exact .inl (hresult _ (.inl (.inl hreference)))
  · exact .inl (hresult _ (.inl (.inr hreference)))
  · exact .inr rfl
  · exact .inl (hresult _ (.inr (.inr hreference)))
  · exact .inl (by decide)

theorem neutral_of_input {param : RemoteParam} (hparam : param ∈ remote.inputs) :
    IsWord param.name ∧ Neutral param.name := by
  rw [h.inputs] at hparam
  have hdeclared := (List.mem_filter.mp hparam).1
  exact ⟨(h.isWord_of_declared havoids hdeclared).1, h.neutral_of_declared havoids hdeclared⟩

omit h in
theorem neutral_function : Neutral f.name := by
  refine neutral_of_not_uses havoids.result _ ?_
  rw [CType.references_declare _ havoids.word]
  simp

theorem clientLocals_refersOnly : RefersOnly (ClientLocal remote) remote.clientLocals := by
  unfold clientLocals
  refine .append (.singleton_neutral (by decide)) ?_
  split
  · next hreads =>
    have hdecoder : ∀ reference ∈ references "struct rpc_decoder _rsp;",
        Neutral reference ∨ reference = "_rsp" := by decide
    refine .cons ?_ (refersOnly_answer h havoids (.answer hreads))
    intro reference hreference
    rcases hdecoder reference hreference with hneutral | rfl
    · exact .inl hneutral
    · exact .inr (.response hreads)
  · next hreads =>
    split
    · next param hparam =>
      obtain ⟨rfl, -⟩ := h.returned?_eq_some havoids hparam
      refine .singleton fun reference hreference => ?_
      rcases references_resultDeclaration havoids reference hreference with hneutral | rfl
      · exact .inl hneutral
      · exact .inr (.result (by simpa using hreads) (by rw [hparam]; rfl))
    · exact .nil

theorem clientEncode_refersOnly : RefersOnly (ClientUse remote) remote.clientEncode := by
  refine .map fun param hparam reference hreference => .inl ?_
  obtain ⟨hword, hneutral⟩ := neutral_of_input h havoids (List.mem_filter.mp hparam).1
  have hverb : Neutral ("ser_encode_" ++ param.wire.text) := by
    cases param.wire <;> decide
  have hmem := param.references_encodeLine hword hreference
  simp only [List.mem_cons, List.not_mem_nil, or_false] at hmem
  rcases hmem with rfl | rfl | rfl | rfl
  · exact hverb
  · decide
  · decide
  · exact hneutral

theorem clientSend_refersOnly : RefersOnly (ClientUse remote) remote.clientSend := by
  have hname : remote.names.function = f.name := by rw [h.names]; rfl
  have hquoted : references ("\"" ++ f.name ++ "\"") = [f.name] := by
    rw [references_between (by decide) (by decide), references_of_word havoids.word]
    rfl
  have hneutral := neutral_function havoids
  unfold clientSend
  rw [hname]
  dsimp only
  split
  · refine .singleton_neutral fun reference hreference => ?_
    have hfront : references "nrf_rpc_event_send(&_ctx, " = ["nrf_rpc_event_send", "_ctx"] := rfl
    have hend : references ");" = [] := rfl
    rw [references_between (by decide) (by decide), hquoted, hfront, hend] at hreference
    simp only [List.cons_append, List.nil_append, List.append_nil, List.mem_cons, List.not_mem_nil,
      or_false] at hreference
    rcases hreference with rfl | rfl | rfl
    · decide
    · decide
    · exact hneutral
  · have hfront : references ("nrf_rpc_cmd_send(&_ctx, " ++ ("\"" ++ f.name ++ "\"") ++ ", ") =
        ["nrf_rpc_cmd_send", "_ctx", f.name] := by
      rw [references_between (by decide) (by decide), hquoted]
      rfl
    have hend : references ");" = [] := rfl
    refine .singleton fun reference hreference => ?_
    rw [references_between (endsApart_append (by decide) (by decide) _) (by decide), hfront,
      hend] at hreference
    simp only [List.cons_append, List.nil_append, List.append_nil, List.mem_cons] at hreference
    rcases hreference with rfl | rfl | rfl | hreference
    · exact .inl (by decide)
    · exact .inl (by decide)
    · exact .inl hneutral
    · split at hreference
      · next hinline =>
        obtain rfl : reference = "_rsp" := List.mem_singleton.mp hreference
        exact .inr (.response hinline)
      · split at hreference
        · have hresponse : remote.names.response = f.name ++ responseBack := by rw [h.names]; rfl
          have hback : IsWord responseBack := by decide
          rw [hresponse, references_of_word (IsWord_append havoids.word hback)] at hreference
          rw [List.mem_singleton.mp hreference]
          exact .inl (neutral_append havoids.word hback (by decide))
        · obtain rfl : reference = "NULL" := List.mem_singleton.mp hreference
          exact .inl (by decide)

theorem clientDecode_refersOnly : RefersOnly (ClientUse remote) remote.clientDecode := by
  unfold clientDecode
  split
  · next hreads =>
    refine .append (.map ?_) (.map ?_)
    · intro param hparam reference hreference
      have hword := h.isWord havoids (List.mem_filter.mp hparam).1
      have hverb : Neutral ("ser_decode_" ++ param.wire.text) := by
        cases param.wire <;> decide
      rw [param.references_answerLine hword] at hreference
      simp only [List.mem_cons, List.not_mem_nil, or_false] at hreference
      rcases hreference with rfl | rfl | rfl
      · exact .inl hverb
      · exact .inr (.local (.response hreads))
      · exact .inr (.member hreads param hparam)
    · intro param hparam reference hreference
      obtain ⟨houtput, hname⟩ := List.mem_filter.mp hparam
      have hmem := (List.mem_filter.mp houtput).1
      have hdeclared := h.declared_of_name_ne hmem (of_decide_eq_true hname)
      rw [param.references_handLine (h.isWord havoids hmem)] at hreference
      simp only [List.mem_cons, List.not_mem_nil, or_false] at hreference
      rcases hreference with rfl | rfl
      · exact .inl (h.neutral_of_declared havoids hdeclared)
      · exact .inr (.member hreads param houtput)
  · exact .nil

theorem clientReturn_refersOnly : RefersOnly (ClientUse remote) remote.clientReturn := by
  unfold clientReturn
  split
  · next param hparam =>
    obtain ⟨rfl, houtput⟩ := h.returned?_eq_some havoids hparam
    split
    · next hreads =>
      have hline : ∀ reference ∈ references ("return _res." ++ resultName ++ ";"),
          Neutral reference ∨ reference = "_res." ++ resultName := by decide
      refine .singleton fun reference hreference => ?_
      rcases hline reference hreference with hneutral | rfl
      · exact .inl hneutral
      · exact .inr (.member hreads _ houtput)
    · next hreads =>
      have hline : ∀ reference ∈ references ("return " ++ resultName ++ ";"),
          Neutral reference ∨ reference = resultName := by decide
      refine .singleton fun reference hreference => ?_
      rcases hline reference hreference with hneutral | rfl
      · exact .inl hneutral
      · exact .inr (.local (.result (by simpa using hreads) (by rw [hparam]; rfl)))
  · exact .nil

/-- A client function refers to neutral names and to the helper names of its uses. -/
theorem client_refersOnly :
    ∀ lines ∈ remote.clientSections, RefersOnly (ClientUse remote) lines := by
  have hsections : remote.clientSections = [remote.clientLocals, remote.clientEncode,
      remote.clientSend, remote.clientDecode, remote.clientReturn] := rfl
  intro lines hlines
  rw [hsections] at hlines
  simp only [List.mem_cons, List.not_mem_nil, or_false] at hlines
  rcases hlines with rfl | rfl | rfl | rfl | rfl
  · exact (clientLocals_refersOnly h havoids).mono fun _ => .local
  · exact clientEncode_refersOnly h havoids
  · exact clientSend_refersOnly h havoids
  · exact clientDecode_refersOnly h havoids
  · exact clientReturn_refersOnly h havoids

theorem handlerLocals_refersOnly :
    RefersOnly (fun name => name = "_res" ∧ remote.hasResponse = true) remote.handlerLocals := by
  unfold handlerLocals
  refine .append ?_ (.map ?_)
  · split
    · next hresponse => exact refersOnly_answer h havoids ⟨rfl, hresponse⟩
    · exact .nil
  · intro param hparam reference hreference
    obtain ⟨hmem, hdirection⟩ := List.mem_filter.mp hparam
    have hdeclared : param ∈ declared := by
      rcases h.mem_params hmem with hdeclared | ⟨-, rfl⟩
      · exact hdeclared
      · simp at hdirection
    obtain ⟨hword, huses⟩ := h.isWord_of_declared havoids hdeclared
    have hend : references ";" = [] := rfl
    rw [references_append_of_beginsApart _ (by decide), hend, List.append_nil] at hreference
    refine .inl (neutral_of_not_uses huses _ ?_)
    unfold RemoteParam.storageType at hreference
    dsimp only at hreference
    split at hreference
    · exact CType.mem_references_declare_withShape hword hreference
    · exact hreference

theorem handlerDecode_refersOnly : RefersOnly (HandlerUse remote) remote.handlerDecode := by
  refine .map fun param hparam reference hreference => .inl ?_
  obtain ⟨hword, hneutral⟩ := neutral_of_input h havoids hparam
  have hverb : Neutral ("ser_decode_" ++ param.wire.text) := by
    cases param.wire <;> decide
  rw [param.references_decodeLine hword] at hreference
  simp only [List.mem_cons, List.not_mem_nil, or_false] at hreference
  rcases hreference with rfl | rfl | rfl
  · exact hverb
  · decide
  · exact hneutral

/-- The references of the call: those of its target, the function, and the arguments. -/
theorem references_executeLine :
    ∃ line, remote.handlerExecute = [line] ∧ references line = references remote.callTarget ++
      f.name :: declared.flatMap fun param => references param.argument := by
  have hname : remote.names.function = f.name := by rw [h.names]; rfl
  have hmarshals := h.marshals_iff.mpr fun _ hparam => h.name_ne_result havoids hparam
  have hends : endsApart remote.callTarget = true := by
    unfold callTarget
    split <;> decide
  have hparen : references "(" = [] := rfl
  have hend : references ");" = [] := rfl
  refine ⟨_, hmarshals.execute, ?_⟩
  unfold callText
  rw [references_append_of_endsApart _ hends,
    references_between (endsApart_append (by decide) (by decide) _) (by decide), hend,
    references_append_of_beginsApart _ (by decide), hname, references_of_word havoids.word,
    hparen, references_intercalate, List.flatMap_map]
  simp

theorem callTarget_uses : ∀ reference ∈ references remote.callTarget,
    HandlerUse remote reference := by
  unfold callTarget
  intro reference hreference
  split at hreference
  · next hkind =>
    obtain ⟨hreturned, hresponse⟩ := Bool.and_eq_true_iff.mp hkind
    obtain ⟨param, hparam⟩ := Option.isSome_iff_exists.mp hreturned
    obtain ⟨rfl, houtput⟩ := h.returned?_eq_some havoids hparam
    have hline : references ("_res." ++ resultName ++ " = ") = ["_res." ++ resultName] := by
      decide
    rw [hline] at hreference
    rw [List.mem_singleton.mp hreference]
    exact .member _ houtput (.inl hresponse)
  · cases hreference

theorem handlerExecute_refersOnly : RefersOnly (HandlerUse remote) remote.handlerExecute := by
  obtain ⟨line, hexecute, hline⟩ := references_executeLine h havoids
  rw [hexecute]
  refine .singleton fun reference hreference => ?_
  rw [hline, List.mem_append, List.mem_cons, List.mem_flatMap] at hreference
  rcases hreference with hreference | rfl | ⟨param, hparam, hreference⟩
  · exact .inr (callTarget_uses h havoids reference hreference)
  · exact .inl (neutral_function havoids)
  · rw [param.references_argument (h.isWord_of_declared havoids hparam).1] at hreference
    rw [List.mem_singleton.mp hreference]
    split
    · next houtput =>
      have hmem : param ∈ remote.params := by
        rw [h.params]
        exact List.mem_append_left _ hparam
      refine .inr (.member param (List.mem_filter.mpr ⟨hmem, by rw [houtput]; rfl⟩) (.inr ?_))
      exact ⟨houtput, h.name_ne_result havoids hparam⟩
    · exact .inl (h.neutral_of_declared havoids hparam)

theorem handlerResponse_refersOnly : RefersOnly (HandlerUse remote) remote.handlerResponse := by
  unfold handlerResponse
  split
  · exact .nil
  · split
    · next hresponse =>
      refine .append (.map ?_) (.singleton ?_)
      · intro param hparam reference hreference
        obtain ⟨hmem, hdirection⟩ := List.mem_filter.mp hparam
        have hboth : param.direction = .both := of_decide_eq_true hdirection
        have hdeclared : param ∈ declared := by
          rcases h.mem_params hmem with hdeclared | ⟨-, rfl⟩
          · exact hdeclared
          · cases hboth
        have houtput : param ∈ remote.outputs :=
          List.mem_filter.mpr ⟨hmem, by rw [hboth]; rfl⟩
        rw [param.references_storeLine (h.isWord havoids hmem)] at hreference
        simp only [List.mem_cons, List.not_mem_nil, or_false] at hreference
        rcases hreference with rfl | rfl
        · exact .inr (.member param houtput (.inl hresponse))
        · exact .inl (h.neutral_of_declared havoids hdeclared)
      · have hline : ∀ reference ∈ references "nrf_rpc_rsp_send(&_res, sizeof(_res));",
            Neutral reference ∨ reference = "_res" := by decide
        intro reference hreference
        rcases hline reference hreference with hneutral | rfl
        · exact .inl hneutral
        · exact .inr (.answer hresponse)
    · exact .singleton_neutral (by decide)

/-- A handler refers to neutral names and to the helper names of its uses. -/
theorem handler_refersOnly :
    ∀ lines ∈ remote.handlerSections, RefersOnly (HandlerUse remote) lines := by
  have hsections : remote.handlerSections = [remote.handlerLocals, remote.handlerDecode,
      remote.handlerExecute, remote.handlerResponse] := rfl
  intro lines hlines
  rw [hsections] at hlines
  simp only [List.mem_cons, List.not_mem_nil, or_false] at hlines
  rcases hlines with rfl | rfl | rfl | rfl
  · refine (handlerLocals_refersOnly h havoids).mono ?_
    rintro _ ⟨rfl, hresponse⟩
    exact .answer hresponse
  · exact handlerDecode_refersOnly h havoids
  · exact handlerExecute_refersOnly h havoids
  · exact handlerResponse_refersOnly h havoids

end Sections

end RemoteFunction

end RemoteCalls
