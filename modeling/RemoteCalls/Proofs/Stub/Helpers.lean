import RemoteCalls.Proofs.Stub.Uses

/-!
# The names that stubs declare for themselves

The bodies of a stub keep the answer in `_res`, read it with `_rsp`, and hold the returned value in
`_result`. Every use of one of these names is declared in the same body, and every member of the
answer is a member of the result structure, unless an inline response is asked of a function that
has no answer, or an event has a parameter that only goes back.
-/

namespace RemoteCalls

open Stub

namespace RemoteFunction

/-- Some lines declare a name, with or without an initializer. -/
def Declares (lines : List String) (name : String) : Prop :=
  ∃ type : CType, type.declare name ++ ";" ∈ lines ∨ type.declare name ++ " = \x7b0\x7d;" ∈ lines

/-- The header defines the result structure with some lines as its members. -/
def HeaderDefines (indent : String) (remote : RemoteFunction) (members : List String) : Prop :=
  ∃ behind, remote.headerLines indent =
    ["struct " ++ remote.names.result ++ " \x7b"] ++ members.map (indent ++ ·) ++ ["\x7d;"] ++
      behind

/-- The bodies declare the names they use, and the result structure has the members they use. -/
structure SelfContained (indent : String) (remote : RemoteFunction) : Prop where
  client : ∀ lines ∈ remote.clientSections, ∀ line ∈ lines, ∀ helper ∈ helperNames,
    Uses line helper → Declares remote.clientLocals helper
  handler : ∀ lines ∈ remote.handlerSections, ∀ line ∈ lines, ∀ helper ∈ helperNames,
    Uses line helper → Declares remote.handlerLocals helper
  result : Declares remote.clientLocals "_res" ∨ Declares remote.handlerLocals "_res" →
    ∃ members, HeaderDefines indent remote members
  members : ∀ lines ∈ remote.clientSections ++ remote.handlerSections, ∀ line ∈ lines,
    ∀ member, "_res." ++ member ∈ references line →
      ∃ members, HeaderDefines indent remote members ∧ Declares members member

/-! ## Declarations -/

theorem uses_of_declares {lines : List String} {name : String} (h : Declares lines name)
    (hname : IsWord name) : ∃ line ∈ lines, name ∈ references line := by
  obtain ⟨type, hline | hline⟩ := h
  · refine ⟨_, hline, ?_⟩
    rw [references_append_of_beginsApart _ (by decide), CType.references_declare _ hname]
    simp
  · refine ⟨_, hline, ?_⟩
    rw [references_append_of_beginsApart _ (by decide), CType.references_declare _ hname]
    simp

/-- A local name of the helper kind is declared just if it is allowed. -/
theorem RefersOnly.allowed_of_declares {allowed : String → Prop} {lines : List String}
    (h : RefersOnly allowed lines) {helper : String} (hhelper : helper ∈ helperNames)
    (hdeclares : Declares lines helper) : allowed helper := by
  have hword : ∀ helper ∈ helperNames, IsWord helper := by decide
  obtain ⟨line, hline, hreference⟩ := uses_of_declares hdeclares (hword helper hhelper)
  exact (h line hline helper hreference).resolve_left (not_neutral_of_mem hhelper)

/-- A use of a helper name is an allowed one. -/
theorem RefersOnly.allowed_of_uses {allowed : String → Prop} {lines : List String}
    (h : RefersOnly allowed lines) {line helper : String} (hline : line ∈ lines)
    (hhelper : helper ∈ helperNames) (huses : Uses line helper) :
    ∃ reference, allowed reference ∧ subject reference = helper := by
  obtain ⟨reference, hreference, hsubject⟩ := huses
  refine ⟨reference, (h line hline reference hreference).resolve_left ?_, hsubject⟩
  rw [Neutral, hsubject]
  exact fun hneutral => hneutral hhelper

theorem declare_struct (tag name : String) :
    (CType.base (.struct tag) .plain).declare name = "struct " ++ tag ++ " " ++ name := by
  have hqualifiers : Shape.plain.qualifiers = "" := rfl
  have hstars : Shape.stars 0 = "" := rfl
  have hbrackets : Shape.plain.brackets = "" := rfl
  show Shape.plain.qualifiers ++ ("struct " ++ tag) ++ " " ++ Shape.stars 0 ++ name ++
    Shape.plain.brackets = _
  rw [hqualifiers, hstars, hbrackets, String.empty_append, String.append_empty, String.append_empty]

/-- The locals of a client function declare the helper names they are allowed to. -/
theorem ClientLocal.declares {remote : RemoteFunction} {name : String}
    (h : ClientLocal remote name) : Declares remote.clientLocals name := by
  unfold clientLocals
  cases h with
  | response hreads =>
    refine ⟨.base (.struct "rpc_decoder") .plain, .inl ?_⟩
    rw [declare_struct, if_pos hreads]
    simp
  | answer hreads =>
    refine ⟨.base (.struct remote.names.result) .plain, .inl ?_⟩
    rw [declare_struct, if_pos hreads]
    simp [String.append_assoc]
  | result hreads hreturned =>
    obtain ⟨param, hparam⟩ := Option.isSome_iff_exists.mp hreturned
    refine ⟨param.type, .inr ?_⟩
    rw [hparam, hreads]
    simp

theorem declares_handlerLocals {remote : RemoteFunction} (h : remote.hasResponse = true) :
    Declares remote.handlerLocals "_res" := by
  refine ⟨.base (.struct remote.names.result) .plain, .inl ?_⟩
  rw [declare_struct, handlerLocals, if_pos h]
  simp [String.append_assoc]

/-- With an answer, the header defines a structure with a member for each output. -/
theorem headerDefines_of_hasResponse {remote : RemoteFunction} (h : remote.hasResponse = true)
    (indent : String) :
    HeaderDefines indent remote
        (remote.outputs.map fun param => param.storageType.declare param.name ++ ";") := by
  unfold HeaderDefines headerLines
  rw [if_pos h, List.map_map]
  simp only [List.append_assoc]
  exact ⟨_, by simp only [Function.comp_def, String.append_assoc]; rfl⟩

/-- Some outputs make an answer, unless the call is an event. -/
theorem hasResponse_of_output {remote : RemoteFunction} {param : RemoteParam}
    (hparam : param ∈ remote.outputs) (hevent : remote.isEvent = false) :
    remote.hasResponse = true := by
  simp [hasResponse, hevent, List.ne_nil_of_mem hparam]

theorem subject_answerMember (member : String) : subject ("_res." ++ member) = "_res" := by
  have hanswer : "_res." = "_res" ++ "." := rfl
  rw [hanswer]
  exact subject_member (by decide) member

theorem ne_member {helper : String} (hhelper : helper ∈ helperNames) (member : String) :
    helper ≠ "_res." ++ member := by
  have hfront : ∀ helper ∈ helperNames, helper.toList.take 5 ≠ "_res.".toList := by decide
  intro heq
  refine hfront helper hhelper ?_
  rw [heq, String.toList_append]
  rfl

theorem member_injective {member other : String} (h : "_res." ++ member = "_res." ++ other) :
    member = other := by
  have hchars := congrArg String.toList h
  rw [String.toList_append, String.toList_append] at hchars
  exact String.toList_inj.mp (List.append_cancel_left hchars)

theorem ClientLocal.mem_helperNames {remote : RemoteFunction} {name : String}
    (h : ClientLocal remote name) : name ∈ helperNames := by
  cases h <;> decide

/-- A member that a client function uses is an output that it has read. -/
theorem ClientUse.exists_output {remote : RemoteFunction} {reference member : String}
    (h : ClientUse remote reference) (hreference : reference = "_res." ++ member) :
    remote.hasResponse = true ∧ ∃ param ∈ remote.outputs, param.name = member := by
  cases h with
  | «local» hlocal => exact absurd hreference (ne_member hlocal.mem_helperNames member)
  | response hinline => exact absurd hreference (ne_member (by decide) member)
  | member hreads param hparam =>
    exact ⟨(hasResponse_of_readsResponse hreads).2, param, hparam, member_injective hreference⟩

/-- A member that a handler uses is an output. -/
theorem HandlerUse.exists_output {remote : RemoteFunction} {reference member : String}
    (h : HandlerUse remote reference) (hreference : reference = "_res." ++ member) :
    ∃ param ∈ remote.outputs, param.name = member := by
  cases h with
  | answer hresponse => exact absurd hreference (ne_member (by decide) member)
  | member param hparam hkind => exact ⟨param, hparam, member_injective hreference⟩

section SelfContained

variable {f : Function} {remote : RemoteFunction} {declared returned : List RemoteParam}
  (h : Parts f remote declared returned) (havoids : f.AvoidsHelpers)

include h in
/-- Where no event has a parameter that only goes back, a handler uses an answer that there is. -/
theorem HandlerUse.hasResponse
    (hevent : remote.isEvent = true → ∀ param ∈ declared, param.direction ≠ .output)
    {reference : String} (huse : HandlerUse remote reference) : remote.hasResponse = true := by
  cases huse with
  | answer hresponse => exact hresponse
  | member param hparam hkind =>
    rcases hkind with hresponse | ⟨houtput, hname⟩
    · exact hresponse
    · have hdeclared := h.declared_of_name_ne (List.mem_filter.mp hparam).1 hname
      refine hasResponse_of_output hparam (Bool.eq_false_iff.mpr fun hkind => ?_)
      exact hevent hkind param hdeclared houtput

include h havoids

/-- Where every inline response has something to respond, and no event has a parameter that only
goes back, the bodies declare what they use. -/
theorem selfContained_of_response
    (hinline : remote.inlineResponse = true → remote.hasResponse = true)
    (hevent : remote.isEvent = true → ∀ param ∈ declared, param.direction ≠ .output)
    (indent : String) : SelfContained indent remote := by
  have hanswer : IsWord "_res" := by decide
  have hdefines (hresponse : remote.hasResponse = true) :=
    headerDefines_of_hasResponse hresponse indent
  refine ⟨?_, ?_, ?_, ?_⟩
  · intro lines hlines line hline helper hhelper huses
    obtain ⟨reference, huse, rfl⟩ :=
      (client_refersOnly h havoids lines hlines).allowed_of_uses hline hhelper huses
    cases huse with
    | «local» hlocal =>
      have hword : ∀ helper ∈ helperNames, IsWord helper := by decide
      rw [subject_of_word (hword _ hlocal.mem_helperNames)]
      exact hlocal.declares
    | response hkind =>
      refine ClientLocal.declares (.response ?_)
      rw [readsResponse, hkind, hinline hkind]
      rfl
    | member hreads param hparam =>
      rw [subject_answerMember]
      exact ClientLocal.declares (.answer hreads)
  · intro lines hlines line hline helper hhelper huses
    obtain ⟨reference, huse, rfl⟩ :=
      (handler_refersOnly h havoids lines hlines).allowed_of_uses hline hhelper huses
    have hresponse := huse.hasResponse h hevent
    have hsubject : subject reference = "_res" := by
      cases huse with
      | answer _ => exact subject_of_word hanswer
      | member param _ _ => exact subject_answerMember _
    rw [hsubject]
    exact declares_handlerLocals hresponse
  · rintro (hdeclares | hdeclares)
    · have hlocal :=
        (clientLocals_refersOnly h havoids).allowed_of_declares (by decide) hdeclares
      generalize hname : "_res" = name at hlocal
      cases hlocal with
      | response hreads => exact absurd hname (by decide)
      | answer hreads => exact ⟨_, hdefines (hasResponse_of_readsResponse hreads).2⟩
      | result _ _ => exact absurd hname (by decide)
    · have hlocal :=
        (handlerLocals_refersOnly h havoids).allowed_of_declares (by decide) hdeclares
      exact ⟨_, hdefines hlocal.2⟩
  · intro lines hlines line hline member hreference
    have hhelper : ¬ Neutral ("_res." ++ member) := by
      rw [Neutral, subject_answerMember]
      decide
    have hcases : remote.hasResponse = true ∧ ∃ param ∈ remote.outputs, param.name = member := by
      rcases List.mem_append.mp hlines with hlines | hlines
      · have huse :=
          (client_refersOnly h havoids lines hlines line hline _ hreference).resolve_left hhelper
        exact huse.exists_output rfl
      · have huse :=
          (handler_refersOnly h havoids lines hlines line hline _ hreference).resolve_left hhelper
        exact ⟨huse.hasResponse h hevent, huse.exists_output rfl⟩
    obtain ⟨hresponse, param, hparam, rfl⟩ := hcases
    exact ⟨_, hdefines hresponse, param.storageType, .inl (List.mem_map_of_mem hparam)⟩

/-- An inline response without an answer is used, but not declared. -/
theorem hasResponse_of_selfContained {indent : String} (hself : SelfContained indent remote)
    (hinline : remote.inlineResponse = true) : remote.hasResponse = true := by
  have hevent : remote.isEvent = false :=
    Bool.eq_false_iff.mpr fun hevent => h.kind ⟨hevent, hinline⟩
  have hsend : remote.clientSend = ["nrf_rpc_cmd_send(&_ctx, " ++
      ("\"" ++ remote.names.function ++ "\"") ++ ", " ++ "&_rsp" ++ ");"] := by
    simp [clientSend, hevent, hinline]
  have huses : Uses ("nrf_rpc_cmd_send(&_ctx, " ++ ("\"" ++ remote.names.function ++ "\"") ++
      ", " ++ "&_rsp" ++ ");") "_rsp" := by
    refine ⟨"_rsp", ?_, subject_of_word (by decide)⟩
    have hresponse : references "&_rsp" = ["_rsp"] := rfl
    rw [references_between (endsApart_append (by decide) (by decide) _) (by decide), hresponse]
    simp
  have hsection : remote.clientSend ∈ remote.clientSections := by
    show _ ∈ [_, _, _, _, _]
    simp
  have hdeclares := hself.client _ hsection _ (by rw [hsend]; simp) "_rsp" (by decide) huses
  have hlocal := (clientLocals_refersOnly h havoids).allowed_of_declares (by decide) hdeclares
  generalize hname : "_rsp" = name at hlocal
  cases hlocal with
  | response hreads => exact (hasResponse_of_readsResponse hreads).2
  | answer hreads => exact absurd hname (by decide)
  | result _ _ => exact absurd hname (by decide)

/-- A parameter of an event that only goes back is used as a member of an answer that the handler
does not declare. -/
theorem not_output_of_selfContained {indent : String} (hself : SelfContained indent remote)
    (hevent : remote.isEvent = true) : ∀ param ∈ declared, param.direction ≠ .output := by
  intro param hparam houtput
  obtain ⟨line, hexecute, hline⟩ := references_executeLine h havoids
  have hreference : "_res." ++ param.name ∈ references line := by
    rw [hline]
    refine List.mem_append_right _ (List.mem_cons_of_mem _ ?_)
    refine List.mem_flatMap.mpr ⟨param, hparam, ?_⟩
    rw [param.references_argument (h.isWord_of_declared havoids hparam).1, if_pos houtput]
    simp
  have huses : Uses line "_res" :=
    ⟨_, hreference, subject_answerMember param.name⟩
  have hsection : remote.handlerExecute ∈ remote.handlerSections := by
    show _ ∈ [_, _, _, _]
    simp
  have hdeclares := hself.handler _ hsection line (by rw [hexecute]; simp) "_res" (by decide) huses
  have hlocal := (handlerLocals_refersOnly h havoids).allowed_of_declares (by decide) hdeclares
  simp [hasResponse, hevent] at hlocal

end SelfContained

end RemoteFunction

namespace Stub

/-- In the text with all blocks, the bodies declare the helper names they use, and the result
structure has the members they use, just if every inline response has something to respond and no
event has a parameter that only goes back. -/
theorem ofFunction_selfContained {f : Function} {remote : RemoteFunction}
    (h : RemoteFunction.ofFunction f = .ok remote) (havoids : f.AvoidsHelpers) (indent : String) :
    let declared := remote.params.take f.params.params.length
    ofFunction indent .all f = .ok (unlines (lines indent .all f remote)) ∧
      (RemoteFunction.SelfContained indent remote ↔
        (remote.inlineResponse = true → remote.hasResponse = true) ∧
          (remote.isEvent = true → ∀ param ∈ declared, param.direction ≠ .output)) := by
  intro declared
  obtain ⟨parameters, returned, hparts⟩ := RemoteFunction.exists_parts h
  have hdeclared : declared = parameters := hparts.take_params
  refine ⟨?_, ?_, ?_⟩
  · unfold ofFunction
    rw [h]
  · rw [hdeclared]
    intro hself
    exact ⟨RemoteFunction.hasResponse_of_selfContained hparts havoids hself,
      RemoteFunction.not_output_of_selfContained hparts havoids hself⟩
  · rw [hdeclared]
    rintro ⟨hinline, hevent⟩
    exact RemoteFunction.selfContained_of_response hparts havoids hinline hevent indent

/-- A function with an inline response that hands a value back. -/
theorem ofFunction_selfContained_of_value :
    let value : Param := ⟨some "value", (CType.base (.builtin "int") .plain).pointer⟩
    let f : Function := ⟨"read", .base (.builtin "int") .plain, ⟨[value], false⟩, .empty, .input,
      ⟨⟨"api.h"⟩, .start⟩, false, none,
      [⟨"OUT", ["value"], by decide⟩, ⟨"INLINE_RESPONSE", [], by decide⟩]⟩
    let remote : RemoteFunction := ⟨.of "read", .base (.builtin "int") .plain,
      [⟨"value", value.type, .output, false⟩,
        ⟨resultName, .base (.builtin "int") .plain, .output, false⟩], false, true⟩
    RemoteFunction.ofFunction f = .ok remote ∧ RemoteFunction.SelfContained "\t" remote := by
  intro value f remote
  have hremote : RemoteFunction.ofFunction f = .ok remote := rfl
  have havoids : f.AvoidsHelpers := by
    refine ⟨by decide, by decide, ?_⟩
    intro param hparam name hname
    obtain rfl : param = value := List.mem_singleton.mp hparam
    obtain rfl : "value" = name := Option.some.inj hname
    exact ⟨by decide, by decide⟩
  refine ⟨hremote, (ofFunction_selfContained hremote havoids "\t").2.mpr ⟨?_, ?_⟩⟩
  · intro hinline
    decide
  · intro hevent
    cases hevent

/-- A function without outputs and with an inline response hands `_rsp` over, but does not declare
it. -/
theorem not_selfContained_of_inline :
    let f : Function := ⟨"reset", .base (.builtin "void") .plain, ⟨[], false⟩, .empty, .input,
      ⟨⟨"api.h"⟩, .start⟩, false, none, [⟨"INLINE_RESPONSE", [], by decide⟩]⟩
    let remote : RemoteFunction :=
      ⟨.of "reset", .base (.builtin "void") .plain, [], false, true⟩
    RemoteFunction.ofFunction f = .ok remote ∧
      remote.clientSend = ["nrf_rpc_cmd_send(&_ctx, \"reset\", &_rsp);"] ∧
      remote.clientLocals = ["struct rpc_encoder _ctx;"] ∧
      ¬ RemoteFunction.SelfContained "\t" remote := by
  intro f remote
  have hlocals : remote.clientLocals = ["struct rpc_encoder _ctx;"] := by decide
  refine ⟨rfl, by decide, hlocals, ?_⟩
  intro hself
  have hdeclares := hself.client remote.clientSend (by decide)
    "nrf_rpc_cmd_send(&_ctx, \"reset\", &_rsp);" (by decide) "_rsp" (by decide)
    (by decide)
  obtain ⟨line, hline, hreference⟩ := RemoteFunction.uses_of_declares hdeclares (by decide)
  rw [hlocals] at hline
  rw [List.mem_singleton.mp hline] at hreference
  exact absurd hreference (by decide)

end Stub

end RemoteCalls
