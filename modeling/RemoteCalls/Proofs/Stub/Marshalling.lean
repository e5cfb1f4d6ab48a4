import Mathlib.Data.List.Flatten
import RemoteCalls.Proofs.Remote
import RemoteCalls.Stub

/-!
# What is sent and what is passed on

The client function encodes the parameters that go to the handler, the handler decodes them, and it
passes all declared parameters to the function that it calls. The returned value is kept out of this
by its name. A declared parameter of that name is kept out as well, so that it is lost on the way,
and every function without such a parameter loses none.
-/

namespace RemoteCalls

namespace RemoteParam

/-- What an encoder gets besides its context: a value, or the place and the size of one. -/
def operands (param : RemoteParam) : String :=
  if param.wire = .buffer then param.name ++ ", sizeof(" ++ param.value ++ ")" else param.value

/-- The line that sends a parameter calls the encoder of its way of sending. -/
theorem encodeLine_eq (param : RemoteParam) :
    param.encodeLine =
      "ser_encode_" ++ param.wire.text ++ "(&_ctx.encoder, " ++ param.operands ++ ");" := by
  unfold encodeLine operands
  cases param.wire with
  | buffer => simp [Wire.text, String.append_assoc]
  | string | bool | unsigned | signed => rfl

/-- An argument has the name of its parameter at its end. -/
theorem exists_argument (param : RemoteParam) :
    ∃ front, param.argument = front ++ param.name :=
  ⟨_, rfl⟩

end RemoteParam

namespace RemoteFunction

/-- What the call of the handler assigns its value to. -/
def callTarget (remote : RemoteFunction) : String :=
  if remote.returned?.isSome && remote.hasResponse then "_res." ++ resultName ++ " = " else ""

/-- The call of a function with some arguments. -/
def callText (name : String) (arguments : List String) : String :=
  name ++ "(" ++ ", ".intercalate arguments ++ ");"

/-- No declared parameter is lost: each of them is an argument of the call, in order, and just those
that go to the handler are encoded by the client function and decoded by the handler, in order. -/
structure Marshals (remote : RemoteFunction) (declared : List RemoteParam) : Prop where
  execute : remote.handlerExecute =
    [remote.callTarget ++ callText remote.names.function (declared.map (·.argument))]
  encode : remote.clientEncode = (declared.filter (·.direction.isInput)).map (·.encodeLine)
  decode : remote.handlerDecode = (declared.filter (·.direction.isInput)).map (·.decodeLine)

theorem handlerExecute_eq (remote : RemoteFunction) :
    remote.handlerExecute = [remote.callTarget ++ callText remote.names.function
      ((remote.params.filter (·.name ≠ resultName)).map (·.argument))] := by
  unfold handlerExecute callTarget callText
  dsimp only
  split
  · simp only [String.append_assoc]
  · simp only [String.empty_append]

end RemoteFunction

/-- The length of some texts with a separator between them. -/
theorem Text.length_intercalate (separator : String) (texts : List String) :
    (separator.intercalate texts).length =
      (texts.flatMap String.toList).length + separator.length * (texts.length - 1) := by
  induction texts with
  | nil => simp
  | cons text texts ih =>
    cases texts with
    | nil => simp [String.length_toList]
    | cons next texts =>
      rw [String.intercalate_cons_cons, String.length_append, String.length_append, ih]
      simp only [List.flatMap_cons, List.length_append, String.length_toList, List.length_cons,
        Nat.add_sub_cancel]
      rw [Nat.mul_succ]
      omega

/-- Texts with a separator between them get shorter where one that is not empty is left out. -/
theorem Text.length_intercalate_filter_lt {α : Type} (separator : String) (text : α → String)
    (keep : α → Bool) {items : List α} {item : α} (hitem : item ∈ items)
    (hleft : keep item = false) (htext : 0 < (text item).length) :
    (separator.intercalate ((items.filter keep).map text)).length <
      (separator.intercalate (items.map text)).length := by
  have hkept : ∀ items : List α,
      ((items.filter keep).flatMap fun item => (text item).toList).length ≤
        (items.flatMap fun item => (text item).toList).length := by
    intro items
    exact (List.filter_sublist.flatMap _).length_le
  have hchars : ((items.filter keep).flatMap fun item => (text item).toList).length <
      (items.flatMap fun item => (text item).toList).length := by
    obtain ⟨front, behind, rfl⟩ := List.append_of_mem hitem
    have hfront := hkept front
    have hbehind := hkept behind
    simp only [List.filter_append, List.filter_cons, hleft, List.flatMap_append, List.flatMap_cons,
      List.length_append, String.length_toList]
    simp only [Bool.false_eq_true, if_false]
    omega
  have hcount : (items.filter keep).length ≤ items.length := List.length_filter_le keep items
  have hseparators : separator.length * ((items.filter keep).length - 1) ≤
      separator.length * (items.length - 1) :=
    Nat.mul_le_mul_left _ (Nat.sub_le_sub_right hcount 1)
  simp only [length_intercalate, List.flatMap_map, List.length_map]
  omega

namespace RemoteFunction

namespace Parts

variable {f : Function} {remote : RemoteFunction} {declared returned : List RemoteParam}

/-- The parameters under other names than that of the returned value are declared ones. -/
theorem filter_params (h : Parts f remote declared returned) :
    remote.params.filter (·.name ≠ resultName) = declared.filter (·.name ≠ resultName) := by
  have hnone : returned.filter (·.name ≠ resultName) = [] := by
    rcases h.returned with rfl | rfl
    · rfl
    · simp
  rw [h.params, List.filter_append, hnone, List.append_nil]

/-- The client function encodes the declared parameters that go to the handler, up to those that
are called like the returned value. -/
theorem clientEncode (h : Parts f remote declared returned) :
    remote.clientEncode =
      ((declared.filter (·.direction.isInput)).filter (·.name ≠ resultName)).map
        (·.encodeLine) := by
  unfold RemoteFunction.clientEncode
  rw [h.inputs]

/-- The handler decodes the declared parameters that go to it. -/
theorem handlerDecode (h : Parts f remote declared returned) :
    remote.handlerDecode = (declared.filter (·.direction.isInput)).map (·.decodeLine) := by
  unfold RemoteFunction.handlerDecode
  rw [h.inputs]

/-- The handler passes on the declared parameters, up to those that are called like the returned
value. -/
theorem handlerExecute (h : Parts f remote declared returned) :
    remote.handlerExecute = [remote.callTarget ++ callText remote.names.function
      ((declared.filter (·.name ≠ resultName)).map (·.argument))] := by
  rw [handlerExecute_eq, h.filter_params]

/-- No declared parameter is lost just if none is called like the returned value. -/
theorem marshals_iff (h : Parts f remote declared returned) :
    Marshals remote declared ↔ ∀ param ∈ declared, param.name ≠ resultName := by
  constructor
  · intro hmarshals param hparam hname
    have hlines := h.handlerExecute.symm.trans hmarshals.execute
    have hlength := congrArg String.length (List.cons.inj hlines).1
    have hargument : 0 < param.argument.length := by
      obtain ⟨front, hfront⟩ := param.exists_argument
      have hresult : resultName.length = 7 := by decide
      rw [hfront, String.length_append, hname, hresult]
      exact Nat.succ_pos _
    have hleft : decide (param.name ≠ resultName) = false := by
      simp [hname]
    have hshorter := Text.length_intercalate_filter_lt ", "
      (fun param : RemoteParam => param.argument)
      (fun param : RemoteParam => decide (param.name ≠ resultName)) hparam hleft hargument
    simp only [callText, String.length_append] at hlength
    omega
  · intro hnames
    have hkept : ∀ {some : List RemoteParam}, (∀ param ∈ some, param ∈ declared) →
        some.filter (·.name ≠ resultName) = some := by
      intro some hsome
      exact List.filter_eq_self.mpr fun param hparam =>
        decide_eq_true (hnames param (hsome param hparam))
    refine ⟨?_, ?_, h.handlerDecode⟩
    · rw [h.handlerExecute, hkept fun _ hparam => hparam]
    · rw [h.clientEncode, hkept fun _ hparam => (List.mem_filter.mp hparam).1]

end Parts

end RemoteFunction

namespace Stub

/-- The text with all blocks, section by section. -/
theorem lines_all (indent : String) (f : Function) (remote : RemoteFunction) :
    lines indent .all f remote =
      remote.headerLines indent ++ [""] ++
      ([f.signature, "\x7b"] ++ fenced indent .locals remote.clientLocals ++ [""] ++
        fenced indent .encode remote.clientEncode ++ [""] ++
        fenced indent .send remote.clientSend ++ [""] ++
        fenced indent .decode remote.clientDecode ++ [""] ++
        fenced indent .result remote.clientReturn ++ ["\x7d"]) ++ [""] ++
      (["void " ++ remote.names.handler ++ "(struct rpc_decoder *_dec)", "\x7b"] ++
        fenced indent .locals remote.handlerLocals ++ [""] ++
        fenced indent .decode remote.handlerDecode ++ [""] ++
        fenced indent .execute remote.handlerExecute ++ [""] ++
        fenced indent .response remote.handlerResponse ++ ["\x7d"]) ++
      ["", "RPC_REGISTER_HANDLER(" ++ remote.names.function ++ ", " ++ remote.names.handler ++
        ");"] := by
  simp [lines, CodeBlocks.all, Block.all, functionLines, bodyLines, RemoteFunction.clientBlock?,
    RemoteFunction.handlerBlock?, List.intercalate, List.intersperse]

/-- The text of a function with all blocks consists of these sections, and no declared parameter is
lost between them just if none is called like the returned value. The declared parameters have the
names and types of the function's parameters, and the two lines for one of them send it the same
way. -/
theorem ofFunction_marshals {f : Function} {remote : RemoteFunction}
    (h : RemoteFunction.ofFunction f = .ok remote) (indent : String) :
    let declared := remote.params.take f.params.params.length
    f.params.params = declared.map (fun param => ⟨some param.name, param.type⟩) ∧
      ofFunction indent .all f = .ok (unlines (
        remote.headerLines indent ++ [""] ++
        ([f.signature, "\x7b"] ++ fenced indent .locals remote.clientLocals ++ [""] ++
          fenced indent .encode remote.clientEncode ++ [""] ++
          fenced indent .send remote.clientSend ++ [""] ++
          fenced indent .decode remote.clientDecode ++ [""] ++
          fenced indent .result remote.clientReturn ++ ["\x7d"]) ++ [""] ++
        (["void " ++ f.name ++ "_rpc_handler(struct rpc_decoder *_dec)", "\x7b"] ++
          fenced indent .locals remote.handlerLocals ++ [""] ++
          fenced indent .decode remote.handlerDecode ++ [""] ++
          fenced indent .execute remote.handlerExecute ++ [""] ++
          fenced indent .response remote.handlerResponse ++ ["\x7d"]) ++
        ["", "RPC_REGISTER_HANDLER(" ++ f.name ++ ", " ++ f.name ++ "_rpc_handler);"])) ∧
      (∀ param ∈ declared,
        param.encodeLine =
          "ser_encode_" ++ param.wire.text ++ "(&_ctx.encoder, " ++ param.operands ++ ");" ∧
        param.decodeLine = "ser_decode_" ++ param.wire.text ++ "(_dec, &" ++ param.name ++ ");") ∧
      (RemoteFunction.Marshals remote declared ↔ ∀ param ∈ declared, param.name ≠ resultName) := by
  intro declared
  obtain ⟨parameters, returned, hparts⟩ := RemoteFunction.exists_parts h
  have hdeclared : declared = parameters := hparts.take_params
  refine ⟨?_, ?_, fun param _ => ⟨param.encodeLine_eq, rfl⟩, ?_⟩
  · rw [hdeclared]
    exact hparts.declared.origins_eq
  · unfold ofFunction
    rw [h]
    dsimp only
    rw [lines_all, hparts.names]
    simp [RemoteNames.of, handlerBack, String.append_assoc]
  · rw [hdeclared]
    exact hparts.marshals_iff

/-- The parameter `value` of a function is sent and passed on. -/
theorem ofFunction_marshals_of_value :
    let f : Function := ⟨"set", .base (.builtin "void") .plain,
      ⟨[⟨some "value", .base (.builtin "int") .plain⟩], false⟩, .empty, .input,
      ⟨⟨"api.h"⟩, .start⟩, false, none, []⟩
    let value : RemoteParam := ⟨"value", .base (.builtin "int") .plain, .input, false⟩
    let remote : RemoteFunction :=
      ⟨.of "set", .base (.builtin "void") .plain, [value], false, false⟩
    RemoteFunction.ofFunction f = .ok remote ∧ RemoteFunction.Marshals remote [value] := by
  intro f value remote
  have hremote : RemoteFunction.ofFunction f = .ok remote := rfl
  refine ⟨hremote, (ofFunction_marshals hremote "\t").2.2.2.mpr ?_⟩
  intro param hparam
  obtain rfl : param = value := List.mem_singleton.mp hparam
  decide

/-- The parameter `_result` of a function is decoded by the handler, but neither encoded by the
client function nor passed on. -/
theorem not_marshals_of_declared_result :
    let f : Function := ⟨"set", .base (.builtin "void") .plain,
      ⟨[⟨some "_result", .base (.builtin "int") .plain⟩], false⟩, .empty, .input,
      ⟨⟨"api.h"⟩, .start⟩, false, none, []⟩
    let param : RemoteParam := ⟨"_result", .base (.builtin "int") .plain, .input, false⟩
    let remote : RemoteFunction :=
      ⟨.of "set", .base (.builtin "void") .plain, [param], false, false⟩
    RemoteFunction.ofFunction f = .ok remote ∧
      remote.handlerDecode = ["ser_decode_int(_dec, &_result);"] ∧
      remote.clientEncode = [] ∧ remote.handlerExecute = ["set();"] ∧
      ¬ RemoteFunction.Marshals remote [param] := by
  intro f param remote
  have hencode : remote.clientEncode = [] := by decide
  refine ⟨rfl, by decide, hencode, by decide, ?_⟩
  intro hmarshals
  exact List.cons_ne_nil _ _ (hmarshals.encode.symm.trans hencode)

end Stub

end RemoteCalls
