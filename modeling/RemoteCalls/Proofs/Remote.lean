import Mathlib.Data.List.Forall2
import RemoteCalls.Remote

/-!
# The parameters of a remote function

Notes change the directions of parameters and say which of them are strings. The names, the types and
the order of the parameters stay as they are declared, and at most one parameter is added behind
them, the returned value.
-/

namespace RemoteCalls

/-- A parameter of a remote function carries a declared parameter: it has its name and its type. -/
structure RemoteParam.Carries (param : RemoteParam) (origin : Param) : Prop where
  name : origin.name = some param.name
  type : param.type = origin.type

namespace RemoteParam

theorem Carries.direct {param : RemoteParam} {origin : Param} (h : param.Carries origin)
    (kind : DirectiveKind) : (param.direct kind).Carries origin := by
  cases kind <;> exact ⟨h.name, h.type⟩

/-- Some parameters carry the declared ones, in order. -/
def CarryAll (params : List RemoteParam) (origins : List Param) : Prop :=
  List.Forall₂ Carries params origins

theorem carryAll_of_ofParams {origins : List Param} {index : Nat} {params : List RemoteParam}
    (h : ofParams index origins = .ok params) : CarryAll params origins := by
  induction origins generalizing index params with
  | nil =>
    cases h
    exact .nil
  | cons origin rest ih =>
    simp only [ofParams] at h
    split at h
    · cases h
    · next name hname =>
      split at h
      · next params hparams =>
        cases h
        exact .cons ⟨hname, rfl⟩ (ih hparams)
      · cases h

/-- The declared parameters are known from what carries them. -/
theorem CarryAll.origins_eq {params : List RemoteParam} {origins : List Param}
    (h : CarryAll params origins) :
    origins = params.map fun param => ⟨some param.name, param.type⟩ := by
  induction h with
  | nil => rfl
  | @cons param origin _ _ hcarries _ ih =>
    have horigin : origin = ⟨some param.name, param.type⟩ := by
      rw [hcarries.type, ← hcarries.name]
    rw [List.map_cons, ← horigin, ← ih]

theorem CarryAll.directNamed {kind : DirectiveKind} {name : String} {origins : List Param}
    {params directed : List RemoteParam} (hparams : CarryAll params origins)
    (h : RemoteParam.directNamed kind name params = some directed) :
    CarryAll directed origins := by
  induction hparams generalizing directed with
  | nil => cases h
  | cons hcarries hrest ih =>
    simp only [RemoteParam.directNamed] at h
    split at h
    · cases h
      exact .cons (hcarries.direct kind) hrest
    · obtain ⟨rest, hdirected, rfl⟩ := Option.map_eq_some_iff.mp h
      exact .cons hcarries (ih hdirected)

theorem CarryAll.directAll {kind : DirectiveKind} {names : List String} {origins : List Param}
    {params directed : List RemoteParam} (hparams : CarryAll params origins)
    (h : RemoteParam.directAll kind names params = .ok directed) : CarryAll directed origins := by
  induction names generalizing params with
  | nil =>
    cases h
    exact hparams
  | cons name names ih =>
    simp only [RemoteParam.directAll] at h
    split at h
    · next hnamed => exact ih (hparams.directNamed hnamed) h
    · cases h

end RemoteParam

namespace RemoteFunction

theorem carryAll_of_directParams {function : String} {directives : List Directive}
    {origins : List Param} {params directed : List RemoteParam}
    (hparams : RemoteParam.CarryAll params origins)
    (h : directParams function directives params = .ok directed) :
    RemoteParam.CarryAll directed origins := by
  induction directives generalizing params with
  | nil =>
    cases h
    exact hparams
  | cons directive directives ih =>
    simp only [directParams] at h
    split at h
    · split at h
      · next hall => exact ih (hparams.directAll hall) h
      · cases h
    · exact ih hparams h

/-- What the parameters of a remote function are: the declared ones, and behind them the returned
value or nothing. -/
structure Parts (f : Function) (remote : RemoteFunction) (declared returned : List RemoteParam) :
    Prop where
  names : remote.names = .of f.name
  result : remote.result = f.result
  params : remote.params = declared ++ returned
  declared : RemoteParam.CarryAll declared f.params.params
  returned : returned = [] ∨ returned = [⟨resultName, f.result, .output, false⟩]
  kind : ¬ (remote.isEvent = true ∧ remote.inlineResponse = true)

/-- Every remote function is made of such parts. -/
theorem exists_parts {f : Function} {remote : RemoteFunction} (h : ofFunction f = .ok remote) :
    ∃ declared returned, Parts f remote declared returned := by
  unfold ofFunction at h
  split at h
  · cases h
  · next params hparams =>
    have hcarried := RemoteParam.carryAll_of_ofParams hparams
    dsimp only at h
    split at h
    · cases h
    · next directed hdirected =>
      split at h
      · cases h
      · next hkind =>
        cases h
        refine ⟨directed, _, rfl, rfl, rfl, carryAll_of_directParams hcarried hdirected, ?_, ?_⟩
        · split
          · exact .inl rfl
          · exact .inr rfl
        · simpa using hkind

namespace Parts

variable {f : Function} {remote : RemoteFunction} {declared returned : List RemoteParam}

theorem length_declared (h : Parts f remote declared returned) :
    declared.length = f.params.params.length :=
  h.declared.length_eq

/-- The declared parameters are the first ones. -/
theorem take_params (h : Parts f remote declared returned) :
    remote.params.take f.params.params.length = declared := by
  rw [h.params, ← h.length_declared, List.take_left]

/-- A parameter is declared, or it is the returned value. -/
theorem mem_params (h : Parts f remote declared returned) {param : RemoteParam}
    (hparam : param ∈ remote.params) :
    param ∈ declared ∨ param ∈ returned ∧ param = ⟨resultName, f.result, .output, false⟩ := by
  rw [h.params, List.mem_append] at hparam
  rcases hparam with hparam | hparam
  · exact .inl hparam
  · refine .inr ⟨hparam, ?_⟩
    rcases h.returned with hreturned | hreturned <;> rw [hreturned] at hparam
    · cases hparam
    · exact List.mem_singleton.mp hparam

/-- The returned value is nothing that is sent to the handler. -/
theorem inputs (h : Parts f remote declared returned) :
    remote.inputs = declared.filter (·.direction.isInput) := by
  have hnone : returned.filter (·.direction.isInput) = [] := by
    rcases h.returned with rfl | rfl <;> rfl
  unfold RemoteFunction.inputs
  rw [h.params, List.filter_append, hnone, List.append_nil]

end Parts

end RemoteFunction

end RemoteCalls
