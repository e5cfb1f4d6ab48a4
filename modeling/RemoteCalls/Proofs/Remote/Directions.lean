import RemoteCalls.Proofs.Remote.Directives

/-!
# Directions of the parameters

The directives of a function are followed in the order in which its notes give them. What they say of
parameters is a row of mentions, one for each argument, and a parameter depends on the mentions of its
name alone: the last one that gives a direction counts, and one that speaks of a string is enough. The
mentions of a name go to the first parameter of that name.
-/

namespace RemoteCalls

/-- The direction that a directive gives to the parameters it names, if it gives one. -/
def DirectiveKind.direction? : DirectiveKind → Option Direction
  | .output => some .output
  | .both => some .both
  | _ => none

/-- One argument of a directive whose arguments name parameters. -/
structure Mention where
  kind : DirectiveKind
  name : String
deriving DecidableEq, Repr

/-- What a directive says of parameters, argument by argument. -/
def Directive.mentions (directive : Directive) : List Mention :=
  if directive.kind.namesParams then directive.arguments.map (⟨directive.kind, ·⟩) else []

namespace Mention

/-- The direction that some mentions give to a name: that of the last one that gives any. -/
def directionOf (mentions : List Mention) (name : String) : Direction :=
  (((mentions.filter (·.name = name)).filterMap (·.kind.direction?)).getLast?).getD .input

/-- Whether one of some mentions says that a name is that of a string. -/
def saysString (mentions : List Mention) (name : String) : Bool :=
  mentions.any fun mention => mention.kind = .string && mention.name = name

/-- Whether a mention names one of some parameters. -/
def Names (params : List RemoteParam) (mention : Mention) : Prop :=
  ∃ param ∈ params, param.name = mention.name

end Mention

namespace RemoteParam

/-- A declared parameter that has a name, as an input. -/
def ofParam? (param : Param) : Option RemoteParam :=
  param.name.map fun name => ⟨name, param.type, .input, false⟩

/-- A parameter that some mentions are about. -/
def under (mentions : List Mention) (param : RemoteParam) : RemoteParam :=
  { param with
    direction := Mention.directionOf mentions param.name
    isString := Mention.saysString mentions param.name }

/-- Some parameters under mentions: the first one of each name that is not yet seen changes. -/
def underAll (mentions : List Mention) (seen : List String) : List RemoteParam → List RemoteParam
  | [] => []
  | param :: rest =>
    (if param.name ∈ seen then param else param.under mentions) ::
      underAll mentions (param.name :: seen) rest

end RemoteParam

namespace Function

/-- What the directives on a function say of its parameters, in order. -/
def mentions (f : Function) : List Mention :=
  f.directives.flatMap Directive.mentions

/-- Whether a directive of the given kind is on a function. -/
def has (f : Function) (kind : DirectiveKind) : Bool :=
  f.directives.any (·.kind = kind)

/-- The parameters of a function that have names, as inputs. -/
def namedParams (f : Function) : List RemoteParam :=
  f.params.params.filterMap RemoteParam.ofParam?

/-- Whether each parameter of a function has a name. -/
def AllNamed (f : Function) : Prop :=
  ∀ param ∈ f.params.params, param.name ≠ none

/-- The output that the result of a function becomes, unless there is none or it is ignored. -/
def returned (f : Function) : List RemoteParam :=
  if f.result.isVoid || f.has .ignoreReturn then []
  else [⟨resultName, f.result, .output, false⟩]

end Function

namespace RemoteParam

theorem ofParams_eq_of_named {params : List Param} (h : ∀ param ∈ params, param.name ≠ none)
    (index : Nat) : ofParams index params = .ok (params.filterMap ofParam?) := by
  induction params generalizing index with
  | nil => rfl
  | cons param rest ih =>
    obtain ⟨hparam, hrest⟩ := List.forall_mem_cons.mp h
    obtain ⟨name, hname⟩ := Option.ne_none_iff_exists'.mp hparam
    have hfirst : ofParam? param = some ⟨name, param.type, .input, false⟩ := by
      rw [ofParam?, hname, Option.map_some]
    simp only [ofParams, hname, ih hrest, List.filterMap_cons_some hfirst]

theorem ofParams_eq_error {before after : List Param} {param : Param}
    (h : ∀ other ∈ before, other.name ≠ none) (hparam : param.name = none) (index : Nat) :
    ofParams index (before ++ param :: after) = .error (index + before.length) := by
  induction before generalizing index with
  | nil => simp only [List.nil_append, ofParams, hparam, List.length_nil, Nat.add_zero]
  | cons other rest ih =>
    obtain ⟨hother, hrest⟩ := List.forall_mem_cons.mp h
    obtain ⟨name, hname⟩ := Option.ne_none_iff_exists'.mp hother
    have hindex : index + 1 + rest.length = index + (other :: rest).length := by
      rw [List.length_cons]; omega
    simp only [List.cons_append, ofParams, hname, ih hrest, hindex]

/-! ### One mention -/

/-- One more mention of a parameter's name comes down to its directive. -/
theorem under_snoc_of_eq {mentions : List Mention} {mention : Mention} {param : RemoteParam}
    (h : param.name = mention.name) (hkind : mention.kind.namesParams = true) :
    param.under (mentions ++ [mention]) = (param.under mentions).direct mention.kind := by
  obtain ⟨kind, name⟩ := mention
  subst h
  cases kind with
  | event | inlineResponse | ignoreReturn => cases hkind
  | output | both | string =>
    simp [under, direct, Mention.directionOf, Mention.saysString, DirectiveKind.direction?]

/-- A mention of another name changes nothing. -/
theorem under_snoc_of_ne {mentions : List Mention} {mention : Mention} {param : RemoteParam}
    (h : param.name ≠ mention.name) :
    param.under (mentions ++ [mention]) = param.under mentions := by
  simp [under, Mention.directionOf, Mention.saysString, Ne.symm h]

theorem under_nil {param : RemoteParam} (h : param.direction = .input)
    (hstring : param.isString = false) : param.under [] = param := by
  obtain ⟨name, type, direction, isString⟩ := param
  cases h
  cases hstring
  rfl

/-- The mention of a name whose first parameter is seen already is about none of the others. -/
theorem underAll_snoc_of_seen {mentions : List Mention} {mention : Mention} {seen : List String}
    (h : mention.name ∈ seen) (params : List RemoteParam) :
    underAll (mentions ++ [mention]) seen params = underAll mentions seen params := by
  induction params generalizing seen with
  | nil => rfl
  | cons param rest ih =>
    rw [underAll, underAll, ih (List.mem_cons_of_mem _ h)]
    by_cases hparam : param.name ∈ seen
    · rw [if_pos hparam, if_pos hparam]
    · rw [if_neg hparam, if_neg hparam,
        under_snoc_of_ne fun heq => hparam (heq ▸ h)]

/-- One mention as a step: the first parameter of its name takes it in. -/
theorem directNamed_underAll (mentions : List Mention) {mention : Mention} {seen : List String}
    {params : List RemoteParam} (hseen : mention.name ∉ seen)
    (hkind : mention.kind.namesParams = true) (h : mention.Names params) :
    directNamed mention.kind mention.name (underAll mentions seen params) =
      some (underAll (mentions ++ [mention]) seen params) := by
  induction params generalizing seen with
  | nil =>
    obtain ⟨param, hparam, -⟩ := h
    cases hparam
  | cons param rest ih =>
    have hname : (if param.name ∈ seen then param else param.under mentions).name = param.name := by
      split <;> rfl
    rw [underAll, underAll, directNamed, hname]
    by_cases hparam : param.name = mention.name
    · have hfirst : param.name ∉ seen := hparam ▸ hseen
      rw [if_pos hparam, if_neg hfirst, if_neg hfirst, under_snoc_of_eq hparam hkind,
        underAll_snoc_of_seen (hparam ▸ List.mem_cons_self)]
    · have hrest : mention.Names rest := by
        obtain ⟨other, hother, heq⟩ := h
        rcases List.mem_cons.mp hother with rfl | hother
        · exact absurd heq hparam
        · exact ⟨other, hother, heq⟩
      have hunseen : mention.name ∉ param.name :: seen := by
        rw [List.mem_cons]
        rintro (heq | hmem)
        · exact hparam heq.symm
        · exact hseen hmem
      rw [if_neg hparam, ih hunseen hrest, under_snoc_of_ne hparam, Option.map_some]

/-- A mention that names no parameter is a fault. -/
theorem directNamed_eq_none (mentions : List Mention) {mention : Mention} (seen : List String)
    {params : List RemoteParam} (h : ¬ mention.Names params) :
    directNamed mention.kind mention.name (underAll mentions seen params) = none := by
  induction params generalizing seen with
  | nil => rfl
  | cons param rest ih =>
    have hname : (if param.name ∈ seen then param else param.under mentions).name = param.name := by
      split <;> rfl
    have hparam : param.name ≠ mention.name := fun heq => h ⟨param, List.mem_cons_self, heq⟩
    have hrest : ¬ mention.Names rest := fun ⟨other, hother, heq⟩ =>
      h ⟨other, List.mem_cons_of_mem _ hother, heq⟩
    rw [underAll, directNamed, hname, if_neg hparam, ih _ hrest, Option.map_none]

/-- With nothing said of them, inputs stay as they are. -/
theorem underAll_nil (seen : List String) (params : List Param) :
    underAll [] seen (params.filterMap ofParam?) = params.filterMap ofParam? := by
  induction params generalizing seen with
  | nil => rfl
  | cons param rest ih =>
    cases hparam : ofParam? param with
    | none => rw [List.filterMap_cons_none hparam, ih]
    | some named =>
      obtain ⟨name, -, rfl⟩ := Option.map_eq_some_iff.mp hparam
      rw [List.filterMap_cons_some hparam, underAll, ih, under_nil rfl rfl, ite_self]

/-! ### The arguments of one directive -/

variable {base : List RemoteParam} {kind : DirectiveKind}

theorem directAll_underAll (hkind : kind.namesParams = true) {mentions : List Mention}
    {names : List String} (h : ∀ name ∈ names, Mention.Names base ⟨kind, name⟩) :
    directAll kind names (underAll mentions [] base) =
      .ok (underAll (mentions ++ names.map (⟨kind, ·⟩)) [] base) := by
  induction names generalizing mentions with
  | nil => rw [List.map_nil, List.append_nil, directAll]
  | cons name names ih =>
    obtain ⟨hname, hnames⟩ := List.forall_mem_cons.mp h
    have hstep := directNamed_underAll mentions List.not_mem_nil hkind hname
    simp only [directAll, hstep, ih hnames, List.map_cons, List.append_assoc, List.singleton_append]

theorem directAll_eq_error (hkind : kind.namesParams = true) {mentions : List Mention}
    {before after : List String} {name : String}
    (h : ∀ other ∈ before, Mention.Names base ⟨kind, other⟩)
    (hname : ¬ Mention.Names base ⟨kind, name⟩) :
    directAll kind (before ++ name :: after) (underAll mentions [] base) = .error name := by
  induction before generalizing mentions with
  | nil =>
    have hstep := directNamed_eq_none mentions [] hname
    simp only [List.nil_append, directAll, hstep]
  | cons other before ih =>
    obtain ⟨hother, hbefore⟩ := List.forall_mem_cons.mp h
    have hstep := directNamed_underAll mentions List.not_mem_nil hkind hother
    simp only [List.cons_append, directAll, hstep, ih hbefore]

end RemoteParam

namespace RemoteFunction

open RemoteParam

variable {base : List RemoteParam}

/-! ### All directives -/

theorem directParams_underAll (function : String) (mentions : List Mention)
    {directives : List Directive}
    (h : ∀ mention ∈ directives.flatMap Directive.mentions, mention.Names base) :
    directParams function directives (underAll mentions [] base) =
      .ok (underAll (mentions ++ directives.flatMap Directive.mentions) [] base) := by
  induction directives generalizing mentions with
  | nil => rw [List.flatMap_nil, List.append_nil, directParams]
  | cons directive rest ih =>
    rw [List.flatMap_cons] at h ⊢
    have hrest := fun mention hmention => h mention (List.mem_append_right _ hmention)
    by_cases hkind : directive.kind.namesParams = true
    · have hmentions : directive.mentions = directive.arguments.map (⟨directive.kind, ·⟩) :=
        if_pos hkind
      have hfirst : ∀ name ∈ directive.arguments, Mention.Names base ⟨directive.kind, name⟩ :=
        fun name hname => h _ (List.mem_append_left _ (hmentions ▸ List.mem_map_of_mem hname))
      simp only [directParams, if_pos hkind, directAll_underAll hkind hfirst, ih _ hrest, hmentions,
        List.append_assoc]
    · have hmentions : directive.mentions = [] := if_neg hkind
      rw [directParams, if_neg hkind, ih _ hrest, hmentions, List.nil_append]

/-- The first mention that names no parameter is the fault that is reported. -/
theorem directParams_eq_error (function : String) (mentions : List Mention)
    {before after : List Mention} {directives : List Directive} {mention : Mention}
    (hsplit : directives.flatMap Directive.mentions = before ++ mention :: after)
    (h : ∀ other ∈ before, other.Names base) (hmention : ¬ mention.Names base) :
    directParams function directives (underAll mentions [] base) =
      .error (.missingParam function mention.kind mention.name) := by
  induction directives generalizing mentions before with
  | nil => exact absurd hsplit.symm (List.append_ne_nil_of_right_ne_nil _ (List.cons_ne_nil _ _))
  | cons directive rest ih =>
    rw [List.flatMap_cons] at hsplit
    by_cases hkind : directive.kind.namesParams = true
    · have hmentions : directive.mentions = directive.arguments.map (⟨directive.kind, ·⟩) :=
        if_pos hkind
      rw [hmentions] at hsplit
      -- the fault is behind this directive, or it is one of its arguments
      rcases List.append_eq_append_iff.mp hsplit with ⟨behind, rfl, hrest⟩ | ⟨ahead, hall, hrest⟩
      · have hfirst : ∀ name ∈ directive.arguments, Mention.Names base ⟨directive.kind, name⟩ :=
          fun name hname => h _ (List.mem_append_left _ (List.mem_map_of_mem hname))
        have hbehind : ∀ other ∈ behind, other.Names base :=
          fun other hother => h other (List.mem_append_right _ hother)
        simp only [directParams, if_pos hkind, directAll_underAll hkind hfirst]
        exact ih _ hrest hbehind
      · cases ahead with
        | nil =>
          rw [List.append_nil] at hall
          rw [List.nil_append] at hrest
          have hfirst : ∀ name ∈ directive.arguments, Mention.Names base ⟨directive.kind, name⟩ :=
            fun name hname => h _ (hall ▸ List.mem_map_of_mem hname)
          simp only [directParams, if_pos hkind, directAll_underAll hkind hfirst]
          exact ih _ hrest.symm (List.forall_mem_nil _)
        | cons first ahead =>
          obtain ⟨rfl, -⟩ := List.cons.inj hrest
          obtain ⟨names, tail, hnames, hbefore, htail⟩ := List.map_eq_append_iff.mp hall
          obtain ⟨name, others, rfl, rfl, -⟩ := List.map_eq_cons_iff.mp htail
          have hfirst : ∀ other ∈ names, Mention.Names base ⟨directive.kind, other⟩ :=
            fun other hother => h _ (hbefore ▸ List.mem_map_of_mem hother)
          simp only [directParams, if_pos hkind, hnames, directAll_eq_error hkind hfirst hmention]
    · have hmentions : directive.mentions = [] := if_neg hkind
      rw [hmentions, List.nil_append] at hsplit
      rw [directParams, if_neg hkind]
      exact ih _ hsplit h

/-- What a function is under its directives. The rules are tried in this order, and each has what
the ones before it deny. -/
inductive Settles (f : Function) : Except RemoteFault RemoteFunction → Prop
  /-- A parameter has no name. The first such parameter is reported. -/
  | unnamed {before after : List Param} {param : Param}
      (split : f.params.params = before ++ param :: after)
      (named : ∀ other ∈ before, other.name ≠ none) (unnamed : param.name = none) :
      Settles f (.error (.unnamedParam f.name before.length))
  /-- An argument of a directive names no parameter. The first such argument is reported. -/
  | missing {before after : List Mention} {mention : Mention} (named : f.AllNamed)
      (split : f.mentions = before ++ mention :: after)
      (found : ∀ other ∈ before, other.Names f.namedParams)
      (missing : ¬ mention.Names f.namedParams) :
      Settles f (.error (.missingParam f.name mention.kind mention.name))
  /-- The function is an event, and its response is to be decoded in place. -/
  | clash (named : f.AllNamed) (found : ∀ mention ∈ f.mentions, mention.Names f.namedParams)
      (event : f.has .event = true) (inline : f.has .inlineResponse = true) :
      Settles f (.error (.eventWithInlineResponse f.name))
  /-- Nothing is wrong: the declared parameters in order, and the returned value behind them. -/
  | remote (named : f.AllNamed) (found : ∀ mention ∈ f.mentions, mention.Names f.namedParams)
      (apart : ¬ (f.has .event = true ∧ f.has .inlineResponse = true)) :
      Settles f (.ok ⟨.of f.name, f.result, underAll f.mentions [] f.namedParams ++ f.returned,
        f.has .event, f.has .inlineResponse⟩)

/-- What directives make of the inputs of a function. -/
theorem directParams_directives {f : Function}
    (h : ∀ mention ∈ f.mentions, mention.Names f.namedParams) :
    directParams f.name f.directives f.namedParams =
      .ok (underAll f.mentions [] f.namedParams) := by
  have hrun := directParams_underAll f.name [] h
  rwa [Function.namedParams, underAll_nil] at hrun

/-- With names for its parameters, a function depends on its directives. -/
theorem ofFunction_of_named {f : Function} (named : f.AllNamed) :
    ofFunction f = (directParams f.name f.directives f.namedParams).bind fun params =>
      if (f.has .event && f.has .inlineResponse) = true then
        .error (.eventWithInlineResponse f.name)
      else .ok ⟨.of f.name, f.result, params ++ f.returned, f.has .event, f.has .inlineResponse⟩ := by
  rw [ofFunction, ofParams_eq_of_named named]
  show _ = (directParams f.name (f.notes.flatMap Directive.ofNote)
    (f.params.params.filterMap ofParam?)).bind _
  cases hdirected : directParams f.name (f.notes.flatMap Directive.ofNote)
      (f.params.params.filterMap ofParam?) with
  | error fault => simp only [hdirected]; rfl
  | ok params => simp only [hdirected]; rfl

theorem ofFunction_eq_of_settles {f : Function} {result : Except RemoteFault RemoteFunction}
    (h : Settles f result) : ofFunction f = result := by
  cases h with
  | unnamed split named unnamed =>
    rw [ofFunction, split, ofParams_eq_error named unnamed, Nat.zero_add]
  | missing named split found missing =>
    have hdirected := directParams_eq_error f.name [] split found missing
    rw [Function.namedParams, underAll_nil] at hdirected
    rw [ofFunction_of_named named, Function.namedParams, hdirected]
    rfl
  | clash named found event inline =>
    rw [ofFunction_of_named named, directParams_directives found, Except.bind, event, inline]
    rfl
  | remote named found apart =>
    rw [← Bool.and_eq_true] at apart
    rw [ofFunction_of_named named, directParams_directives found, Except.bind, if_neg apart]

/-- What does not hold of all in a list fails first somewhere. -/
theorem exists_first_of_not_forall {α : Type} {p : α → Prop} {xs : List α} (h : ¬ ∀ x ∈ xs, p x) :
    ∃ before x after, xs = before ++ x :: after ∧ (∀ y ∈ before, p y) ∧ ¬ p x := by
  classical
  obtain ⟨x, hx⟩ : ∃ x, xs.find? (fun x => !p x) = some x := by
    rw [← Option.isSome_iff_exists, List.find?_isSome]
    simpa using h
  obtain ⟨hfails, before, after, hsplit, hbefore⟩ := List.find?_eq_some_iff_append.mp hx
  exact ⟨before, x, after, hsplit, by simpa using hbefore, by simpa using hfails⟩

/-- Each function comes under one of the rules. -/
theorem exists_settles (f : Function) : ∃ result, Settles f result := by
  by_cases named : f.AllNamed
  · by_cases found : ∀ mention ∈ f.mentions, mention.Names f.namedParams
    · by_cases apart : f.has .event = true ∧ f.has .inlineResponse = true
      · exact ⟨_, .clash named found apart.1 apart.2⟩
      · exact ⟨_, .remote named found apart⟩
    · obtain ⟨before, mention, after, split, hbefore, hmention⟩ :=
        exists_first_of_not_forall found
      exact ⟨_, .missing named split hbefore hmention⟩
  · obtain ⟨before, param, after, split, hbefore, hparam⟩ := exists_first_of_not_forall named
    exact ⟨_, .unnamed split hbefore (Decidable.not_not.mp hparam)⟩

/-- The directives of a function are what its notes give. Under them a function is what the rules say
and nothing else. It is a remote function exactly when each parameter has a name, each argument of
its directives that is to name a parameter names one, and it is not an event whose response is to be
decoded in place. -/
theorem ofFunction_settled (f : Function) :
    (∀ directives, f.DirectedBy directives ↔ directives = f.directives) ∧
      (∀ result, ofFunction f = result ↔ Settles f result) ∧
      ((∃ remote, ofFunction f = .ok remote) ↔
        f.AllNamed ∧ (∀ mention ∈ f.mentions, mention.Names f.namedParams) ∧
          ¬ (f.has .event = true ∧ f.has .inlineResponse = true)) := by
  have hsettles : ∀ result, ofFunction f = result ↔ Settles f result := by
    intro result
    refine ⟨?_, ofFunction_eq_of_settles⟩
    rintro rfl
    obtain ⟨result, h⟩ := exists_settles f
    rwa [ofFunction_eq_of_settles h]
  refine ⟨fun _ => Function.directedBy_iff, hsettles, ?_, ?_⟩
  · rintro ⟨remote, h⟩
    cases (hsettles _).mp h with
    | remote named found apart => exact ⟨named, found, apart⟩
  · rintro ⟨named, found, apart⟩
    exact ⟨_, (hsettles _).mpr (.remote named found apart)⟩

/-- One directive is a note of its own, and two are arguments of another note, whose last argument is
no directive. -/
example :
    let int := CType.base (.builtin "int") .plain
    let notes : List Note :=
      [⟨"OUT", ["a"], rfl⟩, ⟨"rpc", [" STR ( b, ) ", "IGNORE_RETURN", "b"], rfl⟩]
    ofFunction ⟨"get", int, ⟨[⟨some "a", int⟩, ⟨some "b", int⟩], false⟩, .empty, default, default,
        false, none, notes⟩ =
      .ok ⟨.of "get", int, [⟨"a", int, .output, false⟩, ⟨"b", int, .input, true⟩], false, false⟩ := by
  rfl

end RemoteFunction

end RemoteCalls
