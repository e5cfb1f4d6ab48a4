import RemoteCalls.Proofs.Outline.Reading

/-!
# The readers that all others are built from

Each reader that looks at the lexemes in front, takes some of them or notes something down reads as
far as it says, and no further.
-/

namespace RemoteCalls.Reader

variable {α β : Type} {closed : Bool} {n : Nat} {Q : α → Nat → Prop}

/-- In an ended row something is in front, and stays there. -/
theorem headToken_append {row : List Lexeme} (h : row ≠ []) (behind : List Lexeme) :
    headToken (row ++ behind) = headToken row := by
  cases row with
  | nil => exact absurd rfl h
  | cons lexeme rest => rfl

theorem headPosition_append {row : List Lexeme} (h : row ≠ []) (behind : List Lexeme)
    (finish finish' : Position) :
    headPosition finish (row ++ behind) = headPosition finish' row := by
  cases row with
  | nil => exact absurd rfl h
  | cons lexeme rest => rfl

/-! ### Looking -/

/-- A reader that only looks sees the same if what it looks at does not depend on the end. -/
theorem Reads.of_look {m : Reader α} (look : Setting → Cursor → α)
    (hm : ∀ setting cursor, m setting cursor = .ok (look setting cursor, cursor))
    (hlook : ∀ setting cursor finish behind, Ended cursor.rest →
      look (setting.endingAt finish) (cursor.extend behind) = look setting cursor)
    (hQ : ∀ setting cursor, cursor.rest.length = n → Q (look setting cursor) n) :
    Reads false n m m Q := by
  intro setting cursor hcursor hn
  rw [hm]
  refine ⟨hcursor, ?_, List.suffix_refl _, nofun, ?_⟩
  · rw [hn]
    exact hQ setting cursor hn
  · intro finish behind hbehind
    rw [hm, hlook setting cursor finish behind hbehind.1]

theorem pure_reads {a : α} (h : Q a n) : Reads false n (pure a) (pure a) Q :=
  .of_look (fun _ _ => a) (fun _ _ => rfl) (fun _ _ _ _ _ => rfl) fun _ _ _ => h

theorem token_reads :
    Reads false n token token fun t k => k = n ∧ (t ≠ .endOfFile → 0 < n) := by
  refine .of_look (fun _ cursor => headToken cursor.rest) (fun _ _ => rfl) ?_ ?_
  · intro setting cursor finish behind hended
    exact headToken_append hended.ne_nil behind
  · intro setting cursor hn
    refine ⟨rfl, ?_⟩
    intro htoken
    rw [← hn]
    refine List.length_pos_iff.mpr ?_
    intro hnil
    exact htoken (congrArg headToken hnil)

theorem position_reads : Reads false n position position fun _ k => k = n := by
  refine .of_look (fun setting cursor => headPosition setting.finish cursor.rest)
    (fun _ _ => rfl) ?_ (fun _ _ _ => rfl)
  intro setting cursor finish behind hended
  exact headPosition_append hended.ne_nil behind _ _

theorem placeAt_reads (position : Position) :
    Reads false n (placeAt position) (placeAt position) fun _ k => k = n :=
  .of_look (fun setting _ => setting.place position) (fun _ _ => rfl) (fun _ _ _ _ _ => rfl)
    fun _ _ _ => rfl

theorem origin_reads : Reads false n origin origin fun _ k => k = n :=
  .of_look (fun setting _ => setting.origin) (fun _ _ => rfl) (fun _ _ _ _ _ => rfl)
    fun _ _ _ => rfl

theorem noteRules_reads : Reads false n noteRules noteRules fun _ k => k = n :=
  .of_look (fun setting _ => setting.rules) (fun _ _ => rfl) (fun _ _ _ _ _ => rfl)
    fun _ _ _ => rfl

theorem kind_reads : Reads false n kind kind fun _ k => k = n :=
  .of_look (fun _ cursor => cursor.kind) (fun _ _ => rfl) (fun _ _ _ _ _ => rfl)
    fun _ _ _ => rfl

/-- A look at two tokens does not tell what is behind a semicolon or a closing brace. -/
structure Foreseeing (look : Token → Token → Bool) : Prop where
  endOfFile : ∀ next, look .endOfFile next = false
  semicolon : ∀ next, look .semicolon next = false
  closeBrace : ∀ next, look .closeBrace next = false

/-- A look at the two tokens in front of an ended row sees no further than the row. -/
theorem Foreseeing.look_append {look : Token → Token → Bool} (hlook : Foreseeing look)
    {row : List Lexeme} (hended : Ended row) (behind : List Lexeme) :
    look (headToken (row ++ behind)) (headToken (row ++ behind).tail) =
      look (headToken row) (headToken row.tail) := by
  obtain ⟨front, last, rfl, hlast⟩ := hended
  cases front with
  | nil =>
    change look last.token _ = look last.token _
    rcases hlast with hlast | hlast
    · rw [hlast, hlook.semicolon, hlook.semicolon]
    · rw [hlast, hlook.closeBrace, hlook.closeBrace]
  | cons first front =>
    change look first.token (headToken (front ++ [last] ++ behind)) =
      look first.token (headToken (front ++ [last]))
    rw [headToken_append (by simp) behind]

theorem ahead_reads {look : Token → Token → Bool} (hlook : Foreseeing look) :
    Reads false n (ahead look) (ahead look) fun b k => k = n ∧ (b = true → 0 < n) := by
  refine .of_look (fun _ cursor => look (headToken cursor.rest) (headToken cursor.rest.tail))
    (fun _ _ => rfl) ?_ ?_
  · intro setting cursor finish behind hended
    exact hlook.look_append hended behind
  · intro setting cursor hn
    refine ⟨rfl, ?_⟩
    intro hahead
    rw [← hn]
    refine List.length_pos_iff.mpr ?_
    intro hnil
    rw [hnil] at hahead
    exact Bool.false_ne_true ((hlook.endOfFile _).symm.trans hahead)

/-! ### Failing -/

theorem malformed_reads (reason : Reason) (wide : Reader α) :
    Reads closed n (malformed reason) wide Q := by
  intro setting cursor hcursor hn
  rfl

theorem unexpected_reads (what : Expectation) (wide : Reader α) :
    Reads closed n (unexpected what) wide Q := by
  intro setting cursor hcursor hn
  rfl

theorem fatal_reads (position : Position) (reason : Reason) (wide : Reader α) :
    Reads closed n (fatal position reason) wide Q := by
  intro setting cursor hcursor hn
  trivial

/-! ### Taking -/

/-- A reader that takes a known number of lexemes off a row in front. -/
theorem advance_reads : Reads false n advance advance fun _ k => k = n - 1 := by
  intro setting cursor hcursor hn
  refine ⟨hcursor, ?_, List.tail_suffix _, nofun, ?_⟩
  · change cursor.rest.tail.length = n - 1
    rw [List.length_tail, hn]
  · intro finish behind hbehind
    have htail : cursor.rest.tail ≠ [] := hbehind.1.ne_nil
    cases hrest : cursor.rest with
    | nil => exact absurd (by rw [hrest]; rfl) htail
    | cons lexeme rest =>
      change Except.ok ((), Cursor.mk (cursor.rest ++ behind).tail cursor.kind cursor.tags) =
        Except.ok ((), Cursor.mk (cursor.rest.tail ++ behind) cursor.kind cursor.tags)
      rw [hrest]
      rfl

theorem advance_closes (h : 0 < n) : Reads true n advance advance fun _ k => k + 1 = n := by
  intro setting cursor hcursor hn
  cases hrest : cursor.rest with
  | nil =>
    rw [hrest] at hn
    exact absurd hn (Nat.ne_of_lt h)
  | cons lexeme rest =>
    refine ⟨hcursor, ?_, List.tail_suffix _, ?_, ?_⟩
    · change cursor.rest.tail.length + 1 = n
      rw [← hn, hrest]
      rfl
    · intro _
      change cursor.rest.tail.length < cursor.rest.length
      rw [hrest]
      exact Nat.lt_succ_self _
    · intro finish behind _
      change Except.ok ((), Cursor.mk (cursor.rest ++ behind).tail cursor.kind cursor.tags) =
        Except.ok ((), Cursor.mk (cursor.rest.tail ++ behind) cursor.kind cursor.tags)
      rw [hrest]
      rfl

theorem skipQualifiers_reads : Reads false n skipQualifiers skipQualifiers fun _ k => k ≤ n := by
  intro setting cursor hcursor hn
  refine ⟨hcursor, hn ▸ (List.dropWhile_suffix _).length_le, List.dropWhile_suffix _, nofun, ?_⟩
  intro finish behind hbehind
  have hrest := hbehind.1.ne_nil
  change Except.ok ((), Cursor.mk (List.dropWhile _ (cursor.rest ++ behind)) cursor.kind
    cursor.tags) = Except.ok ((), Cursor.mk (_ ++ behind) cursor.kind cursor.tags)
  rw [List.dropWhile_append, if_neg]
  simpa using hrest

theorem accept_apply (wanted : Token) (setting : Setting) (cursor : Cursor) :
    accept wanted setting cursor =
      if headToken cursor.rest = wanted then .ok (true, { cursor with rest := cursor.rest.tail })
      else .ok (false, cursor) := by
  change (if headToken cursor.rest = wanted then _ else _ : Reader Bool) setting cursor = _
  by_cases h : headToken cursor.rest = wanted
  · rw [if_pos h, if_pos h]
    rfl
  · rw [if_neg h, if_neg h]
    rfl

theorem expect_apply (wanted : Token) (what : Expectation) (setting : Setting) (cursor : Cursor) :
    expect wanted what setting cursor =
      if headToken cursor.rest = wanted then .ok ((), { cursor with rest := cursor.rest.tail })
      else unexpected what setting cursor := by
  unfold expect
  rw [bind_apply, accept_apply]
  by_cases h : headToken cursor.rest = wanted
  · rw [if_pos h, if_pos h]
    rfl
  · rw [if_neg h, if_neg h]
    rfl

/-- What has to be there is there, whatever is behind it. -/
theorem expect_reads {wanted : Token} (h : wanted ≠ .endOfFile) (what : Expectation) :
    Reads true n (expect wanted what) (expect wanted what) fun _ k => k + 1 = n := by
  intro setting cursor hcursor hn
  rw [expect_apply]
  by_cases hhead : headToken cursor.rest = wanted
  · rw [if_pos hhead]
    rcases cursor with ⟨_ | ⟨lexeme, rest⟩, kind, tags⟩
    · exact absurd hhead.symm h
    · refine ⟨hcursor, hn, List.suffix_cons _ _, fun _ => Nat.lt_succ_self _, ?_⟩
      intro finish behind _
      rw [expect_apply]
      exact if_pos hhead
  · rw [if_neg hhead]
    exact unexpected_reads what (expect wanted what) setting cursor hcursor hn

theorem group_apply (setting : Setting) (cursor : Cursor) :
    group setting cursor =
      match Lexeme.splitGroup 0 cursor.rest.tail with
      | some (inner, behind) => .ok (inner, { cursor with rest := behind })
      | none =>
        .error (.fatal ⟨setting.place (headPosition setting.finish cursor.rest), none,
          .unbalancedGroup (headToken cursor.rest)⟩) := by
  change (match Lexeme.splitGroup 0 cursor.rest.tail with
    | some (inner, behind) => _
    | none => _ : Reader (List Lexeme)) setting { cursor with rest := cursor.rest.tail } = _
  cases Lexeme.splitGroup 0 cursor.rest.tail with
  | none => rfl
  | some split => rfl

theorem group_eq_ok {setting : Setting} {cursor next : Cursor} {inner : List Lexeme}
    (h : group setting cursor = .ok (inner, next)) :
    ∃ behind, Lexeme.splitGroup 0 cursor.rest.tail = some (inner, behind) ∧
      next = { cursor with rest := behind } := by
  rw [group_apply] at h
  cases hsplit : Lexeme.splitGroup 0 cursor.rest.tail with
  | none =>
    rw [hsplit] at h
    cases h
  | some split =>
    rw [hsplit] at h
    cases h
    exact ⟨_, rfl, rfl⟩

/-- A group ends with a delimiter of its own. -/
theorem group_reads : Reads closed n group group fun _ k => k + 2 ≤ n := by
  intro setting cursor hcursor hn
  rw [group_apply]
  cases hsplit : Lexeme.splitGroup 0 cursor.rest.tail with
  | none => trivial
  | some split =>
    obtain ⟨inner, after⟩ := split
    obtain ⟨closer, -, htail⟩ := Lexeme.splitGroup_eq_some hsplit
    rcases cursor with ⟨_ | ⟨opener, rest⟩, kind, tags⟩
    · simp at htail
    · change rest = inner ++ closer :: after at htail
      have hlength : rest.length = inner.length + (after.length + 1) := by
        rw [htail, List.length_append, List.length_cons]
      have hn' : rest.length + 1 = n := hn
      refine ⟨hcursor, ?_, ?_, ?_, ?_⟩
      · change after.length + 2 ≤ n
        omega
      · change after <:+ opener :: rest
        exact ⟨opener :: inner ++ [closer], by rw [htail]; simp⟩
      · intro _
        change after.length < rest.length + 1
        omega
      · intro finish behind _
        have hsplit' : Lexeme.splitGroup 0 (rest ++ behind) = some (inner, after ++ behind) :=
          Lexeme.splitGroup_append hsplit behind
        have htail' : (Cursor.extend ⟨opener :: rest, kind, tags⟩ behind).rest.tail =
            rest ++ behind := rfl
        rw [group_apply, htail', hsplit']
        rfl

theorem expression_apply (setting : Setting) (cursor : Cursor) :
    expression setting cursor =
      match Lexeme.splitExpression 0 (headPosition setting.finish cursor.rest) cursor.rest with
      | .error opened => fatal opened .unbalancedInitializer setting cursor
      | .ok (inner, behind) =>
        if (Lexeme.join inner).isEmpty then
          unexpected .expression setting { cursor with rest := behind }
        else .ok (Lexeme.join inner, { cursor with rest := behind }) := by
  change (match Lexeme.splitExpression 0 (headPosition setting.finish cursor.rest) cursor.rest with
    | .error opened => _
    | .ok (inner, behind) => _ : Reader String) setting cursor = _
  cases Lexeme.splitExpression 0 (headPosition setting.finish cursor.rest) cursor.rest with
  | error opened => rfl
  | ok split =>
    obtain ⟨inner, behind⟩ := split
    change (if (Lexeme.join inner).isEmpty then _ else _ : Reader String) setting
      { cursor with rest := behind } = _
    by_cases h : (Lexeme.join inner).isEmpty
    · simp only [h, if_true]
      rfl
    · simp only [h]
      rfl

/-- An expression that is read is the text of a row which is not empty. -/
theorem expression_eq_ok {setting : Setting} {cursor next : Cursor} {text : String}
    (h : expression setting cursor = .ok (text, next)) :
    ∃ inner behind, Lexeme.splitExpression 0 (headPosition setting.finish cursor.rest) cursor.rest =
        .ok (inner, behind) ∧ (Lexeme.join inner).isEmpty = false ∧ text = Lexeme.join inner ∧
      next = { cursor with rest := behind } := by
  rw [expression_apply] at h
  cases hsplit : Lexeme.splitExpression 0 (headPosition setting.finish cursor.rest) cursor.rest with
  | error opened =>
    rw [hsplit] at h
    cases h
  | ok split =>
    rw [hsplit] at h
    dsimp only at h
    split at h
    · cases h
    · next hempty =>
      cases h
      exact ⟨_, _, rfl, Bool.eq_false_iff.mpr hempty, rfl, rfl⟩

theorem expression_reads : Reads false n expression expression fun _ k => k ≤ n := by
  intro setting cursor hcursor hn
  rw [expression_apply]
  cases hsplit : Lexeme.splitExpression 0 (headPosition setting.finish cursor.rest)
      cursor.rest with
  | error opened => trivial
  | ok split =>
    obtain ⟨inner, after⟩ := split
    have hrow := Lexeme.splitExpression_eq_ok hsplit
    by_cases hempty : (Lexeme.join inner).isEmpty
    · simp only [hempty, if_true]
      rfl
    · simp only [hempty]
      refine ⟨hcursor, ?_, ⟨inner, hrow.symm⟩, nofun, ?_⟩
      · rw [← hn, hrow, List.length_append]
        exact Nat.le_add_left _ _
      · intro finish behind hbehind
        have hafter : after ≠ [] := hbehind.1.ne_nil
        have hne : cursor.rest ≠ [] := by
          rw [hrow]
          simp [hafter]
        have hsplit' : Lexeme.splitExpression 0
            (headPosition (setting.endingAt finish).finish (cursor.extend behind).rest)
            (cursor.extend behind).rest = .ok (inner, after ++ behind) := by
          rw [Cursor.extend, headPosition_append hne behind _ setting.finish]
          exact Lexeme.splitExpression_append hsplit hafter behind
        rw [expression_apply, hsplit']
        simp only [hempty]
        rfl

theorem accept_reads {wanted : Token} (h : wanted ≠ .endOfFile) :
    Reads false n (accept wanted) (accept wanted) fun b k => k + b.toNat = n := by
  unfold accept
  apply token_reads.bind
  rintro t k - ⟨rfl, hpos⟩
  by_cases ht : t = wanted
  · rw [if_pos ht]
    subst ht
    apply advance_reads.bind
    rintro - m - rfl
    refine pure_reads ?_
    have := hpos h
    rw [Bool.toNat_true]
    omega
  · rw [if_neg ht]
    exact pure_reads rfl

/-! ### Choices -/

/-- A choice is made in the same way whatever is behind, if it depends on nothing behind. -/
theorem Reads.ite {c : Prop} [Decidable c] {yes no yes' no' : Reader α}
    (hyes : c → Reads closed n yes yes' Q) (hno : ¬c → Reads closed n no no' Q) :
    Reads closed n (if c then yes else no) (if c then yes' else no') Q := by
  by_cases h : c
  · rw [if_pos h, if_pos h]
    exact hyes h
  · rw [if_neg h, if_neg h]
    exact hno h

/-- A choice by the token in front, which is taken if it is the wanted one. -/
theorem Reads.ite_accept {wanted : Token} (h : wanted ≠ .endOfFile) {yes no yes' no' : Reader α}
    (hyes : ∀ k, k + 1 = n → Reads closed k yes yes' Q) (hno : Reads closed n no no' Q) :
    Reads closed n (do if ← accept wanted then yes else no)
      (do if ← accept wanted then yes' else no') Q := by
  apply (accept_reads h).bind
  intro taken k hk htaken
  cases taken with
  | false =>
    have hkn : k = n := htaken
    subst hkn
    exact hno
  | true => exact hyes k htaken

/-- A choice by the token in front. -/
theorem Reads.ite_token {wanted : Token} (h : wanted ≠ .endOfFile) {yes no yes' no' : Reader α}
    (hyes : 0 < n → Reads closed n yes yes' Q) (hno : Reads closed n no no' Q) :
    Reads closed n (do if (← token) = wanted then yes else no)
      (do if (← token) = wanted then yes' else no') Q := by
  apply token_reads.bind
  rintro t k - ⟨rfl, hpos⟩
  refine .ite ?_ (fun _ => hno)
  rintro rfl
  exact hyes (hpos h)

/-- A choice by the two tokens in front. -/
theorem Reads.ite_ahead {look : Token → Token → Bool} (hlook : Foreseeing look)
    {yes no yes' no' : Reader α} (hyes : 0 < n → Reads closed n yes yes' Q)
    (hno : Reads closed n no no' Q) :
    Reads closed n (do if ← ahead look then yes else no)
      (do if ← ahead look then yes' else no') Q := by
  apply (ahead_reads hlook).bind
  rintro b k - ⟨rfl, hpos⟩
  exact .ite (fun hb => hyes (hpos hb)) (fun _ => hno)

/-! ### Small compositions -/

theorem expressionBehind?_reads {mark : Token} (h : mark ≠ .endOfFile) :
    Reads false n (expressionBehind? mark) (expressionBehind? mark) fun _ k => k ≤ n := by
  unfold expressionBehind?
  refine .ite_accept h ?_ ?_
  · intro k hk
    refine expression_reads.map ?_
    intro _ m _ hm
    omega
  · exact pure_reads (Nat.le_refl n)

theorem name?_reads : Reads false n name? name? fun _ k => k ≤ n := by
  unfold name?
  apply token_reads.bind
  rintro t k - ⟨rfl, -⟩
  cases t with
  | identifier name =>
    apply advance_reads.bind
    intro _ m hm _
    exact pure_reads hm
  | _ => exact pure_reads (Nat.le_refl k)

theorem skipAttribute_reads (h : 0 < n) :
    Reads false n skipAttribute skipAttribute fun _ k => k < n := by
  unfold skipAttribute
  apply advance_reads.bind
  rintro _ k - rfl
  refine .ite_token (by decide) ?_ ?_
  · intro _
    rw [discard_eq]
    refine group_reads.map ?_
    intro _ m _ hm
    omega
  · exact pure_reads (Nat.sub_lt h Nat.one_pos)

/-- An attribute is taken off in each step, so that there are enough steps if there are more of them
than lexemes. -/
theorem skipAttributes_reads {steps steps' : Nat} (hn : n < steps) (hsteps : steps ≤ steps') :
    Reads false n (skipAttributes steps) (skipAttributes steps') fun _ k => k ≤ n := by
  induction steps generalizing n steps' with
  | zero => exact absurd hn (Nat.not_lt_zero n)
  | succ steps ih =>
    obtain ⟨more, rfl⟩ := Nat.exists_eq_add_of_le' (Nat.one_le_of_lt hsteps)
    unfold skipAttributes
    apply token_reads.bind
    rintro t k - ⟨rfl, hpos⟩
    refine .ite ?_ (fun _ => pure_reads (Nat.le_refl k))
    intro hattribute
    have hk : 0 < k := by
      refine hpos ?_
      rintro rfl
      exact Bool.false_ne_true hattribute
    apply (skipAttribute_reads hk).bind
    intro _ m _ hm
    refine (ih (by omega) (by omega)).mono ?_
    intro _ j _ hj
    omega

/-- A star is taken off in each step. -/
theorem pointers_reads {steps steps' : Nat} (hn : n < steps) (hsteps : steps ≤ steps')
    (count : Nat) :
    Reads false n (pointers steps count) (pointers steps' count) fun _ k => k ≤ n := by
  induction steps generalizing n steps' count with
  | zero => exact absurd hn (Nat.not_lt_zero n)
  | succ steps ih =>
    obtain ⟨more, rfl⟩ := Nat.exists_eq_add_of_le' (Nat.one_le_of_lt hsteps)
    unfold pointers
    refine .ite_accept (by decide) ?_ ?_
    · intro k hk
      apply skipQualifiers_reads.bind
      intro _ m hm _
      apply (skipAttributes_reads (by omega) hsteps).bind
      intro _ j hj _
      refine (ih (by omega) (by omega) _).mono ?_
      intro _ i _ hi
      omega
    · exact pure_reads (Nat.le_refl n)

end RemoteCalls.Reader
