import Mathlib.Data.Nat.PSub

/-!
# Rows by index

A row can be read by index instead of being taken apart: a loop looks at what stands at an index and
goes on from a later one. Here every step that needs care is checked. An index has to be one of the
row or of its end, a slice has to lie inside of the row, a counter has to be above zero when it is
counted down, and each turn of a loop has to move on. A step that is not allowed gives `none`.
-/

namespace RemoteCalls.Indexed

variable {α β σ : Type}

/-! ## Slots, slices and loops -/

/-- What stands at an index of a row: an item, or nothing at the end of the row. -/
def slot? (row : List α) (i : Nat) : Option (Option α) :=
  if i ≤ row.length then some row[i]? else none

/-- The items of a row from one index up to another one. -/
def slice? (row : List α) (start stop : Nat) : Option (List α) :=
  if start ≤ stop ∧ stop ≤ row.length then some (row.extract start stop) else none

/-- The item in front of an index, which must not be the first one. -/
def before? (row : List α) (i : Nat) : Option α := do
  row[← i.ppred]?

/-- What a turn of a loop leads to: the next turn at another index, or the end of the loop. -/
inductive Turn (σ β : Type) where
  | go (next : Nat) (state : σ)
  | stop (result : β)

/-- A loop over the indices of a row, which carries a state from turn to turn. A turn has to move on
unless the loop ends with it, and there is nowhere to move on to from the end of the row. -/
def loop (turn : Nat → σ → Option α → Option (Turn σ β)) (row : List α) (i : Nat) (state : σ) :
    Option β :=
  match slot? row i with
  | none => none
  | some slot =>
    match turn i state slot with
    | none => none
    | some (.stop result) => some result
    | some (.go next state) =>
      if i < next ∧ i < row.length then loop turn row next state else none
termination_by row.length - i
decreasing_by omega

theorem slot?_of_le {row : List α} {i : Nat} (h : i ≤ row.length) :
    slot? row i = some (row.drop i).head? := by
  rw [slot?, if_pos h, List.head?_drop]

theorem length_lt_of_drop {row rest : List α} {item : α} {i : Nat}
    (h : row.drop i = item :: rest) : i < row.length := by
  have hlength := congrArg List.length h
  rw [List.length_drop, List.length_cons] at hlength
  omega

theorem drop_succ_of_drop {row rest : List α} {item : α} {i : Nat}
    (h : row.drop i = item :: rest) : row.drop (i + 1) = rest := by
  rw [← List.drop_drop, h]
  rfl

theorem before?_succ {row rest : List α} {item : α} {i : Nat} (h : row.drop i = item :: rest) :
    before? row (i + 1) = some item := by
  change row[i]? = some item
  rw [← List.head?_drop, h]
  rfl

theorem slice?_of_drop {row inner rest : List α} {i : Nat} (hi : i ≤ row.length)
    (h : row.drop i = inner ++ rest) : slice? row i (i + inner.length) = some inner := by
  have hlength := congrArg List.length h
  rw [List.length_drop, List.length_append] at hlength
  rw [slice?, if_pos ⟨Nat.le_add_right _ _, by omega⟩, List.extract_eq_take_drop, h,
    Nat.add_sub_cancel_left, List.take_left]

section

variable {turn : Nat → σ → Option α → Option (Turn σ β)} {row : List α} {i : Nat} {state : σ}

/-- A loop ends with the turn that ends it. -/
theorem loop_of_stop {result : β} (hi : i ≤ row.length)
    (hturn : turn i state (row.drop i).head? = some (.stop result)) :
    loop turn row i state = some result := by
  rw [loop, slot?_of_le hi]
  simp only [hturn]

/-- A loop goes on from where a turn leads to. -/
theorem loop_of_go {item : α} {rest : List α} {next : Nat} {state' : σ}
    (hrow : row.drop i = item :: rest)
    (hturn : turn i state (some item) = some (.go next state')) (hnext : i < next) :
    loop turn row i state = loop turn row next state' := by
  have hi := length_lt_of_drop hrow
  rw [loop, slot?_of_le (Nat.le_of_lt hi), hrow]
  simp only [List.head?_cons, hturn]
  rw [if_pos ⟨hnext, hi⟩]

end

/-! ## A run of items -/

/-- A turn of the way over items that all pass a test. -/
def runTurn (passes : α → Bool) (i : Nat) (_ : Unit) : Option α → Option (Turn Unit Nat)
  | none => some (.stop i)
  | some item => if passes item then some (.go (i + 1) ()) else some (.stop i)

theorem loop_runTurn (passes : α → Bool) (row : List α) {i : Nat} (hi : i ≤ row.length) :
    loop (runTurn passes) row i () = some (i + ((row.drop i).takeWhile passes).length) := by
  induction hrow : row.drop i generalizing i with
  | nil =>
    refine loop_of_stop hi ?_
    rw [hrow]
    rfl
  | cons item rest ih =>
    by_cases hitem : passes item = true
    · have hturn : runTurn passes i () (some item) = some (.go (i + 1) ()) := if_pos hitem
      rw [loop_of_go hrow hturn (Nat.lt_succ_self i),
        ih (length_lt_of_drop hrow) (drop_succ_of_drop hrow), List.takeWhile_cons_of_pos hitem,
        List.length_cons]
      congr 1
      omega
    · rw [List.takeWhile_cons_of_neg hitem]
      refine loop_of_stop hi ?_
      rw [hrow]
      exact if_neg hitem

/-- A run of items ends where the items behind it begin. -/
theorem drop_run (passes : α → Bool) {row : List α} {i : Nat} (hi : i ≤ row.length) :
    row.drop (i + ((row.drop i).takeWhile passes).length) = (row.drop i).dropWhile passes ∧
      i + ((row.drop i).takeWhile passes).length ≤ row.length := by
  have hsplit := List.takeWhile_append_dropWhile (p := passes) (l := row.drop i)
  constructor
  · calc row.drop (i + ((row.drop i).takeWhile passes).length)
        = (row.drop i).drop ((row.drop i).takeWhile passes).length := List.drop_drop.symm
      _ = ((row.drop i).takeWhile passes ++ (row.drop i).dropWhile passes).drop
            ((row.drop i).takeWhile passes).length := by rw [hsplit]
      _ = (row.drop i).dropWhile passes := List.drop_left
  · have hlength := congrArg List.length hsplit
    rw [List.length_append, List.length_drop] at hlength
    omega

end RemoteCalls.Indexed
