import RemoteCalls.Text.Blank

/-!
# Notes

A note annotates a declaration: a name with arguments, kept as written. Notes are gathered in
first-seen order, each once.
-/

namespace RemoteCalls

/-- An annotation of a declaration: a name that is not blank, and its arguments. -/
structure Note where
  name : String
  arguments : List String
  name_not_blank : Text.isAllBlank name = false
deriving DecidableEq, Repr

namespace Note

/-- The note with the given name and arguments, unless the name is blank. -/
def of? (name : String) (arguments : List String) : Option Note :=
  if h : Text.isAllBlank name = false then some ⟨name, arguments, h⟩ else none

/-- What is said of a name that is blank. -/
def blankNameMessage : String := "annotation name must not be empty"

/-- The first argument, which most markers take as their subject. -/
def firstArgument? (a : Note) : Option String :=
  a.arguments.head?

/-- A note as it is written in front of a declaration. -/
def text (a : Note) : String :=
  "@" ++ a.name ++
    (if a.arguments.isEmpty then "" else "(" ++ ", ".intercalate a.arguments ++ ")")

/-- One more note behind the others, unless it is among them. -/
def insert (into : List Note) (a : Note) : List Note :=
  if a ∈ into then into else into ++ [a]

/-- The notes of `into`, and behind them those of `new` that are not yet there. -/
def union (into new : List Note) : List Note :=
  new.foldl insert into

@[simp] theorem union_nil (into : List Note) : union into [] = into := rfl

@[simp] theorem union_cons (into : List Note) (a : Note) (new : List Note) :
    union into (a :: new) = union (insert into a) new := rfl

theorem mem_insert {into : List Note} {a b : Note} :
    b ∈ insert into a ↔ b ∈ into ∨ b = a := by
  unfold insert
  split
  · constructor
    · exact Or.inl
    · rintro (h | rfl) <;> assumption
  · simp

/-- The union holds what is in either list. -/
theorem mem_union {into new : List Note} {b : Note} :
    b ∈ union into new ↔ b ∈ into ∨ b ∈ new := by
  induction new generalizing into with
  | nil => simp
  | cons a new ih => simp [ih, mem_insert, or_assoc]

/-- Notes that are already there add nothing. -/
theorem union_eq_self {into new : List Note} (h : ∀ a ∈ new, a ∈ into) :
    union into new = into := by
  induction new generalizing into with
  | nil => rfl
  | cons a new ih =>
    have ha : insert into a = into := by simp [insert, h a]
    rw [union_cons, ha, ih fun b hb => h b (List.mem_cons_of_mem _ hb)]

end Note

end RemoteCalls
