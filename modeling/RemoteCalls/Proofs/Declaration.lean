import RemoteCalls.Declaration

/-!
# Definitions and their places

A record of a function or a structure is consistent if it counts as defined just where the place of
its definition is known. What happens to a record on its way into the catalog keeps it consistent.
-/

namespace RemoteCalls

/-- A function counts as defined just if the place of its body is known. -/
def Function.Consistent (f : Function) : Prop := f.isDefined = f.definition.isSome

/-- A structure counts as defined just if the place of its field list is known. -/
def Structure.Consistent (s : Structure) : Prop := s.isDefined = s.definition.isSome

/-- A second sighting defines a function only at a place. -/
theorem Function.Consistent.merge {f : Function} (hf : f.Consistent) (newer : Function) :
    (f.merge newer).record.Consistent := by
  unfold Function.merge
  split
  · split
    · exact hf
    · exact hf
  · split
    · rfl
    · exact hf

/-- A second sighting defines a structure only at a place. -/
theorem Structure.Consistent.merge {s : Structure} (hs : s.Consistent) (newer : Structure) :
    (s.merge newer).record.Consistent := by
  unfold Structure.merge
  split
  · split
    · exact hs
    · exact hs
  · split
    · rfl
    · exact hs

namespace Declaration

/-- The kinds of declarations without definitions have nothing to be consistent about. -/
def Consistent : Declaration → Prop
  | function f => f.Consistent
  | struct s => s.Consistent
  | _ => True

theorem Consistent.annotate {d : Declaration} (hd : d.Consistent) (notes : List Note) :
    (d.annotate notes).Consistent := by
  cases d <;> exact hd

theorem Consistent.define {d : Declaration} (hd : d.Consistent) (notes : List Note) :
    (d.define notes).Consistent := by
  cases d with
  | function f => rfl
  | _ => exact hd

/-- All of some declarations are consistent. -/
def AllConsistent (found : List Declaration) : Prop := ∀ d ∈ found, d.Consistent

theorem allConsistent_nil : AllConsistent [] := by
  intro d hd
  cases hd

theorem allConsistent_singleton {d : Declaration} (h : d.Consistent) : AllConsistent [d] := by
  intro other hother
  rw [List.mem_singleton.mp hother]
  exact h

theorem AllConsistent.append {found more : List Declaration} (h : AllConsistent found)
    (hmore : AllConsistent more) : AllConsistent (found ++ more) := by
  intro d hd
  rcases List.mem_append.mp hd with hd | hd
  · exact h d hd
  · exact hmore d hd

end Declaration

end RemoteCalls
