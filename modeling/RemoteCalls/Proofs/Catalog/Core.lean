import RemoteCalls.Proofs.Catalog.Table

/-!
# What functions and structures share

A function and a structure take in later sightings in the same way, but for what a definition brings
and for the storage words, which a structure does not have. What both have is the core of the record,
and the record merges as its core does. Facts about merging that hold of cores hold of both kinds.
-/

namespace RemoteCalls

/-- The kinds of records that can be defined, not just declared. -/
class Definable (α : Type) [Record α] where
  isDefined : α → Bool

instance : Definable Function := ⟨Function.isDefined⟩

instance : Definable Structure := ⟨Structure.isDefined⟩

/-- The core of a record that can be defined: where it was first seen, its definition, its storage
words and its notes, beside the content that a definition brings. -/
structure Core (β : Type) where
  content : β
  storage : Storage
  place : Place
  isDefined : Bool
  definition : Option Place
  notes : List Note

namespace Core

variable {β : Type} {core newer : Core β}

/-- A definition stands where it is sighted. -/
def InPlace (core : Core β) : Prop :=
  core.definition = if core.isDefined then some core.place else none

/-- Takes in a later sighting. A second definition at another place changes nothing. -/
def merge (core newer : Core β) : Merged (Core β) :=
  if newer.isDefined && core.isDefined then
    if core.definition.any (·.same newer.place) then
      ⟨{ core with notes := Note.union core.notes newer.notes }, none⟩
    else ⟨core, some (core.definition.getD core.place)⟩
  else
    let core := { core with
      storage := core.storage.union newer.storage
      notes := Note.union core.notes newer.notes }
    if newer.isDefined then
      ⟨{ core with
        content := newer.content
        isDefined := true
        definition := some newer.place }, none⟩
    else ⟨core, none⟩

/-- A sighting without a definition. -/
theorem merge_of_not_defined (h : newer.isDefined = false) :
    core.merge newer =
      ⟨{ core with
        storage := core.storage.union newer.storage
        notes := Note.union core.notes newer.notes }, none⟩ := by
  simp [merge, h]

/-- The first definition. -/
theorem merge_of_first (h : newer.isDefined = true) (hnone : core.isDefined = false) :
    core.merge newer =
      ⟨{ core with
        content := newer.content
        storage := core.storage.union newer.storage
        notes := Note.union core.notes newer.notes
        isDefined := true
        definition := some newer.place }, none⟩ := by
  simp [merge, h, hnone]

/-- The definition once more. -/
theorem merge_of_same (h : newer.isDefined = true) (hsome : core.isDefined = true)
    (hplace : core.definition.any (·.same newer.place) = true) :
    core.merge newer = ⟨{ core with notes := Note.union core.notes newer.notes }, none⟩ := by
  simp [merge, h, hsome, hplace]

/-- Another definition. -/
theorem merge_of_other (h : newer.isDefined = true) (hsome : core.isDefined = true)
    (hplace : core.definition.any (·.same newer.place) = false) :
    core.merge newer = ⟨core, some (core.definition.getD core.place)⟩ := by
  simp [merge, h, hsome, hplace]

end Core

/-- Records that merge as their cores do, and are their cores with a name and an origin. -/
class HasCore (α : Type) (β : outParam Type) [Record α] [Definable α] where
  core : α → Core β
  place_core : ∀ record : α, (core record).place = Record.place record
  isDefined_core : ∀ record : α, (core record).isDefined = Definable.isDefined record
  merge_core : ∀ record newer : α, (core record).merge (core newer) =
    ⟨core (Record.merge record newer).record, (Record.merge record newer).conflict⟩
  eq_of_core : ∀ record other : α, core record = core other →
    Record.name record = Record.name other → Record.origin record = Record.origin other →
    record = other

/-- A record takes in a sighting if its core does so and its name and origin are kept. -/
theorem HasCore.merge_eq {α β : Type} [Record α] [LawfulRecord α] [Definable α] [HasCore α β]
    {record newer merged : α} {conflict : Option Place}
    (h : (core record).merge (core newer) = ⟨core merged, conflict⟩)
    (hname : Record.name merged = Record.name record)
    (horigin : Record.origin merged = Record.origin record) :
    Record.merge record newer = ⟨merged, conflict⟩ := by
  rw [merge_core] at h
  obtain ⟨hcore, hconflict⟩ := Merged.mk.inj h
  have hrecord : (Record.merge record newer).record = merged :=
    eq_of_core _ _ hcore ((LawfulRecord.name_merge record newer).trans hname.symm)
      ((LawfulRecord.origin_merge record newer).trans horigin.symm)
  rw [← hconflict, ← congrArg (Merged.mk · _) hrecord]

instance : HasCore Function (CType × ParamList) where
  core f := ⟨(f.result, f.params), f.storage, f.place, f.isDefined, f.definition, f.notes⟩
  place_core _ := rfl
  isDefined_core _ := rfl
  merge_core f newer := by
    simp only [Record.merge, Function.merge, Core.merge]
    split <;> split <;> rfl
  eq_of_core f g hcore hname horigin := by
    cases f
    cases g
    cases hcore
    cases hname
    cases horigin
    rfl

instance : HasCore Structure (List Field) where
  core s := ⟨s.fields, .empty, s.place, s.isDefined, s.definition, s.notes⟩
  place_core _ := rfl
  isDefined_core _ := rfl
  merge_core s newer := by
    simp only [Record.merge, Structure.merge, Core.merge]
    split <;> split <;> rfl
  eq_of_core s t hcore hname horigin := by
    cases s
    cases t
    cases hcore
    cases hname
    cases horigin
    rfl

end RemoteCalls
