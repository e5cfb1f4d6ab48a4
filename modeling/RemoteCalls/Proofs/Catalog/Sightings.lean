import RemoteCalls.Proofs.Catalog.Table

/-!
# Looking up behind sightings

A sighting is visible under its own name alone: there it is taken into the record, or becomes the
record if there is none. So the record of a name behind any sightings is made of the sightings of
that name, and what stands between them does not matter.
-/

namespace RemoteCalls.Table

variable {α : Type} [Record α] {table : Table α}

/-- The position that the index gives to a name is that of a record with the name. -/
theorem WellFormed.getElem?_of_lookup (h : table.WellFormed) {name : String} {position : Nat}
    (hlookup : table.index.lookup name = some position) :
    ∃ record, table.records[position]? = some record ∧ Record.name record = name := by
  have hname := (h.indexed name position).mp hlookup
  unfold names at hname
  rwa [List.getElem?_map, Option.map_eq_some_iff] at hname

/-- What a look-up finds behind a sighting. -/
theorem WellFormed.named?_sight (h : table.WellFormed) (newer : α) (name : String) :
    (table.sight newer).1.named? name =
      if name = Record.name newer then
        some (match table.named? name with
          | none => newer
          | some record => (Record.merge record newer).record)
      else table.named? name := by
  cases hlookup : table.index.lookup (Record.name newer) with
  | none =>
    have hsight : (table.sight newer).1 = table.push newer := by simp [Table.sight, hlookup]
    have hlength : table.names.length = table.records.length := by simp [names]
    rw [hsight, named?, lookup_push]
    by_cases hname : name = Record.name newer
    · rw [if_pos hname, if_pos hname, hname]
      simp [named?, hlookup, Table.push, hlength]
    · rw [if_neg hname, if_neg hname, named?]
      cases hother : table.index.lookup name with
      | none => rfl
      | some position =>
        obtain ⟨record, hrecord, -⟩ := h.getElem?_of_lookup hother
        obtain ⟨hposition, -⟩ := List.getElem?_eq_some_iff.mp hrecord
        exact List.getElem?_append_left hposition
  | some position =>
    obtain ⟨record, hrecord, hrecordName⟩ := h.getElem?_of_lookup hlookup
    have hsight : (table.sight newer).1 =
        { table with
          records := table.records.set position (Record.merge record newer).record } := by
      simp [Table.sight, hlookup, hrecord]
    obtain ⟨hposition, -⟩ := List.getElem?_eq_some_iff.mp hrecord
    rw [hsight]
    by_cases hname : name = Record.name newer
    · rw [if_pos hname, hname]
      simp only [named?, hlookup, hrecord, Option.bind_some]
      exact List.getElem?_set_self hposition
    · rw [if_neg hname, named?, named?]
      cases hother : table.index.lookup name with
      | none => rfl
      | some place =>
        obtain ⟨other, hrecord', hother'⟩ := h.getElem?_of_lookup hother
        have hplace : position ≠ place := by
          rintro rfl
          rw [hrecord] at hrecord'
          cases hrecord'
          exact hname (hother'.symm.trans hrecordName)
        exact List.getElem?_set_ne hplace

/-- A sighting contradicts what a look-up of its name finds, or nothing. -/
theorem WellFormed.conflict_sight (h : table.WellFormed) (newer : α) :
    (table.sight newer).2 = (table.named? (Record.name newer)).bind fun record =>
      (Record.merge record newer).conflict := by
  cases hlookup : table.index.lookup (Record.name newer) with
  | none => simp [Table.sight, named?, hlookup]
  | some position =>
    obtain ⟨record, hrecord, -⟩ := h.getElem?_of_lookup hlookup
    simp [Table.sight, named?, hlookup, hrecord]

/-- The table behind sightings in a row. -/
def sightAll (table : Table α) (sightings : List α) : Table α :=
  sightings.foldl (fun table newer => (table.sight newer).1) table

@[simp] theorem sightAll_nil (table : Table α) : table.sightAll [] = table := rfl

@[simp] theorem sightAll_cons (table : Table α) (newer : α) (sightings : List α) :
    table.sightAll (newer :: sightings) = (table.sight newer).1.sightAll sightings := rfl

/-- The record that has taken in later sightings. -/
def gather (record : α) (later : List α) : α :=
  later.foldl (fun record newer => (Record.merge record newer).record) record

/-- The record that sightings of one name make, the first of them being the record at first. -/
def gathered? : List α → Option α
  | [] => none
  | first :: later => some (gather first later)

variable [LawfulRecord α]

theorem WellFormed.sightAll (h : table.WellFormed) (sightings : List α) :
    (table.sightAll sightings).WellFormed := by
  induction sightings generalizing table with
  | nil => exact h
  | cons newer sightings ih => exact ih (h.sight newer)

/-- The record of a name behind sightings has taken in just those of its name, in order. -/
theorem WellFormed.named?_sightAll (h : table.WellFormed) (sightings : List α) (name : String) :
    (table.sightAll sightings).named? name =
      match table.named? name with
      | none => gathered? (sightings.filter (Record.name · = name))
      | some record => some (gather record (sightings.filter (Record.name · = name))) := by
  induction sightings generalizing table with
  | nil =>
    rw [sightAll_nil]
    cases table.named? name <;> rfl
  | cons newer sightings ih =>
    rw [sightAll_cons, ih (h.sight newer), h.named?_sight]
    by_cases hname : name = Record.name newer
    · rw [if_pos hname, List.filter_cons_of_pos (by simp [hname])]
      cases table.named? name with
      | none => rfl
      | some record => rfl
    · rw [if_neg hname, List.filter_cons_of_neg (by simpa using Ne.symm hname)]

/-- A look-up behind sightings that have begun with no record. -/
theorem named?_sightAll_empty (sightings : List α) (name : String) :
    (empty.sightAll sightings).named? name =
      gathered? (sightings.filter (Record.name · = name)) :=
  (wellFormed_empty (α := α)).named?_sightAll sightings name

end RemoteCalls.Table
