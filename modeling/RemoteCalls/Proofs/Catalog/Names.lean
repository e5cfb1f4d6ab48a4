import RemoteCalls.Proofs.Catalog.Sightings

/-!
# Names in first-seen order

A table has its names in the order in which they were first sighted. A sighting of a name that is
there moves nothing, even if it contradicts a definition, and any other puts its name behind the
rest.
-/

namespace RemoteCalls

/-- What is put behind a list one by one, unless it is there, stands behind it in its order, each
once. -/
theorem foldl_eq_append_eraseDups {α : Type} [BEq α] [LawfulBEq α] {put : List α → α → List α}
    (hthere : ∀ into a, a ∈ into → put into a = into)
    (hnew : ∀ into a, a ∉ into → put into a = into ++ [a]) (into new : List α) :
    new.foldl put into = into ++ (new.removeAll into).eraseDups := by
  induction new generalizing into with
  | nil => simp
  | cons a new ih =>
    rw [List.foldl_cons, ih, List.cons_removeAll]
    by_cases ha : a ∈ into
    · simp [hthere into a ha, ha]
    · have hrest : new.removeAll (into ++ [a]) = (new.removeAll into).filter fun b => !b == a := by
        rw [List.removeAll, List.removeAll, List.filter_filter]
        refine List.filter_congr fun b _ => ?_
        by_cases hb : b = a <;> simp [hb]
      simp [hnew into a ha, ha, hrest, List.eraseDups_cons]

theorem Catalog.insertName_of_mem {names : List String} {name : String} (h : name ∈ names) :
    insertName names name = names := by
  simp [insertName, h]

theorem Catalog.insertName_of_not_mem {names : List String} {name : String} (h : name ∉ names) :
    insertName names name = names ++ [name] := by
  simp [insertName, h]

/-- Names that are inserted in a row stand behind the others, each once. -/
theorem Catalog.foldl_insertName (names new : List String) :
    new.foldl insertName names = names ++ (new.removeAll names).eraseDups :=
  foldl_eq_append_eraseDups (fun _ _ => insertName_of_mem) (fun _ _ => insertName_of_not_mem)
    names new

namespace Table

variable {α : Type} [Record α] {table : Table α}

theorem name_mem_names {record : α} (h : record ∈ table.records) :
    Record.name record ∈ table.names :=
  List.mem_map_of_mem h

/-- A name is there just if a look-up finds its record. -/
theorem WellFormed.mem_names_iff (h : table.WellFormed) {name : String} :
    name ∈ table.names ↔ ∃ record, table.named? name = some record := by
  constructor
  · intro hname
    obtain ⟨record, hrecord⟩ := List.mem_map.mp hname
    exact ⟨record, h.named?_eq_some_iff.mpr hrecord⟩
  · rintro ⟨record, hrecord⟩
    obtain ⟨hmem, rfl⟩ := h.named?_eq_some_iff.mp hrecord
    exact name_mem_names hmem

variable [LawfulRecord α]

/-- A sighting inserts its name. -/
theorem WellFormed.names_sight (h : table.WellFormed) (newer : α) :
    (table.sight newer).1.names = Catalog.insertName table.names (Record.name newer) := by
  rcases h.sight_cases newer with ⟨hnew, hsight⟩ | ⟨position, record, hrecord, hname, hsight⟩
  · rw [hsight, names_push, Catalog.insertName_of_not_mem hnew]
  · have hthere : Record.name newer ∈ table.names :=
      hname ▸ name_mem_names (List.mem_of_getElem? hrecord)
    rw [hsight, Catalog.insertName_of_mem hthere]
    change (table.records.set position _).map Record.name = table.names
    rw [List.map_set, LawfulRecord.name_merge]
    refine set_of_getElem? ?_
    rw [List.getElem?_map, hrecord]
    rfl

/-- Sightings in a row insert their names in order. -/
theorem WellFormed.names_sightAll (h : table.WellFormed) (sightings : List α) :
    (table.sightAll sightings).names =
      (sightings.map Record.name).foldl Catalog.insertName table.names := by
  induction sightings generalizing table with
  | nil => rfl
  | cons newer sightings ih =>
    rw [sightAll_cons, ih (h.sight newer), h.names_sight, List.map_cons, List.foldl_cons]

/-- What a table has become by sightings that were reported by name. -/
structure TakesNames (before : Table α) (reported : List String) (behind : Table α) : Prop where
  /-- The names are those from before, and behind them the new ones among those that are reported,
  each once and in the order of the report. -/
  names_eq : behind.names = before.names ++ (reported.removeAll before.names).eraseDups
  /-- Each reported name has a record. -/
  named : ∀ name ∈ reported, ∃ record ∈ behind.records,
    Record.name record = name ∧ behind.named? name = some record
  /-- A record is reported unless its name was there before. -/
  reported : ∀ record ∈ behind.records,
    Record.name record ∈ before.names ∨ Record.name record ∈ reported

/-- A table takes the names of its sightings. -/
theorem WellFormed.takesNames (h : table.WellFormed) (sightings : List α) :
    table.TakesNames (sightings.map Record.name) (table.sightAll sightings) := by
  have hnames : (table.sightAll sightings).names =
      table.names ++ ((sightings.map Record.name).removeAll table.names).eraseDups := by
    rw [h.names_sightAll, Catalog.foldl_insertName]
  have hmem : ∀ name, name ∈ (table.sightAll sightings).names ↔
      name ∈ table.names ∨ name ∈ sightings.map Record.name := by
    intro name
    by_cases hthere : name ∈ table.names <;> simp [hnames, List.removeAll, hthere]
  refine ⟨hnames, ?_, ?_⟩
  · intro name hname
    obtain ⟨record, hrecord⟩ :=
      (h.sightAll sightings).mem_names_iff.mp ((hmem name).mpr (Or.inr hname))
    obtain ⟨hthere, hrecordName⟩ := (h.sightAll sightings).named?_eq_some_iff.mp hrecord
    exact ⟨record, hthere, hrecordName, hrecord⟩
  · intro record hrecord
    exact (hmem _).mp (name_mem_names hrecord)

end Table

end RemoteCalls
