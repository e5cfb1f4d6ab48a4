import RemoteCalls.Catalog

/-!
# Tables of records

A table has one record for each name, and its index leads from each name to the position of the
record. A sighting keeps it so. It leaves all other records as they are and where they are, and
never changes what a record says about its first sighting.
-/

namespace RemoteCalls

/-- What a later sighting does not change in a record. A sighting that contradicts a definition
changes nothing at all. -/
class LawfulRecord (α : Type) [Record α] : Prop where
  name_merge : ∀ record newer : α,
    Record.name (Record.merge record newer).record = Record.name record
  origin_merge : ∀ record newer : α,
    Record.origin (Record.merge record newer).record = Record.origin record
  place_merge : ∀ record newer : α,
    Record.place (Record.merge record newer).record = Record.place record
  record_of_conflict : ∀ record newer : α, (Record.merge record newer).conflict ≠ none →
    (Record.merge record newer).record = record

/-- Merging never changes the first sighting of a function, and a contradiction changes nothing. -/
theorem Function.merge_keeps (f newer : Function) :
    (f.merge newer).record.name = f.name ∧ (f.merge newer).record.origin = f.origin ∧
      (f.merge newer).record.place = f.place ∧
      ((f.merge newer).conflict ≠ none → (f.merge newer).record = f) := by
  unfold merge
  split
  · split
    · exact ⟨rfl, rfl, rfl, fun h => absurd rfl h⟩
    · exact ⟨rfl, rfl, rfl, fun _ => rfl⟩
  · split
    · exact ⟨rfl, rfl, rfl, fun h => absurd rfl h⟩
    · exact ⟨rfl, rfl, rfl, fun h => absurd rfl h⟩

/-- Merging never changes the first sighting of a structure, and a contradiction changes nothing. -/
theorem Structure.merge_keeps (s newer : Structure) :
    (s.merge newer).record.name = s.name ∧ (s.merge newer).record.origin = s.origin ∧
      (s.merge newer).record.place = s.place ∧
      ((s.merge newer).conflict ≠ none → (s.merge newer).record = s) := by
  unfold merge
  split
  · split
    · exact ⟨rfl, rfl, rfl, fun h => absurd rfl h⟩
    · exact ⟨rfl, rfl, rfl, fun _ => rfl⟩
  · split
    · exact ⟨rfl, rfl, rfl, fun h => absurd rfl h⟩
    · exact ⟨rfl, rfl, rfl, fun h => absurd rfl h⟩

instance : LawfulRecord Function where
  name_merge f newer := (f.merge_keeps newer).1
  origin_merge f newer := (f.merge_keeps newer).2.1
  place_merge f newer := (f.merge_keeps newer).2.2.1
  record_of_conflict f newer := (f.merge_keeps newer).2.2.2

instance : LawfulRecord Structure where
  name_merge s newer := (s.merge_keeps newer).1
  origin_merge s newer := (s.merge_keeps newer).2.1
  place_merge s newer := (s.merge_keeps newer).2.2.1
  record_of_conflict s newer := (s.merge_keeps newer).2.2.2

instance : LawfulRecord Typedef where
  name_merge _ _ := rfl
  origin_merge _ _ := rfl
  place_merge _ _ := rfl
  record_of_conflict _ _ h := absurd rfl h

instance : LawfulRecord Variable where
  name_merge _ _ := rfl
  origin_merge _ _ := rfl
  place_merge _ _ := rfl
  record_of_conflict _ _ h := absurd rfl h

namespace Table

variable {α : Type} [Record α]

/-- The names of all records, in order. -/
def names (table : Table α) : List String := table.records.map Record.name

/-- No two records have one name, and the index leads from just the names that are there to the
positions of their records. -/
structure WellFormed (table : Table α) : Prop where
  distinct : table.names.Nodup
  indexed : ∀ name position,
    table.index.lookup name = some position ↔ table.names[position]? = some name

/-- A record as it may be behind a sighting: known by the same name since the same first sighting,
and the same in all else unless its name is among the changed ones. -/
structure Keeps (changed : String → Prop) (record later : α) : Prop where
  name : Record.name later = Record.name record
  origin : Record.origin later = Record.origin record
  place : Record.place later = Record.place record
  eq_of_unchanged : ¬ changed (Record.name record) → later = record

/-- A table as it may be behind a sighting: each record stays at its position, and what comes behind
the records has a changed name. -/
structure Extends (changed : String → Prop) (table later : Table α) : Prop where
  keeps : ∀ (position : Nat) (record : α), table.records[position]? = some record →
    ∃ record', later.records[position]? = some record' ∧ Keeps changed record record'
  added : ∀ (position : Nat) (record' : α), table.records.length ≤ position →
    later.records[position]? = some record' → changed (Record.name record')

theorem Keeps.refl (changed : String → Prop) (record : α) : Keeps changed record record :=
  ⟨rfl, rfl, rfl, fun _ => rfl⟩

theorem Extends.refl (changed : String → Prop) (table : Table α) : Extends changed table table := by
  refine ⟨fun position record hrecord => ⟨record, hrecord, Keeps.refl changed record⟩, ?_⟩
  intro position record hposition hrecord
  rw [List.getElem?_eq_none hposition] at hrecord
  cases hrecord

/-- More names may count as changed. -/
theorem Extends.mono {changed changed' : String → Prop} {table later : Table α}
    (h : Extends changed table later) (himp : ∀ name, changed name → changed' name) :
    Extends changed' table later := by
  refine ⟨?_, fun position record' hposition hrecord =>
    himp _ (h.added position record' hposition hrecord)⟩
  intro position record hrecord
  obtain ⟨record', hlater, hkeeps⟩ := h.keeps position record hrecord
  exact ⟨record', hlater, hkeeps.name, hkeeps.origin, hkeeps.place,
    fun hnot => hkeeps.eq_of_unchanged fun hname => hnot (himp _ hname)⟩

theorem wellFormed_empty : (empty : Table α).WellFormed := by
  refine ⟨List.nodup_nil, ?_⟩
  intro name position
  simp [empty, names]

section

variable {table : Table α}

/-- The record of a name is found by it, and nothing else is. -/
theorem WellFormed.named?_eq_some_iff (h : table.WellFormed) {name : String} {record : α} :
    table.named? name = some record ↔ record ∈ table.records ∧ Record.name record = name := by
  have hname : ∀ {position : Nat}, table.records[position]? = some record →
      table.names[position]? = some (Record.name record) := by
    intro position hposition
    unfold names
    rw [List.getElem?_map, hposition]
    rfl
  constructor
  · intro hnamed
    obtain ⟨position, hlookup, hrecord⟩ := Option.bind_eq_some_iff.mp hnamed
    have hthere := (h.indexed name position).mp hlookup
    rw [hname hrecord] at hthere
    exact ⟨List.mem_of_getElem? hrecord, Option.some.inj hthere⟩
  · rintro ⟨hmem, rfl⟩
    obtain ⟨position, hrecord⟩ := List.mem_iff_getElem?.mp hmem
    have hlookup := (h.indexed (Record.name record) position).mpr (hname hrecord)
    exact Option.bind_eq_some_iff.mpr ⟨position, hlookup, hrecord⟩

/-- A name that the index does not know is the name of no record. -/
theorem WellFormed.not_mem_names (h : table.WellFormed) {name : String}
    (hname : table.index.lookup name = none) : name ∉ table.names := by
  intro hmem
  obtain ⟨position, hposition⟩ := List.mem_iff_getElem?.mp hmem
  rw [(h.indexed name position).mpr hposition] at hname
  cases hname

theorem names_push (record : α) :
    (table.push record).names = table.names ++ [Record.name record] := by
  simp [names, Table.push]

theorem lookup_push (record : α) (name : String) :
    (table.push record).index.lookup name =
      if name = Record.name record then some table.names.length else table.index.lookup name := by
  have hlength : table.records.length = table.names.length := by simp [names]
  change ((Record.name record, table.records.length) :: table.index).lookup name = _
  rw [List.lookup_cons, hlength]
  by_cases hname : name = Record.name record
  · rw [if_pos hname, beq_iff_eq.mpr hname]
  · rw [if_neg hname, beq_eq_false_iff_ne.mpr hname]

/-- A position is that of a name behind one more name if it was before, or if it is the last one. -/
theorem getElem?_concat_eq_some_iff {names : List String} {last name : String} {position : Nat} :
    (names ++ [last])[position]? = some name ↔
      names[position]? = some name ∨ (position = names.length ∧ name = last) := by
  rw [List.getElem?_append]
  by_cases hposition : position < names.length
  · rw [if_pos hposition]
    refine ⟨Or.inl, ?_⟩
    rintro (hthere | ⟨hlast, -⟩)
    · exact hthere
    · omega
  · rw [if_neg hposition, List.getElem?_eq_none (Nat.le_of_not_lt hposition),
      List.getElem?_singleton]
    by_cases hlast : position = names.length
    · rw [if_pos (by omega)]
      simp [hlast, eq_comm]
    · rw [if_neg (by omega)]
      simp [hlast]

/-- A record with a new name goes behind the others. -/
theorem WellFormed.push (h : table.WellFormed) {record : α}
    (hnew : Record.name record ∉ table.names) : (table.push record).WellFormed := by
  refine ⟨?_, ?_⟩
  · rw [names_push, List.nodup_append]
    refine ⟨h.distinct, by simp, ?_⟩
    intro name hname other hother heq
    rw [List.mem_singleton.mp hother] at heq
    exact hnew (heq ▸ hname)
  · intro name position
    rw [names_push, lookup_push, getElem?_concat_eq_some_iff]
    by_cases hname : name = Record.name record
    · rw [if_pos hname, hname]
      have hnot : ¬ table.names[position]? = some (Record.name record) :=
        fun hthere => hnew (List.mem_of_getElem? hthere)
      simp [hnot, eq_comm]
    · rw [if_neg hname, h.indexed name position]
      simp [hname]

/-- What is there already may be put at its position again. -/
theorem set_of_getElem? {β : Type} {entries : List β} {position : Nat} {entry : β}
    (h : entries[position]? = some entry) : entries.set position entry = entries := by
  obtain ⟨hposition, rfl⟩ := List.getElem?_eq_some_iff.mp h
  exact List.set_getElem_self hposition

/-- Only the names and the index count. -/
theorem WellFormed.of_names_eq {later : Table α} (h : table.WellFormed)
    (hnames : later.names = table.names) (hindex : later.index = table.index) :
    later.WellFormed := by
  refine ⟨?_, ?_⟩
  · rw [hnames]
    exact h.distinct
  · rw [hnames, hindex]
    exact h.indexed

/-- Which of its two ways a sighting takes: the name is new, or its record takes the sighting in. -/
theorem WellFormed.sight_cases (h : table.WellFormed) (newer : α) :
    (Record.name newer ∉ table.names ∧ table.sight newer = (table.push newer, none)) ∨
      ∃ position record, table.records[position]? = some record ∧
        Record.name record = Record.name newer ∧
        table.sight newer =
          ({ table with
              records := table.records.set position (Record.merge record newer).record },
            (Record.merge record newer).conflict) := by
  cases hlookup : table.index.lookup (Record.name newer) with
  | none =>
    refine Or.inl ⟨h.not_mem_names hlookup, ?_⟩
    simp [sight, hlookup]
  | some position =>
    have hname := (h.indexed _ position).mp hlookup
    unfold names at hname
    rw [List.getElem?_map, Option.map_eq_some_iff] at hname
    obtain ⟨record, hrecord, hname⟩ := hname
    refine Or.inr ⟨position, record, hrecord, hname, ?_⟩
    simp [sight, hlookup, hrecord]

/-- What holds of all records and is kept by merging holds behind a sighting of which it holds. -/
theorem forall_sight {P : α → Prop} (hmerge : ∀ record newer, P record → P newer →
      P (Record.merge record newer).record) (table : Table α) {newer : α}
    (htable : ∀ record ∈ table.records, P record) (hnewer : P newer) :
    ∀ record ∈ (table.sight newer).1.records, P record := by
  unfold Table.sight
  cases hlookup : table.index.lookup (Record.name newer) with
  | none =>
    intro record hrecord
    rcases List.mem_append.mp hrecord with hold | hnew
    · exact htable record hold
    · rw [List.mem_singleton.mp hnew]
      exact hnewer
  | some position =>
    cases hrecord : table.records[position]? with
    | none => simpa [hrecord] using htable
    | some old =>
      simp only [hrecord]
      intro record hmem
      rcases List.mem_or_eq_of_mem_set hmem with hold | rfl
      · exact htable record hold
      · exact hmerge old newer (htable old (List.mem_of_getElem? hrecord)) hnewer

variable [LawfulRecord α]

/-- Behind a sighting there is still one record for each name, and the index knows them all. -/
theorem WellFormed.sight (h : table.WellFormed) (newer : α) :
    (table.sight newer).1.WellFormed := by
  rcases h.sight_cases newer with ⟨hnew, hsight⟩ | ⟨position, record, hrecord, -, hsight⟩
  · rw [hsight]
    exact h.push hnew
  · rw [hsight]
    refine h.of_names_eq ?_ rfl
    change (table.records.set position _).map Record.name = table.names
    rw [List.map_set, LawfulRecord.name_merge]
    refine set_of_getElem? ?_
    rw [List.getElem?_map, hrecord]
    rfl

/-- A sighting changes no record but that of its name, moves none, and leaves what each record says
about its first sighting. -/
theorem WellFormed.extends_sight (h : table.WellFormed) (newer : α) :
    Extends (· = Record.name newer) table (table.sight newer).1 := by
  rcases h.sight_cases newer with ⟨hnew, hsight⟩ | ⟨place, record, hrecord, hname, hsight⟩
  · rw [hsight]
    refine ⟨?_, ?_⟩
    · intro position old hold
      refine ⟨old, ?_, Keeps.refl _ old⟩
      obtain ⟨hposition, -⟩ := List.getElem?_eq_some_iff.mp hold
      change (table.records ++ [newer])[position]? = some old
      rw [List.getElem?_append_left hposition]
      exact hold
    · intro position later hposition hlater
      change (table.records ++ [newer])[position]? = some later at hlater
      rw [List.getElem?_append_right hposition] at hlater
      rw [List.mem_singleton.mp (List.mem_of_getElem? hlater)]
  · rw [hsight]
    refine ⟨?_, ?_⟩
    · intro position old hold
      change ∃ later, (table.records.set place _)[position]? = some later ∧ _
      by_cases hplace : place = position
      · subst hplace
        rw [hrecord] at hold
        cases hold
        obtain ⟨hposition, -⟩ := List.getElem?_eq_some_iff.mp hrecord
        rw [List.getElem?_set_self hposition]
        exact ⟨_, rfl, LawfulRecord.name_merge _ _, LawfulRecord.origin_merge _ _,
          LawfulRecord.place_merge _ _, fun hnot => absurd hname hnot⟩
      · rw [List.getElem?_set_ne hplace]
        exact ⟨old, hold, Keeps.refl _ old⟩
    · intro position later hposition hlater
      change (table.records.set place _)[position]? = some later at hlater
      rw [List.getElem?_eq_none (by simpa using hposition)] at hlater
      cases hlater

/-- A sighting that contradicts a definition changes nothing. -/
theorem sight_of_conflict (table : Table α) (newer : α) (h : (table.sight newer).2 ≠ none) :
    (table.sight newer).1 = table := by
  unfold Table.sight at h ⊢
  cases hlookup : table.index.lookup (Record.name newer) with
  | none => simp [hlookup] at h
  | some position =>
    cases hrecord : table.records[position]? with
    | none => simp [hrecord]
    | some record =>
      simp only [hlookup, hrecord] at h ⊢
      rw [LawfulRecord.record_of_conflict record newer h, set_of_getElem? hrecord]

end

end Table

end RemoteCalls
