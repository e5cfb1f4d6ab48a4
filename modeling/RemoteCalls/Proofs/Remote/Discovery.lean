import Mathlib.Data.List.Nodup
import RemoteCalls.Proofs.Catalog.Absorption
import RemoteCalls.Proofs.Catalog.Names
import RemoteCalls.Remote

/-!
# Discovered names

The names of the remote functions in a catalog are told by its functions, structures and
placeholders, each record for itself. A stub declares names that are made from that of its function,
so the records of these names tell of no other function, whatever they take in.
-/

namespace RemoteCalls

namespace RemoteNames

/-- A text does not end with a back if its last character is another one. -/
theorem endsWith_append_of_getLast? {back other : String} {c : Char} (name : String)
    (hother : other.toList.getLast? = some c) (hback : back.toList ≠ [])
    (h : back.toList.getLast? ≠ some c) : Text.endsWith back (name ++ other) = false := by
  refine Bool.eq_false_iff.mpr fun hends => h ?_
  rw [Text.endsWith, List.isSuffixOf_iff_suffix, String.toList_append] at hends
  obtain ⟨front, hfront⟩ := hends
  have hlast := congrArg List.getLast? hfront
  rwa [List.getLast?_append_of_ne_nil _ hback, List.getLast?_append, hother, Option.some_or]
    at hlast

variable {name : String}

theorem stem?_handler (h : name ≠ "") : stem? (of name).handler = some name := by
  simp [stem?, of, h]

theorem stem?_response (h : name ≠ "") : stem? (of name).response = some name := by
  have hhandler : Text.dropBack? handlerBack (name ++ responseBack) = none := by
    rw [Text.dropBack?, endsWith_append_of_getLast? (c := 'p') name rfl (by decide) (by decide)]
    rfl
  simp [stem?, of, hhandler, h]

theorem stemBefore?_result (h : name ≠ "") :
    stemBefore? resultBack (of name).result = some name := by
  simp [stemBefore?, of, h]

/-- A declaration that stands in the stub of a function: the function itself, a helper function or
the result structure. -/
inductive Declares (names : RemoteNames) : Declaration → Prop
  | function (f : Function) (h : f.name ∈ [names.function, names.handler, names.response]) :
      names.Declares (.function f)
  | struct (s : Structure) (h : s.name = names.result) : names.Declares (.struct s)

end RemoteNames

/-! ## What a record tells -/

/-- The names of remote functions that a function tells of: its own or what it is made from if it
has notes, and what it is made from if it is a helper. -/
def Function.tells (f : Function) : List String :=
  (if f.notes.isEmpty then [] else [(RemoteNames.stem? f.name).getD f.name]) ++
    if Text.endsWith handlerBack f.name || Text.endsWith responseBack f.name then
      (RemoteNames.stem? f.name).toList
    else []

/-- The name of the remote function that a structure tells of. -/
def Structure.tells (s : Structure) : List String :=
  (RemoteNames.stemBefore? resultBack s.name).toList

/-- The name of the remote function that a placeholder tells of. -/
def Placeholder.tells (p : Placeholder) : List String :=
  if p.name = remoteMarker then p.note.firstArgument?.toList else []

/-- A function that takes in a sighting tells no less. -/
theorem Function.tells_merge {f newer : Function} {name : String} (h : name ∈ f.tells) :
    name ∈ (f.merge newer).record.tells := by
  have hname : (f.merge newer).record.name = f.name := (f.merge_keeps newer).1
  have hnotes : f.notes.isEmpty = false → (f.merge newer).record.notes.isEmpty = false := by
    intro hsome
    have hgrows := Core.merge_grows (HasCore.core f) (HasCore.core newer)
    rw [HasCore.merge_core] at hgrows
    have hkept := Note.subset_of_union_eq_self
      (hgrows.2.1 f.notes (Note.union_eq_self fun _ ha => ha))
    cases hlist : f.notes with
    | nil => simp [hlist] at hsome
    | cons note notes =>
      have hmem := hkept note (by simp [hlist])
      exact List.isEmpty_eq_false_iff.mpr (List.ne_nil_of_mem hmem)
  unfold tells at h ⊢
  rw [hname]
  rcases List.mem_append.mp h with h | h
  · refine List.mem_append_left _ ?_
    cases hempty : f.notes.isEmpty with
    | true => simp [hempty] at h
    | false => simpa [hempty, hnotes hempty] using h
  · exact List.mem_append_right _ h

/-- A structure tells by its name alone. -/
theorem Structure.tells_merge (s newer : Structure) :
    (s.merge newer).record.tells = s.tells := by
  rw [tells, (s.merge_keeps newer).1, tells]

section

variable {name : String}

/-- A function of a stub tells of the function of the stub and of no other. -/
theorem Function.eq_of_tells (hname : name ≠ "") (hstem : RemoteNames.stem? name = none)
    {f : Function} (hf : f.name ∈ [name, (RemoteNames.of name).handler,
      (RemoteNames.of name).response]) :
    ∀ told ∈ f.tells, told = name := by
  have hof : RemoteNames.stem? f.name = some name ∨
      f.name = name ∧ RemoteNames.stem? f.name = none := by
    simp only [List.mem_cons, List.not_mem_nil, or_false] at hf
    rcases hf with hf | hf | hf
    · exact .inr ⟨hf, hf ▸ hstem⟩
    · exact .inl (hf ▸ RemoteNames.stem?_handler hname)
    · exact .inl (hf ▸ RemoteNames.stem?_response hname)
  intro told htold
  unfold tells at htold
  rcases hof with hsome | ⟨hself, hnone⟩
  · rw [hsome] at htold
    rcases List.mem_append.mp htold with h | h
    · split at h
      · cases h
      · exact List.mem_singleton.mp h
    · split at h
      · exact List.mem_singleton.mp h
      · cases h
  · rw [hnone, hself] at htold
    rcases List.mem_append.mp htold with h | h
    · split at h
      · cases h
      · exact List.mem_singleton.mp h
    · split at h <;> cases h

/-- The result structure of a stub tells of its function and of no other. -/
theorem Structure.eq_of_tells (hname : name ≠ "") {s : Structure}
    (hs : s.name = (RemoteNames.of name).result) : ∀ told ∈ s.tells, told = name := by
  intro told htold
  rw [tells, hs, RemoteNames.stemBefore?_result hname] at htold
  exact List.mem_singleton.mp htold

end

/-- What the records of a table tell behind a sighting. Merging loses nothing of it, and if the
records of the sighted name tell of `name` alone, nothing else comes to it. -/
theorem Table.WellFormed.tells_sight {α : Type} [Record α] [LawfulRecord α] {table : Table α}
    (h : table.WellFormed) (newer : α) (tells : α → List String) {name : String}
    (hmerge : ∀ record told, told ∈ tells record → told ∈ tells (Record.merge record newer).record)
    (hnewer : ∀ record, Record.name record = Record.name newer → ∀ told ∈ tells record,
      told = name) (told : String) :
    ((∃ record ∈ table.records, told ∈ tells record) →
      ∃ record ∈ (table.sight newer).1.records, told ∈ tells record) ∧
    ((∃ record ∈ (table.sight newer).1.records, told ∈ tells record) →
      told = name ∨ ∃ record ∈ table.records, told ∈ tells record) := by
  rcases h.sight_cases newer with ⟨-, hsight⟩ | ⟨position, old, hold, hname, hsight⟩
  · rw [hsight]
    refine ⟨fun ⟨record, hrecord, htold⟩ => ⟨record, List.mem_append_left _ hrecord, htold⟩, ?_⟩
    rintro ⟨record, hrecord, htold⟩
    rcases List.mem_append.mp hrecord with hrecord | hrecord
    · exact .inr ⟨record, hrecord, htold⟩
    · obtain rfl := List.mem_singleton.mp hrecord
      exact .inl (hnewer record rfl told htold)
  · rw [hsight]
    obtain ⟨hposition, hget⟩ := List.getElem?_eq_some_iff.mp hold
    refine ⟨?_, ?_⟩
    · rintro ⟨record, hrecord, htold⟩
      obtain ⟨place, hplace⟩ := List.mem_iff_getElem?.mp hrecord
      by_cases heq : position = place
      · subst heq
        obtain rfl := Option.some.inj (hold.symm.trans hplace)
        exact ⟨_, List.mem_set hposition _, hmerge old told htold⟩
      · refine ⟨record, List.mem_iff_getElem?.mpr ⟨place, ?_⟩, htold⟩
        exact (List.getElem?_set_ne heq).trans hplace
    · rintro ⟨record, hrecord, htold⟩
      rcases List.mem_or_eq_of_mem_set hrecord with hrecord | rfl
      · exact .inr ⟨record, hrecord, htold⟩
      · exact .inl (hnewer _ ((LawfulRecord.name_merge old newer).trans hname) told htold)

/-! ## What a catalog tells -/

namespace Catalog

theorem mem_foldl_insertName {names : List String} {name : String} :
    name ∈ names.foldl insertName [] ↔ name ∈ names := by
  simp [foldl_insertName, List.removeAll]

theorem nodup_foldl_insertName {names new : List String} (h : names.Nodup) :
    (new.foldl insertName names).Nodup := by
  induction new generalizing names with
  | nil => exact h
  | cons name new ih =>
    refine ih ?_
    by_cases hthere : name ∈ names
    · rwa [insertName_of_mem hthere]
    · rw [insertName_of_not_mem hthere]
      exact h.append (List.nodup_singleton name) (List.disjoint_singleton.mpr hthere)

/-- Each remote function is listed once. -/
theorem nodup_remoteNames (catalog : Catalog) : catalog.remoteNames.Nodup :=
  nodup_foldl_insertName List.nodup_nil

/-- A remote function is listed just if a record tells of it. -/
theorem mem_remoteNames {catalog : Catalog} {name : String} :
    name ∈ catalog.remoteNames ↔ (∃ f ∈ catalog.functions, name ∈ f.tells) ∨
      (∃ s ∈ catalog.structures, name ∈ s.tells) ∨ ∃ p ∈ catalog.placeholders, name ∈ p.tells := by
  have hplaceholder : ∀ p : Placeholder, name ∈ p.tells ↔
      p.name = remoteMarker ∧ p.note.firstArgument? = some name := by
    intro p
    unfold Placeholder.tells
    split <;> simp [*]
  have hfunction : ∀ f : Function, name ∈ f.tells ↔
      f.notes.isEmpty = false ∧ (RemoteNames.stem? f.name).getD f.name = name ∨
        (Text.endsWith handlerBack f.name || Text.endsWith responseBack f.name) = true ∧
          RemoteNames.stem? f.name = some name := by
    intro f
    unfold Function.tells
    rw [List.mem_append]
    refine or_congr ?_ ?_
    · cases f.notes.isEmpty <;> simp [eq_comm]
    · cases Text.endsWith handlerBack f.name || Text.endsWith responseBack f.name <;> simp
  unfold remoteNames
  simp only [mem_foldl_insertName, List.mem_append, List.mem_map, List.mem_filterMap,
    List.mem_filter, hfunction, Structure.tells, Option.mem_toList, hplaceholder,
    decide_eq_true_eq, Bool.not_eq_true', and_assoc, and_or_left, exists_or,
    or_assoc]

variable {catalog : Catalog} {name : String}

/-- What stands in the stub of a remote function brings no name and loses none. -/
theorem WellFormed.mem_remoteNames_add (h : catalog.WellFormed) (hname : name ≠ "")
    (hstem : RemoteNames.stem? name = none) (hlisted : name ∈ catalog.remoteNames)
    {d : Declaration} (hd : (RemoteNames.of name).Declares d) (told : String) :
    told ∈ (catalog.add d).1.remoteNames ↔ told ∈ catalog.remoteNames := by
  -- What the table of the declaration does not lose, nor get but `name`, is the same before.
  have hsame : ∀ {before behind rest : Prop}, (before → behind) →
      (behind → told = name ∨ before) → (told ∈ catalog.remoteNames ↔ before ∨ rest) →
      (told ∈ (catalog.add d).1.remoteNames ↔ behind ∨ rest) →
      (told ∈ (catalog.add d).1.remoteNames ↔ told ∈ catalog.remoteNames) := by
    intro before behind rest hkept hnew hbefore hbehind
    rw [hbehind]
    constructor
    · rintro (hb | hr)
      · rcases hnew hb with rfl | hb
        · exact hlisted
        · exact hbefore.mpr (.inl hb)
      · exact hbefore.mpr (.inr hr)
    · intro hthere
      exact (hbefore.mp hthere).imp_left hkept
  cases hd with
  | function f hf =>
    have htable := h.functions.tells_sight f Function.tells
      (fun _ _ htold => Function.tells_merge htold)
      (fun record hrecord => Function.eq_of_tells hname hstem
        ((show record.name = f.name from hrecord) ▸ hf)) told
    exact hsame htable.1 htable.2 mem_remoteNames mem_remoteNames
  | struct s hs =>
    have htable := h.structures.tells_sight s Structure.tells
      (fun record _ htold => (Structure.tells_merge record s).symm ▸ htold)
      (fun record hrecord => Structure.eq_of_tells hname (hrecord.trans hs)) told
    exact hsame htable.1 htable.2 (mem_remoteNames.trans or_left_comm)
      (mem_remoteNames.trans or_left_comm)

end Catalog

end RemoteCalls
