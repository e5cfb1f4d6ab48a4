import RemoteCalls.Proofs.Catalog.Histories

/-!
# Sightings that are there already

A record that has taken in a sighting absorbs it: the sighting changes nothing any more, and it is
refused again just if it was refused. Later sightings leave that so, whatever they bring. Hence a
catalog absorbs all declarations that were added to it.
-/

namespace RemoteCalls

namespace Note

/-- What a union has taken in adds nothing. -/
theorem union_again (into new : List Note) : union (union into new) new = union into new :=
  union_eq_self fun _ ha => mem_union.mpr (Or.inr ha)

/-- What adds nothing brings nothing new. -/
theorem subset_of_union_eq_self {into new : List Note} (h : union into new = into) :
    ∀ a ∈ new, a ∈ into := by
  intro a ha
  rw [← h]
  exact mem_union.mpr (Or.inr ha)

/-- What adds nothing still adds nothing where there is more. -/
theorem union_absorbed {into new : List Note} (h : union into new = into) (more : List Note) :
    union (union into more) new = union into more :=
  union_eq_self fun a ha => mem_union.mpr (Or.inl (subset_of_union_eq_self h a ha))

end Note

namespace Storage

theorem union_again (s t : Storage) : (s.union t).union t = s.union t := by
  simp [union]

theorem union_self (s : Storage) : s.union s = s := by
  simp [union]

/-- Words that are there are still there with more of them. -/
theorem union_absorbed {s t : Storage} (h : s.union t = s) (more : Storage) :
    (s.union more).union t = s.union more := by
  rw [← h]
  simp only [union, mk.injEq]
  refine ⟨?_, ?_, ?_⟩
  · cases s.isStatic <;> cases t.isStatic <;> simp
  · cases s.isExtern <;> cases t.isExtern <;> simp
  · cases s.isInline <;> cases t.isInline <;> simp

end Storage

/-- How records absorb sightings. A sighting that is as it is `found` in a text absorbs itself, a
merged one is absorbed with the same conflict, and what is absorbed stays so behind others. -/
structure Absorbing {α : Type} [Record α] (found : α → Prop) : Prop where
  alone : ∀ newer : α, found newer → Record.merge newer newer = ⟨newer, none⟩
  again : ∀ record newer : α,
    Record.merge (Record.merge record newer).record newer = Record.merge record newer
  frame : ∀ (record newer other : α) (conflict : Option Place),
    Record.merge record newer = ⟨record, conflict⟩ →
    Record.merge (Record.merge record other).record newer =
      ⟨(Record.merge record other).record, conflict⟩

/-! ## Records that can be defined -/

namespace Core

variable {β : Type} {core newer : Core β}

/-- A definition that is found in a text is where it is sighted, and so no other one. -/
theorem merge_alone (h : core.InPlace) :
    core.merge core = ⟨core, none⟩ := by
  obtain ⟨content, storage, place, isDefined, definition, notes⟩ := core
  obtain rfl : definition = if isDefined then some place else none := h
  have hnotes : Note.union notes notes = notes := Note.union_eq_self fun _ ha => ha
  cases isDefined with
  | false => simp [merge_of_not_defined, hnotes, Storage.union_self]
  | true => simp [merge_of_same, hnotes]

/-- What was merged is merged again without a change and with the same conflict. -/
theorem merge_again (core newer : Core β) :
    (core.merge newer).record.merge newer = core.merge newer := by
  cases hnewer : newer.isDefined with
  | false => simp [merge_of_not_defined hnewer, Note.union_again, Storage.union_again]
  | true =>
    cases hdefined : core.isDefined with
    | false => simp [merge_of_first hnewer hdefined, merge_of_same hnewer, Note.union_again]
    | true =>
      cases hplace : core.definition.any (·.same newer.place) with
      | true => simp [merge_of_same hnewer, hdefined, hplace, Note.union_again]
      | false => rw [merge_of_other hnewer hdefined hplace, merge_of_other hnewer hdefined hplace]

/-- What a record has is there behind a further sighting. -/
theorem merge_grows (core other : Core β) :
    (∀ storage, core.storage.union storage = core.storage →
      (core.merge other).record.storage.union storage = (core.merge other).record.storage) ∧
    (∀ notes, Note.union core.notes notes = core.notes →
      Note.union (core.merge other).record.notes notes = (core.merge other).record.notes) ∧
    (core.isDefined = true → (core.merge other).record.isDefined = true ∧
      (core.merge other).record.definition = core.definition ∧
      (core.merge other).record.place = core.place) := by
  cases hother : other.isDefined with
  | false =>
    rw [merge_of_not_defined hother]
    exact ⟨fun _ h => Storage.union_absorbed h _, fun _ h => Note.union_absorbed h _,
      fun hdefined => ⟨hdefined, rfl, rfl⟩⟩
  | true =>
    cases hdefined : core.isDefined with
    | false =>
      rw [merge_of_first hother hdefined]
      exact ⟨fun _ h => Storage.union_absorbed h _, fun _ h => Note.union_absorbed h _,
        fun h => absurd h Bool.false_ne_true⟩
    | true =>
      cases hplace : core.definition.any (·.same other.place) with
      | true =>
        rw [merge_of_same hother hdefined hplace]
        exact ⟨fun _ h => h, fun _ h => Note.union_absorbed h _, fun _ => ⟨hdefined, rfl, rfl⟩⟩
      | false =>
        rw [merge_of_other hother hdefined hplace]
        exact ⟨fun _ h => h, fun _ h => h, fun _ => ⟨hdefined, rfl, rfl⟩⟩

/-- What a record absorbs it absorbs behind a further sighting. -/
theorem merge_frame {conflict : Option Place} (h : core.merge newer = ⟨core, conflict⟩)
    (other : Core β) :
    (core.merge other).record.merge newer = ⟨(core.merge other).record, conflict⟩ := by
  obtain ⟨hstorage, hnotes, hdefinition⟩ := core.merge_grows other
  generalize (core.merge other).record = later at hstorage hnotes hdefinition ⊢
  cases hnewer : newer.isDefined with
  | false =>
    rw [merge_of_not_defined hnewer] at h
    have hstorage' := hstorage newer.storage (congrArg (·.record.storage) h)
    have hnotes' := hnotes newer.notes (congrArg (·.record.notes) h)
    obtain rfl : none = conflict := congrArg (·.conflict) h
    rw [merge_of_not_defined hnewer, hstorage', hnotes']
  | true =>
    cases hdefined : core.isDefined with
    | false =>
      -- A record without a definition does not absorb one.
      rw [merge_of_first hnewer hdefined] at h
      have hnow : true = core.isDefined := congrArg (·.record.isDefined) h
      rw [hdefined] at hnow
      cases hnow
    | true =>
      obtain ⟨hlater, hdefinition, hplace⟩ := hdefinition hdefined
      cases hsame : core.definition.any (·.same newer.place) with
      | true =>
        rw [merge_of_same hnewer hdefined hsame] at h
        have hnotes' := hnotes newer.notes (congrArg (·.record.notes) h)
        obtain rfl : none = conflict := congrArg (·.conflict) h
        rw [← hdefinition] at hsame
        rw [merge_of_same hnewer hlater hsame, hnotes']
      | false =>
        rw [merge_of_other hnewer hdefined hsame, ← hdefinition, ← hplace] at h
        obtain rfl : some _ = conflict := congrArg (·.conflict) h
        rw [← hdefinition] at hsame
        rw [merge_of_other hnewer hlater hsame]

end Core

namespace HasCore

variable {α β : Type} [Record α] [LawfulRecord α] [Definable α] [HasCore α β]

theorem absorbing {found : α → Prop} (hfound : ∀ record, found record → (core record).InPlace) :
    Absorbing found where
  alone newer hnewer := merge_eq (Core.merge_alone (hfound newer hnewer)) rfl rfl
  again record newer := by
    have hagain := Core.merge_again (core record) (core newer)
    rw [merge_core record newer] at hagain
    exact merge_eq hagain rfl rfl
  frame record newer other conflict h := by
    have hcore := merge_core record newer
    rw [h] at hcore
    have hframe := Core.merge_frame hcore (core other)
    rw [merge_core record other] at hframe
    exact merge_eq hframe rfl rfl

end HasCore

/-- A function absorbs a body at the place of its own. -/
theorem Function.absorbing :
    Absorbing fun f : Function => (Declaration.function f).DefinedInPlace :=
  HasCore.absorbing fun _ hfound => hfound

/-- A structure absorbs a field list at the place of its own. -/
theorem Structure.absorbing :
    Absorbing fun s : Structure => (Declaration.struct s).DefinedInPlace :=
  HasCore.absorbing fun _ hfound => hfound

/-! ## Typedefs and variables -/

/-- A typedef absorbs notes that it has. -/
theorem Typedef.absorbing : Absorbing fun _ : Typedef => True where
  alone t _ := by
    have hnotes : Note.union t.notes t.notes = t.notes := Note.union_eq_self fun _ ha => ha
    exact congrArg (Merged.mk · none) (by rw [merge, hnotes])
  again t newer := congrArg (Merged.mk · none) (by simp [Record.merge, merge, Note.union_again])
  frame t newer other conflict h := by
    have hnotes : Note.union t.notes newer.notes = t.notes := congrArg (·.record.notes) h
    obtain rfl : none = conflict := congrArg (·.conflict) h
    exact congrArg (Merged.mk · none)
      (by simp [Record.merge, merge, Note.union_absorbed hnotes])

/-- A variable absorbs what does not make it `extern` no more, and an initializer behind its own. -/
theorem Variable.absorbing : Absorbing fun _ : Variable => True where
  alone v _ := by
    have hnotes : Note.union v.notes v.notes = v.notes := Note.union_eq_self fun _ ha => ha
    exact congrArg (Merged.mk · none) (by simp [merge, hnotes])
  again v newer := congrArg (Merged.mk · none)
    (by simp [Record.merge, merge, Note.union_again, Option.or_assoc])
  frame v newer other conflict h := by
    have hnotes : Note.union v.notes newer.notes = v.notes := congrArg (·.record.notes) h
    have hextern : (v.isExtern && newer.isExtern) = v.isExtern := congrArg (·.record.isExtern) h
    have hinitializer : v.initializer.or newer.initializer = v.initializer :=
      congrArg (·.record.initializer) h
    obtain rfl : none = conflict := congrArg (·.conflict) h
    have hextern' : (v.isExtern && other.isExtern && newer.isExtern) =
        (v.isExtern && other.isExtern) := by rw [Bool.and_right_comm, hextern]
    have hinitializer' : (v.initializer.or other.initializer).or newer.initializer =
        v.initializer.or other.initializer := by
      cases hfirst : v.initializer with
      | some text => rfl
      | none =>
        rw [hfirst] at hinitializer
        have hnewer : newer.initializer = none := hinitializer
        rw [hnewer, Option.or_none]
    refine congrArg (Merged.mk · none) ?_
    simp only [Record.merge, merge, Note.union_absorbed hnotes, hextern', hinitializer']

theorem Placeholder.same_self (p : Placeholder) : p.same p = true := by
  simp [same]

namespace Table

variable {α : Type} [Record α] {table : Table α} {found : α → Prop} {newer : α}
  {conflict : Option Place}

/-- A table absorbs a sighting if the record of its name does. -/
def Absorbs (table : Table α) (newer : α) (conflict : Option Place) : Prop :=
  ∃ record, table.named? (Record.name newer) = some record ∧
    Record.merge record newer = ⟨record, conflict⟩

/-- A sighting that is absorbed changes nothing. -/
theorem Absorbs.sight (h : table.Absorbs newer conflict) :
    table.sight newer = (table, conflict) := by
  obtain ⟨record, hnamed, hmerge⟩ := h
  obtain ⟨position, hlookup, hrecord⟩ := Option.bind_eq_some_iff.mp hnamed
  simp [Table.sight, hlookup, hrecord, hmerge, set_of_getElem? hrecord]

/-- A sighting is absorbed behind itself. -/
theorem WellFormed.absorbs_sight (h : table.WellFormed) (habsorbing : Absorbing found)
    (hnewer : found newer) : (table.sight newer).1.Absorbs newer (table.sight newer).2 := by
  rw [h.conflict_sight]
  refine ⟨_, (h.named?_sight newer _).trans (if_pos rfl), ?_⟩
  cases table.named? (Record.name newer) with
  | none => exact habsorbing.alone newer hnewer
  | some record => exact habsorbing.again record newer

/-- What is absorbed is so behind any other sighting. -/
theorem WellFormed.absorbs_frame (h : table.WellFormed) (habsorbing : Absorbing found)
    (habsorbs : table.Absorbs newer conflict) (other : α) :
    (table.sight other).1.Absorbs newer conflict := by
  obtain ⟨record, hnamed, hmerge⟩ := habsorbs
  by_cases hname : Record.name newer = Record.name other
  · refine ⟨_, (h.named?_sight other _).trans (if_pos hname), ?_⟩
    rw [hnamed]
    exact habsorbing.frame record newer other conflict hmerge
  · exact ⟨record, ((h.named?_sight other _).trans (if_neg hname)).trans hnamed, hmerge⟩

end Table

namespace Catalog

variable {catalog : Catalog} {d : Declaration} {complaint : Option Diagnostic}

/-- A catalog absorbs a declaration if the table of its kind does, with a report if it is
refused. -/
def Absorbs (catalog : Catalog) : Declaration → Option Diagnostic → Prop
  | .function f, complaint => ∃ conflict, catalog.functionTable.Absorbs f conflict ∧
      conflict.map (redefinition .function f.name f.place) = complaint
  | .struct s, complaint => ∃ conflict, catalog.structureTable.Absorbs s conflict ∧
      conflict.map (redefinition .struct s.name s.place) = complaint
  | .typedef t, complaint => ∃ conflict, catalog.typedefTable.Absorbs t conflict ∧
      conflict.map (redefinition .typedef t.name t.place) = complaint
  | .variable v, complaint => ∃ conflict, catalog.globalTable.Absorbs v conflict ∧
      conflict.map (redefinition .variable v.name v.place) = complaint
  | .placeholder p, complaint =>
    catalog.placeholders.any (fun known => known.same p) = true ∧ complaint = none

/-- A declaration that is absorbed changes nothing. -/
theorem Absorbs.add (h : catalog.Absorbs d complaint) : catalog.add d = (catalog, complaint) := by
  cases d with
  | placeholder p =>
    obtain ⟨hknown, rfl⟩ := h
    simp [Catalog.add, hknown]
  | _ =>
    obtain ⟨conflict, habsorbs, rfl⟩ := h
    simp [Catalog.add, habsorbs.sight]

/-- A declaration that was found in a text is absorbed behind itself. -/
theorem WellFormed.absorbs_add (h : catalog.WellFormed) (hd : d.DefinedInPlace) :
    (catalog.add d).1.Absorbs d (catalog.add d).2 := by
  cases d with
  | function f => exact ⟨_, h.functions.absorbs_sight Function.absorbing hd, rfl⟩
  | struct s => exact ⟨_, h.structures.absorbs_sight Structure.absorbing hd, rfl⟩
  | typedef t => exact ⟨_, h.typedefs.absorbs_sight Typedef.absorbing trivial, rfl⟩
  | «variable» v => exact ⟨_, h.globals.absorbs_sight Variable.absorbing trivial, rfl⟩
  | placeholder p =>
    cases hknown : catalog.placeholders.any fun known => known.same p with
    | true => simp [Catalog.add, Absorbs, hknown]
    | false => simp [Catalog.add, Absorbs, hknown, Placeholder.same_self]

/-- What the table of a part absorbs it absorbs behind any other declaration. -/
theorem Part.absorbs_frame {α : Type} [Record α] (part : Part α) {found : α → Prop} {newer : α}
    {conflict : Option Place} (h : (part.table catalog).WellFormed)
    (habsorbing : Absorbing found) (habsorbs : (part.table catalog).Absorbs newer conflict)
    (other : Declaration) : (part.table (catalog.add other).1).Absorbs newer conflict := by
  rw [part.table_add]
  cases part.sighting? other with
  | none => exact habsorbs
  | some other => exact h.absorbs_frame habsorbing habsorbs other

/-- What is absorbed is so behind any other declaration. -/
theorem WellFormed.absorbs_frame (h : catalog.WellFormed) (habsorbs : catalog.Absorbs d complaint)
    (other : Declaration) : (catalog.add other).1.Absorbs d complaint := by
  cases d with
  | function f =>
    obtain ⟨conflict, htable, heq⟩ := habsorbs
    exact ⟨conflict, Part.functions.absorbs_frame h.functions Function.absorbing htable other, heq⟩
  | struct s =>
    obtain ⟨conflict, htable, heq⟩ := habsorbs
    exact ⟨conflict, Part.structures.absorbs_frame h.structures Structure.absorbing htable other,
      heq⟩
  | typedef t =>
    obtain ⟨conflict, htable, heq⟩ := habsorbs
    exact ⟨conflict, Part.typedefs.absorbs_frame h.typedefs Typedef.absorbing htable other, heq⟩
  | «variable» v =>
    obtain ⟨conflict, htable, heq⟩ := habsorbs
    exact ⟨conflict, Part.globals.absorbs_frame h.globals Variable.absorbing htable other, heq⟩
  | placeholder p =>
    obtain ⟨hknown, hcomplaint⟩ := habsorbs
    obtain ⟨known, hmem, hsame⟩ := List.any_eq_true.mp hknown
    exact ⟨List.any_eq_true.mpr ⟨known, (h.keeps_add other).placeholders.subset hmem, hsame⟩,
      hcomplaint⟩

/-- Declarations that are found in texts keep a catalog well formed. -/
theorem WellFormed.addAll (h : catalog.WellFormed) {ds : List Declaration}
    (hds : ∀ d ∈ ds, d.DefinedInPlace) : (catalog.addAll ds).WellFormed := by
  induction ds generalizing catalog with
  | nil => exact h
  | cons d ds ih =>
    exact ih (h.add (hds d List.mem_cons_self).consistent) fun other hother =>
      hds other (List.mem_cons_of_mem _ hother)

/-- What is absorbed is so behind any other declarations. -/
theorem WellFormed.absorbs_addAll (h : catalog.WellFormed) {ds : List Declaration}
    (hds : ∀ d ∈ ds, d.DefinedInPlace) (habsorbs : catalog.Absorbs d complaint) :
    (catalog.addAll ds).Absorbs d complaint := by
  induction ds generalizing catalog with
  | nil => exact habsorbs
  | cons other ds ih =>
    exact ih (h.add (hds other List.mem_cons_self).consistent)
      (fun d hd => hds d (List.mem_cons_of_mem _ hd)) (h.absorbs_frame habsorbs other)

end Catalog

end RemoteCalls
