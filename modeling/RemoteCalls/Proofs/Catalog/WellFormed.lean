import RemoteCalls.Proofs.Catalog.Table
import RemoteCalls.Proofs.Declaration

/-!
# Well-formed catalogs

In a well-formed catalog each kind has one record for each name, found by an index that knows just
those names; a function or a structure counts as defined just if the place of its definition is
known; and no placeholder is there twice. Sightings of consistent declarations keep a catalog well
formed, and each of them changes at most the record of its own kind and name.
-/

namespace RemoteCalls.Catalog

/-- What holds of a catalog whatever was put into it. -/
structure WellFormed (catalog : Catalog) : Prop where
  functions : catalog.functionTable.WellFormed
  structures : catalog.structureTable.WellFormed
  typedefs : catalog.typedefTable.WellFormed
  globals : catalog.globalTable.WellFormed
  functionsConsistent : ∀ f ∈ catalog.functions, f.isDefined = f.definition.isSome
  structuresConsistent : ∀ s ∈ catalog.structures, s.isDefined = s.definition.isSome
  placeholders : catalog.placeholders.Pairwise fun p q => p.same q = false

/-- A look-up by name finds the record of that name, if there is one, and no other. -/
structure LooksUp (catalog : Catalog) : Prop where
  function : ∀ name f,
    catalog.functionNamed? name = some f ↔ f ∈ catalog.functions ∧ f.name = name
  struct : ∀ name s,
    catalog.structureNamed? name = some s ↔ s ∈ catalog.structures ∧ s.name = name
  typedef : ∀ name t,
    catalog.typedefNamed? name = some t ↔ t ∈ catalog.typedefs ∧ t.name = name
  global : ∀ name v,
    catalog.variableNamed? name = some v ↔ v ∈ catalog.globals ∧ v.name = name

/-- What a sighting of a declaration leaves of a catalog. Records of other kinds or names stay as
they are, no record moves, all keep their first sighting, and a placeholder goes behind the others.
-/
structure Keeps (catalog : Catalog) (d : Declaration) (later : Catalog) : Prop where
  functions : catalog.functionTable.Extends
    (fun name => d.kind = .function ∧ name = d.name) later.functionTable
  structures : catalog.structureTable.Extends
    (fun name => d.kind = .struct ∧ name = d.name) later.structureTable
  typedefs : catalog.typedefTable.Extends
    (fun name => d.kind = .typedef ∧ name = d.name) later.typedefTable
  globals : catalog.globalTable.Extends
    (fun name => d.kind = .variable ∧ name = d.name) later.globalTable
  placeholders : catalog.placeholders <+: later.placeholders
  placeholders_eq : d.kind ≠ .placeholder → later.placeholders = catalog.placeholders
  errors : later.errors = catalog.errors
  inputs : later.inputs = catalog.inputs

theorem wellFormed_empty : empty.WellFormed where
  functions := Table.wellFormed_empty
  structures := Table.wellFormed_empty
  typedefs := Table.wellFormed_empty
  globals := Table.wellFormed_empty
  functionsConsistent f hf := by cases hf
  structuresConsistent s hs := by cases hs
  placeholders := List.Pairwise.nil

variable {catalog : Catalog}

theorem WellFormed.looksUp (h : catalog.WellFormed) : catalog.LooksUp where
  function _ _ := h.functions.named?_eq_some_iff
  struct _ _ := h.structures.named?_eq_some_iff
  typedef _ _ := h.typedefs.named?_eq_some_iff
  global _ _ := h.globals.named?_eq_some_iff

theorem WellFormed.report (h : catalog.WellFormed) (diagnostic : Diagnostic) :
    (catalog.report diagnostic).WellFormed :=
  ⟨h.functions, h.structures, h.typedefs, h.globals, h.functionsConsistent,
    h.structuresConsistent, h.placeholders⟩

theorem WellFormed.addInput (h : catalog.WellFormed) (file : Path) :
    (catalog.addInput file).WellFormed := by
  unfold Catalog.addInput
  split
  · exact h
  · exact ⟨h.functions, h.structures, h.typedefs, h.globals, h.functionsConsistent,
      h.structuresConsistent, h.placeholders⟩

/-- A placeholder that is not there yet is at no place where it is. -/
theorem pairwise_addPlaceholder {placeholders : List Placeholder} {p : Placeholder}
    (h : placeholders.Pairwise fun p q => p.same q = false)
    (hnew : ¬ placeholders.any (fun known => known.same p) = true) :
    (placeholders ++ [p]).Pairwise fun p q => p.same q = false := by
  rw [List.pairwise_append]
  refine ⟨h, List.pairwise_singleton _ _, ?_⟩
  intro known hknown other hother
  rw [List.mem_singleton.mp hother]
  cases hsame : known.same p with
  | false => rfl
  | true => exact absurd (List.any_eq_true.mpr ⟨known, hknown, hsame⟩) hnew

/-- A sighting of a consistent declaration keeps a catalog well formed. -/
theorem WellFormed.add (h : catalog.WellFormed) {d : Declaration} (hd : d.Consistent) :
    (catalog.add d).1.WellFormed := by
  cases d with
  | function f =>
    have hconsistent := Table.forall_sight
      (fun _ newer hf _ => Function.Consistent.merge hf newer) catalog.functionTable
      h.functionsConsistent hd
    exact ⟨h.functions.sight f, h.structures, h.typedefs, h.globals, hconsistent,
      h.structuresConsistent, h.placeholders⟩
  | struct s =>
    have hconsistent := Table.forall_sight
      (fun _ newer hs _ => Structure.Consistent.merge hs newer) catalog.structureTable
      h.structuresConsistent hd
    exact ⟨h.functions, h.structures.sight s, h.typedefs, h.globals, h.functionsConsistent,
      hconsistent, h.placeholders⟩
  | typedef t =>
    exact ⟨h.functions, h.structures, h.typedefs.sight t, h.globals, h.functionsConsistent,
      h.structuresConsistent, h.placeholders⟩
  | «variable» v =>
    exact ⟨h.functions, h.structures, h.typedefs, h.globals.sight v, h.functionsConsistent,
      h.structuresConsistent, h.placeholders⟩
  | placeholder p =>
    simp only [Catalog.add]
    split
    · exact h
    · next hnew =>
      exact ⟨h.functions, h.structures, h.typedefs, h.globals, h.functionsConsistent,
        h.structuresConsistent, pairwise_addPlaceholder h.placeholders hnew⟩

/-- A catalog in which a sighting changes no table. -/
theorem Keeps.of_placeholders (d : Declaration) {placeholders : List Placeholder}
    (hbehind : catalog.placeholders <+: placeholders)
    (heq : d.kind ≠ .placeholder → placeholders = catalog.placeholders) :
    catalog.Keeps d { catalog with placeholders := placeholders } :=
  ⟨Table.Extends.refl _ _, Table.Extends.refl _ _, Table.Extends.refl _ _, Table.Extends.refl _ _,
    hbehind, heq, rfl, rfl⟩

/-- A sighting changes nothing but the record of its kind and name. -/
theorem WellFormed.keeps_add (h : catalog.WellFormed) (d : Declaration) :
    catalog.Keeps d (catalog.add d).1 := by
  have hsame := Keeps.of_placeholders d (List.prefix_refl catalog.placeholders) fun _ => rfl
  cases d with
  | function f =>
    exact { hsame with
      functions := (h.functions.extends_sight f).mono fun _ hname => ⟨rfl, hname⟩ }
  | struct s =>
    exact { hsame with
      structures := (h.structures.extends_sight s).mono fun _ hname => ⟨rfl, hname⟩ }
  | typedef t =>
    exact { hsame with
      typedefs := (h.typedefs.extends_sight t).mono fun _ hname => ⟨rfl, hname⟩ }
  | «variable» v =>
    exact { hsame with
      globals := (h.globals.extends_sight v).mono fun _ hname => ⟨rfl, hname⟩ }
  | placeholder p =>
    simp only [Catalog.add]
    split
    · exact hsame
    · exact Keeps.of_placeholders _ (List.prefix_append _ _) fun hkind => absurd rfl hkind

theorem ne_none_of_map {α β : Type} {found : Option α} {f : α → β} (h : found.map f ≠ none) :
    found ≠ none := by
  rintro rfl
  exact h rfl

/-- A sighting that contradicts a definition changes nothing. -/
theorem add_of_conflict (catalog : Catalog) (d : Declaration) (h : (catalog.add d).2 ≠ none) :
    (catalog.add d).1 = catalog := by
  cases d with
  | function f =>
    have htable := Table.sight_of_conflict catalog.functionTable f (ne_none_of_map h)
    simp only [Catalog.add, htable]
  | struct s =>
    have htable := Table.sight_of_conflict catalog.structureTable s (ne_none_of_map h)
    simp only [Catalog.add, htable]
  | typedef t =>
    have htable := Table.sight_of_conflict catalog.typedefTable t (ne_none_of_map h)
    simp only [Catalog.add, htable]
  | «variable» v =>
    have htable := Table.sight_of_conflict catalog.globalTable v (ne_none_of_map h)
    simp only [Catalog.add, htable]
  | placeholder p =>
    simp only [Catalog.add] at h ⊢
    split
    · rfl
    · next hnew =>
      rw [if_neg hnew] at h
      exact absurd rfl h

end RemoteCalls.Catalog
