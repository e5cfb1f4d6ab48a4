import RemoteCalls.Proofs.Catalog.Core
import RemoteCalls.Proofs.Catalog.Names
import RemoteCalls.Proofs.Catalog.WellFormed
import RemoteCalls.Proofs.Outline.Findings

/-!
# What sightings of one name amount to

A record is built up sighting by sighting. This module says what it amounts to in the end, as one
definition for each kind over the whole row of sightings of a name: the first sighting gives the
place, the first definition gives the signature or the fields, and all sightings that are not
refused give notes. A definition is refused if an earlier one stands at another place.
-/

namespace RemoteCalls

/-- The union adds the new notes in their order, each once. -/
theorem Note.union_eq_append (into new : List Note) :
    union into new = into ++ (new.removeAll into).eraseDups :=
  foldl_eq_append_eraseDups (fun _ _ ha => if_pos ha) (fun _ _ ha => if_neg ha) into new

theorem Note.union_append (into new more : List Note) :
    union into (new ++ more) = union (union into new) more := by
  simp [union]

/-- The storage words seen on any of some declarations. -/
def Storage.anyOf (storages : List Storage) : Storage :=
  ⟨storages.any (·.isStatic), storages.any (·.isExtern), storages.any (·.isInline)⟩

theorem Storage.anyOf_singleton (storage : Storage) : anyOf [storage] = storage := by
  simp [anyOf]

theorem Storage.anyOf_map_empty {α : Type} (xs : List α) : anyOf (xs.map fun _ => empty) = empty := by
  simp [anyOf, empty]

/-- The order of declarations does not matter for their storage words. -/
theorem Storage.anyOf_insert (front back : List Storage) (storage : Storage) :
    anyOf (front ++ storage :: back) = (anyOf (front ++ back)).union storage := by
  simp [anyOf, union, Bool.or_comm, Bool.or_left_comm]

/-! ### First definitions and refused ones -/

section

variable {α : Type} [Record α] [Definable α]

/-- The first definition among sightings in a row. -/
def definition? (sightings : List α) : Option α := sightings.find? Definable.isDefined

/-- The place of the definition that a sighting behind others contradicts: of the first one, if the
sighting is a definition too and stands at another place. -/
def contradicted? (earlier : List α) (newer : α) : Option Place :=
  match definition? earlier with
  | none => none
  | some d =>
    if Definable.isDefined newer = true ∧ (Record.place d).same (Record.place newer) = false then
      some (Record.place d)
    else none

/-- The later sightings that are not refused. What stands in front of the first definition is none
itself, so that only what comes behind can be refused. -/
def accepted (first : α) (later : List α) : List α :=
  later.filter fun newer => (contradicted? (first :: later) newer).isNone

variable {earlier : List α} {first newer : α} {later : List α}

theorem contradicted?_of_not_defined (h : Definable.isDefined newer = false) :
    contradicted? earlier newer = none := by
  unfold contradicted?
  cases definition? earlier with
  | none => rfl
  | some d => simp [h]

theorem definition?_concat_of_not_defined (h : Definable.isDefined newer = false) :
    definition? (earlier ++ [newer]) = definition? earlier := by
  simp [definition?, List.find?_append, h]

theorem definition?_concat_of_some {d : α} (h : definition? earlier = some d) (newer : α) :
    definition? (earlier ++ [newer]) = some d := by
  unfold definition? at *
  simp [List.find?_append, h]

theorem definition?_concat_of_none (h : definition? earlier = none)
    (hnewer : Definable.isDefined newer = true) :
    definition? (earlier ++ [newer]) = some newer := by
  unfold definition? at *
  simp [List.find?_append, h, hnewer]

theorem not_defined_of_definition?_eq_none (h : definition? earlier = none) :
    ∀ s ∈ earlier, Definable.isDefined s = false := by
  intro s hs
  simpa using List.find?_eq_none.mp h s hs

/-- Only the first definition matters for what is refused. -/
theorem contradicted?_congr {other : List α} (h : definition? earlier = definition? other)
    (newer : α) : contradicted? earlier newer = contradicted? other newer := by
  simp [contradicted?, h]

/-- The three parts that a sighting behind others can play: it is no definition, it is the first
definition, or there is one that it may contradict. -/
theorem sighting_cases (earlier : List α) (newer : α) :
    (Definable.isDefined newer = false ∧ definition? (earlier ++ [newer]) = definition? earlier ∧
      contradicted? earlier newer = none) ∨
    (Definable.isDefined newer = true ∧ definition? earlier = none ∧
      definition? (earlier ++ [newer]) = some newer ∧ contradicted? earlier newer = none) ∨
    ∃ d, Definable.isDefined newer = true ∧ definition? earlier = some d ∧
      definition? (earlier ++ [newer]) = some d ∧
      contradicted? earlier newer =
        if (Record.place d).same (Record.place newer) then none else some (Record.place d) := by
  cases hdefined : Definable.isDefined newer with
  | false =>
    exact Or.inl ⟨rfl, definition?_concat_of_not_defined hdefined,
      contradicted?_of_not_defined hdefined⟩
  | true =>
    cases hdefinition : definition? earlier with
    | none =>
      refine Or.inr (Or.inl ⟨rfl, rfl, definition?_concat_of_none hdefinition hdefined, ?_⟩)
      simp [contradicted?, hdefinition]
    | some d =>
      refine Or.inr (Or.inr ⟨d, rfl, rfl, definition?_concat_of_some hdefinition newer, ?_⟩)
      cases hplace : (Record.place d).same (Record.place newer) with
      | true => simp [contradicted?, hdefinition, hplace]
      | false => simp [contradicted?, hdefinition, hdefined, hplace]

/-- Where nothing is defined, nothing is refused. -/
theorem filter_contradicted?_of_none (h : definition? (first :: later) = none) (earlier : List α) :
    later.filter (fun s => (contradicted? earlier s).isNone) = later := by
  refine List.filter_eq_self.mpr ?_
  intro s hs
  rw [contradicted?_of_not_defined
    (not_defined_of_definition?_eq_none h s (List.mem_cons_of_mem _ hs))]
  rfl

/-- One more sighting is accepted just if it contradicts nothing, and changes nothing for those in
front of it. -/
theorem accepted_concat (first : α) (later : List α) (newer : α) :
    accepted first (later ++ [newer]) =
      accepted first later ++
        if contradicted? (first :: later) newer = none then [newer] else [] := by
  cases hdefinition : definition? (first :: later) with
  | none =>
    -- Nothing in front is a definition, so nothing there is refused, and the sighting cannot
    -- contradict itself.
    have hnewer : contradicted? (first :: later) newer = none := by
      simp [contradicted?, hdefinition]
    have hself : contradicted? (first :: (later ++ [newer])) newer = none := by
      cases hdefined : Definable.isDefined newer with
      | false => exact contradicted?_of_not_defined hdefined
      | true =>
        have hlast := definition?_concat_of_none hdefinition hdefined
        rw [List.cons_append] at hlast
        simp [contradicted?, hlast]
    rw [accepted, List.filter_append, filter_contradicted?_of_none hdefinition, accepted,
      filter_contradicted?_of_none hdefinition, if_pos hnewer]
    simp [hself]
  | some d =>
    have hsame : definition? (first :: (later ++ [newer])) = definition? (first :: later) := by
      rw [hdefinition, ← List.cons_append]
      exact definition?_concat_of_some hdefinition newer
    have hcongr : ∀ s : α,
        contradicted? (first :: (later ++ [newer])) s = contradicted? (first :: later) s :=
      contradicted?_congr hsame
    simp only [accepted, List.filter_append, hcongr]
    cases hcontradicted : contradicted? (first :: later) newer with
    | none => simp [hcontradicted]
    | some place => simp [hcontradicted]

/-- What the accepted sightings bring altogether, one accepted sighting later. -/
theorem union_accepted_concat (notes : α → List Note) (first : α) (later : List α) (newer : α)
    (h : contradicted? (first :: later) newer = none) :
    Note.union (notes first) ((accepted first (later ++ [newer])).flatMap notes) =
      Note.union (Note.union (notes first) ((accepted first later).flatMap notes))
        (notes newer) := by
  rw [accepted_concat, if_pos h, List.flatMap_append, List.flatMap_singleton, Note.union_append]

/-- A refused sighting brings nothing. -/
theorem accepted_concat_of_contradicted {place : Place}
    (h : contradicted? (first :: later) newer = some place) :
    accepted first (later ++ [newer]) = accepted first later := by
  rw [accepted_concat, h]
  exact List.append_nil _

end

/-! ### Cores -/

namespace HasCore

variable {α β : Type} [Record α] [Definable α] [HasCore α β] {earlier : List α} {newer : α}

/-- The storage words that sightings bring: those of all that are not definitions, and those of the
first definition. -/
def storageOf (sightings : List α) : Storage :=
  .anyOf ((sightings.filter (!Definable.isDefined ·) ++ (definition? sightings).toList).map
    fun sighting => (core sighting).storage)

/-- What the cores of sightings amount to. -/
def ofSightings (first : α) (later : List α) : Core β :=
  let all := first :: later
  { content := (core ((definition? all).getD first)).content
    storage := storageOf all
    place := Record.place first
    isDefined := (definition? all).isSome
    definition := (definition? all).map Record.place
    notes := (core first).notes ++ (((accepted first later).flatMap fun sighting =>
      (core sighting).notes).removeAll (core first).notes).eraseDups }

/-- One sighting amounts to itself. -/
theorem ofSightings_nil {first : α} (h : (core first).InPlace) :
    ofSightings first [] = core first := by
  have hplace := place_core first
  have hdefined := isDefined_core first
  rcases hcore : core first with ⟨content, storage, place, isDefined, definition, notes⟩
  rw [hcore] at h hplace hdefined
  obtain rfl : definition = if isDefined then some place else none := h
  obtain rfl : place = Record.place first := hplace
  cases isDefined with
  | false =>
    simp [ofSightings, storageOf, definition?, accepted, ← hdefined, hcore, Storage.anyOf_singleton]
  | true =>
    simp [ofSightings, storageOf, definition?, accepted, ← hdefined, hcore, Storage.anyOf_singleton]

theorem storageOf_concat_of_not_defined (h : Definable.isDefined newer = false) :
    storageOf (earlier ++ [newer]) = (storageOf earlier).union (core newer).storage := by
  have hdefinition : definition? (earlier ++ [newer]) = definition? earlier :=
    definition?_concat_of_not_defined h
  have hfilter : (earlier ++ [newer]).filter (!Definable.isDefined ·) =
      earlier.filter (!Definable.isDefined ·) ++ [newer] := by simp [h]
  simp only [storageOf, hdefinition, hfilter, List.map_append, List.map_cons,
    List.append_assoc, List.cons_append, List.nil_append]
  exact Storage.anyOf_insert _ _ _

theorem storageOf_concat_of_first (hnone : definition? earlier = none)
    (h : Definable.isDefined newer = true) :
    storageOf (earlier ++ [newer]) = (storageOf earlier).union (core newer).storage := by
  have hdefinition : definition? (earlier ++ [newer]) = some newer :=
    definition?_concat_of_none hnone h
  have hfilter : (earlier ++ [newer]).filter (!Definable.isDefined ·) =
      earlier.filter (!Definable.isDefined ·) := by simp [h]
  simp only [storageOf, hdefinition, hfilter, hnone, Option.toList_some, Option.toList_none,
    List.map_append, List.map_cons, List.map_nil]
  exact Storage.anyOf_insert _ [] _

/-- Behind the first definition another one brings no storage words. -/
theorem storageOf_concat_of_again {d : α} (hsome : definition? earlier = some d)
    (h : Definable.isDefined newer = true) :
    storageOf (earlier ++ [newer]) = storageOf earlier := by
  have hdefinition : definition? (earlier ++ [newer]) = some d :=
    definition?_concat_of_some hsome newer
  simp [storageOf, hdefinition, hsome, h]

/-- One more sighting is taken in, unless it contradicts the first definition. -/
theorem merge_ofSightings (first : α) (later : List α) (newer : α) :
    (ofSightings first later).merge (core newer) =
      ⟨ofSightings first (later ++ [newer]), contradicted? (first :: later) newer⟩ := by
  have hconcat : first :: (later ++ [newer]) = (first :: later) ++ [newer] := rfl
  have hnotes := union_accepted_concat (fun sighting => (core sighting).notes) first later newer
  rcases sighting_cases (first :: later) newer with ⟨hdefined, hsame, haccepted⟩ |
      ⟨hdefined, hnone, hnow, haccepted⟩ | ⟨d, hdefined, hsome, hagain, hresult⟩
  · rw [Core.merge_of_not_defined ((isDefined_core newer).trans hdefined)]
    simp only [ofSightings, ← Note.union_eq_append, hconcat, hsame, haccepted,
      storageOf_concat_of_not_defined hdefined, hnotes haccepted]
  · have hfirst : (ofSightings first later).isDefined = false := by
      simp only [ofSightings, hnone, Option.isSome_none]
    rw [Core.merge_of_first ((isDefined_core newer).trans hdefined) hfirst]
    simp only [ofSightings, ← Note.union_eq_append, hconcat, hnow, haccepted, place_core,
      storageOf_concat_of_first hnone hdefined, hnotes haccepted, Option.getD_some,
      Option.isSome_some, Option.map_some]
  · have hthere : (ofSightings first later).isDefined = true := by
      simp only [ofSightings, hsome, Option.isSome_some]
    have hany : (ofSightings first later).definition.any (·.same (core newer).place) =
        (Record.place d).same (Record.place newer) := by
      simp only [ofSightings, hsome, Option.map_some, Option.any_some, place_core]
    have hstorage := storageOf_concat_of_again hsome hdefined
    by_cases hplace : (Record.place d).same (Record.place newer) = true
    · have haccepted := hresult.trans (if_pos hplace)
      rw [Core.merge_of_same ((isDefined_core newer).trans hdefined) hthere (hany.trans hplace)]
      simp only [ofSightings, ← Note.union_eq_append, hconcat, hsome, hagain, hstorage, haccepted,
        hnotes haccepted]
    · have hrefused := hresult.trans (if_neg hplace)
      rw [Bool.not_eq_true] at hplace
      rw [Core.merge_of_other ((isDefined_core newer).trans hdefined) hthere (hany.trans hplace)]
      simp only [ofSightings, hconcat, hsome, hagain, hstorage, hrefused,
        accepted_concat_of_contradicted hrefused, Option.map_some, Option.getD_some]

end HasCore

/-! ### Functions -/

namespace Function

/-- The storage words that sightings bring: those of all that are not definitions, and those of the
first definition. -/
def storageOf (sightings : List Function) : Storage :=
  .anyOf ((sightings.filter (!·.isDefined) ++ (definition? sightings).toList).map (·.storage))

/-- What sightings of one function amount to. -/
def ofSightings (first : Function) (later : List Function) : Function :=
  let all := first :: later
  let signature := (definition? all).getD first
  { name := first.name
    result := signature.result
    params := signature.params
    storage := storageOf all
    origin := first.origin
    place := first.place
    isDefined := (definition? all).isSome
    definition := (definition? all).map (·.place)
    notes := first.notes ++
      (((accepted first later).flatMap (·.notes)).removeAll first.notes).eraseDups }

theorem core_ofSightings (first : Function) (later : List Function) :
    HasCore.core (ofSightings first later) = HasCore.ofSightings first later := rfl

/-- One sighting amounts to itself. -/
theorem ofSightings_nil {first : Function} (h : (Declaration.function first).DefinedInPlace) :
    ofSightings first [] = first :=
  HasCore.eq_of_core _ _ ((core_ofSightings first []).trans (HasCore.ofSightings_nil h)) rfl rfl

/-- One more sighting is taken in, unless it contradicts the first definition. -/
theorem merge_ofSightings (first : Function) (later : List Function) (newer : Function) :
    (ofSightings first later).merge newer =
      ⟨ofSightings first (later ++ [newer]), contradicted? (first :: later) newer⟩ := by
  change Record.merge (ofSightings first later) newer = _
  refine HasCore.merge_eq ?_ rfl rfl
  rw [core_ofSightings, core_ofSightings, HasCore.merge_ofSightings]

end Function

/-! ### Structures -/

namespace Structure

/-- What sightings of one structure amount to. -/
def ofSightings (first : Structure) (later : List Structure) : Structure :=
  let all := first :: later
  { name := first.name
    fields := ((definition? all).getD first).fields
    origin := first.origin
    place := first.place
    isDefined := (definition? all).isSome
    definition := (definition? all).map (·.place)
    notes := first.notes ++
      (((accepted first later).flatMap (·.notes)).removeAll first.notes).eraseDups }

theorem core_ofSightings (first : Structure) (later : List Structure) :
    HasCore.core (ofSightings first later) = HasCore.ofSightings first later := by
  have hstorage (sightings : List Structure) : HasCore.storageOf sightings = .empty :=
    Storage.anyOf_map_empty _
  rw [HasCore.ofSightings, hstorage]
  rfl

/-- One sighting amounts to itself. -/
theorem ofSightings_nil {first : Structure} (h : (Declaration.struct first).DefinedInPlace) :
    ofSightings first [] = first :=
  HasCore.eq_of_core _ _ ((core_ofSightings first []).trans (HasCore.ofSightings_nil h)) rfl rfl

/-- One more sighting is taken in, unless it contradicts the first definition. -/
theorem merge_ofSightings (first : Structure) (later : List Structure) (newer : Structure) :
    (ofSightings first later).merge newer =
      ⟨ofSightings first (later ++ [newer]), contradicted? (first :: later) newer⟩ := by
  change Record.merge (ofSightings first later) newer = _
  refine HasCore.merge_eq ?_ rfl rfl
  rw [core_ofSightings, core_ofSightings, HasCore.merge_ofSightings]

end Structure

/-! ### Typedefs and variables -/

/-- What sightings of one typedef amount to: all of them bring notes, and only the first one brings
more than that. -/
def Typedef.ofSightings (first : Typedef) (later : List Typedef) : Typedef :=
  { first with
    notes := first.notes ++ ((later.flatMap (·.notes)).removeAll first.notes).eraseDups }

theorem Typedef.ofSightings_nil (first : Typedef) : ofSightings first [] = first := by
  simp [ofSightings]

theorem Typedef.merge_ofSightings (first : Typedef) (later : List Typedef) (newer : Typedef) :
    (ofSightings first later).merge newer = ofSightings first (later ++ [newer]) := by
  simp [ofSightings, merge, ← Note.union_eq_append, List.flatMap_append, Note.union_append]

/-- What sightings of one variable amount to: it is `extern` if all of them are, it has the first
initializer that is there, all of them bring notes, and the rest is that of the first one. -/
def Variable.ofSightings (first : Variable) (later : List Variable) : Variable :=
  { first with
    isExtern := (first :: later).all (·.isExtern)
    initializer := (first :: later).findSome? (·.initializer)
    notes := first.notes ++ ((later.flatMap (·.notes)).removeAll first.notes).eraseDups }

theorem Variable.ofSightings_nil (first : Variable) : ofSightings first [] = first := by
  obtain ⟨name, type, isExtern, isStatic, initializer, origin, place, notes⟩ := first
  cases initializer <;> simp [ofSightings]

theorem Variable.merge_ofSightings (first : Variable) (later : List Variable) (newer : Variable) :
    (ofSightings first later).merge newer = ofSightings first (later ++ [newer]) := by
  simp only [ofSightings, merge, ← Note.union_eq_append, List.flatMap_append,
    List.flatMap_singleton, Note.union_append]
  congr 1
  · simp [Bool.and_assoc]
  · rw [← List.cons_append, List.findSome?_append]
    simp

end RemoteCalls
