import RemoteCalls.Proofs.Catalog.Merging

/-!
# What a catalog holds behind sightings

A catalog that has begun empty holds for each name what the sightings of that name amount to, and a
further sighting is refused just if it contradicts the first definition among them. Each kind has
its table and its sightings, so that this is shown of a kind once.
-/

namespace RemoteCalls

/-- A declaration as it is found in some text. -/
def Declaration.Scanned (d : Declaration) : Prop :=
  ∃ rules file origin text, .declaration d ∈ Outline.ofText rules file origin text

theorem Declaration.Scanned.definedInPlace {d : Declaration} (h : d.Scanned) :
    d.DefinedInPlace := by
  obtain ⟨rules, file, origin, text, hmem⟩ := h
  exact (Outline.declaration_foundIn hmem).definition

/-- The declarations among findings. -/
def Outline.declared (found : List Finding) : List Declaration :=
  found.filterMap fun
    | .declaration d => some d
    | _ => none

theorem Outline.mem_of_mem_declared {found : List Finding} {d : Declaration}
    (h : d ∈ declared found) : .declaration d ∈ found := by
  obtain ⟨finding, hfinding, hd⟩ := List.mem_filterMap.mp h
  cases finding with
  | declaration d' =>
    obtain rfl := Option.some.inj hd
    exact hfinding
  | _ => cases hd

theorem Outline.scanned_of_mem_declared {rules : NoteRules} {file : Path} {origin : Origin}
    {text : String} {d : Declaration} (h : d ∈ declared (ofText rules file origin text)) :
    d.Scanned :=
  ⟨rules, file, origin, text, mem_of_mem_declared h⟩

/-- The record that sightings of one name amount to, if there are any. -/
def amount? {α : Type} (ofSightings : α → List α → α) : List α → Option α
  | [] => none
  | first :: later => some (ofSightings first later)

namespace Table

variable {α : Type} [Record α]

/-- What sightings of one name amount to, and which place a further sighting contradicts: the first
sighting amounts to itself if it is as it is found in a text, and what sightings amount to takes in
a further one by merging. -/
structure Amounts (found : α → Prop) (ofSightings : α → List α → α)
    (contradicts : List α → α → Option Place) : Prop where
  alone : ∀ first, found first → ofSightings first [] = first
  unseen : ∀ newer, contradicts [] newer = none
  merge : ∀ first later newer, Record.merge (ofSightings first later) newer =
    ⟨ofSightings first (later ++ [newer]), contradicts (first :: later) newer⟩

namespace Amounts

variable {found : α → Prop} {ofSightings : α → List α → α}
  {contradicts : List α → α → Option Place}

/-- What some sightings amount to becomes by further ones what they all amount to. -/
theorem gather (h : Amounts found ofSightings contradicts) (first : α) (front later : List α) :
    Table.gather (ofSightings first front) later = ofSightings first (front ++ later) := by
  induction later generalizing front with
  | nil => rw [List.append_nil, Table.gather, List.foldl_nil]
  | cons newer later ih =>
    have hgather : Table.gather (ofSightings first front) (newer :: later) =
        Table.gather (Record.merge (ofSightings first front) newer).record later := rfl
    rw [hgather, h.merge, ih, List.append_assoc, List.cons_append, List.nil_append]

/-- The record of sightings in a row is what they amount to. -/
theorem gathered? (h : Amounts found ofSightings contradicts) {sightings : List α}
    (hfound : ∀ first ∈ sightings, found first) :
    Table.gathered? sightings = amount? ofSightings sightings := by
  cases sightings with
  | nil => rfl
  | cons first later =>
    have hgather := h.gather first [] later
    rw [h.alone first (hfound first List.mem_cons_self), List.nil_append] at hgather
    exact congrArg some hgather

end Amounts

end Table

/-- Functions that are found in texts, each of them defined where it is sighted. -/
theorem Function.amounts :
    Table.Amounts (fun f : Function => (Declaration.function f).DefinedInPlace) ofSightings
      contradicted? :=
  ⟨fun _ => ofSightings_nil, fun _ => rfl, merge_ofSightings⟩

/-- Structures that are found in texts, each of them defined where it is sighted. -/
theorem Structure.amounts :
    Table.Amounts (fun s : Structure => (Declaration.struct s).DefinedInPlace) ofSightings
      contradicted? :=
  ⟨fun _ => ofSightings_nil, fun _ => rfl, merge_ofSightings⟩

/-- Typedefs, which are never refused. -/
theorem Typedef.amounts : Table.Amounts (fun _ => True) ofSightings fun _ _ => none :=
  ⟨fun first _ => ofSightings_nil first, fun _ => rfl, fun first later newer =>
    congrArg (Merged.mk · none) (merge_ofSightings first later newer)⟩

/-- Variables, which are never refused. -/
theorem Variable.amounts : Table.Amounts (fun _ => True) ofSightings fun _ _ => none :=
  ⟨fun first _ => ofSightings_nil first, fun _ => rfl, fun first later newer =>
    congrArg (Merged.mk · none) (merge_ofSightings first later newer)⟩

namespace Catalog

/-- The catalog behind sightings in a row. -/
def addAll (catalog : Catalog) (sightings : List Declaration) : Catalog :=
  sightings.foldl (fun catalog d => (catalog.add d).1) catalog

/-- A kind of declarations with a table: which declarations are sightings of the kind, and what the
table takes in. -/
structure Part (α : Type) [Record α] where
  sighting? : Declaration → Option α
  table : Catalog → Table α
  table_empty : table .empty = .empty
  table_add : ∀ catalog d, table (catalog.add d).1 =
    match sighting? d with
    | none => table catalog
    | some newer => ((table catalog).sight newer).1

namespace Part

/-- A placeholder is no sighting of any other kind. -/
theorem table_addPlaceholder {α : Type} {table : Catalog → Table α}
    (h : ∀ (catalog : Catalog) (placeholders : List Placeholder),
      table { catalog with placeholders := placeholders } = table catalog)
    (catalog : Catalog) (p : Placeholder) :
    table (catalog.add (.placeholder p)).1 = table catalog := by
  simp only [Catalog.add]
  split
  · rfl
  · exact h catalog _

/-- The functions. -/
def functions : Part Function where
  sighting?
    | .function f => some f
    | _ => none
  table := Catalog.functionTable
  table_empty := rfl
  table_add catalog d := by
    cases d with
    | placeholder p => exact table_addPlaceholder (fun _ _ => rfl) catalog p
    | _ => rfl

/-- The structures. -/
def structures : Part Structure where
  sighting?
    | .struct s => some s
    | _ => none
  table := Catalog.structureTable
  table_empty := rfl
  table_add catalog d := by
    cases d with
    | placeholder p => exact table_addPlaceholder (fun _ _ => rfl) catalog p
    | _ => rfl

/-- The typedefs. -/
def typedefs : Part Typedef where
  sighting?
    | .typedef t => some t
    | _ => none
  table := Catalog.typedefTable
  table_empty := rfl
  table_add catalog d := by
    cases d with
    | placeholder p => exact table_addPlaceholder (fun _ _ => rfl) catalog p
    | _ => rfl

/-- The variables. -/
def globals : Part Variable where
  sighting?
    | .variable v => some v
    | _ => none
  table := Catalog.globalTable
  table_empty := rfl
  table_add catalog d := by
    cases d with
    | placeholder p => exact table_addPlaceholder (fun _ _ => rfl) catalog p
    | _ => rfl

variable {α : Type} [Record α] (part : Part α)

/-- The sightings of a name of the kind, in order. -/
def sightings (ds : List Declaration) (name : String) : List α :=
  (ds.filterMap part.sighting?).filter (Record.name · = name)

/-- The table takes in the sightings of its kind, one by one. -/
theorem table_addAll (catalog : Catalog) (ds : List Declaration) :
    part.table (catalog.addAll ds) =
      (part.table catalog).sightAll (ds.filterMap part.sighting?) := by
  induction ds generalizing catalog with
  | nil => rfl
  | cons d ds ih =>
    change part.table ((catalog.add d).1.addAll ds) = _
    rw [ih, part.table_add]
    cases hsighting : part.sighting? d with
    | none => rw [List.filterMap_cons_none hsighting]
    | some newer => rw [List.filterMap_cons_some hsighting, Table.sightAll_cons]

variable [LawfulRecord α]

theorem wellFormed_table_addAll (ds : List Declaration) :
    (part.table (empty.addAll ds)).WellFormed := by
  rw [part.table_addAll, part.table_empty]
  exact Table.wellFormed_empty.sightAll _

variable {found : α → Prop} {ofSightings : α → List α → α}
  {contradicts : List α → α → Option Place} {ds : List Declaration}

/-- A name stands for what its sightings amount to. -/
theorem named?_addAll (h : Table.Amounts found ofSightings contradicts)
    (hfound : ∀ d ∈ ds, ∀ first, part.sighting? d = some first → found first) (name : String) :
    (part.table (empty.addAll ds)).named? name = amount? ofSightings (part.sightings ds name) := by
  rw [part.table_addAll, part.table_empty, Table.named?_sightAll_empty]
  apply h.gathered?
  intro first hmem
  obtain ⟨d, hd, hsighting⟩ := List.mem_filterMap.mp (List.mem_filter.mp hmem).1
  exact hfound d hd first hsighting

/-- What a further sighting contradicts is a matter of the sightings of its name. -/
theorem conflict_addAll (h : Table.Amounts found ofSightings contradicts)
    (hfound : ∀ d ∈ ds, ∀ first, part.sighting? d = some first → found first) (newer : α) :
    ((part.table (empty.addAll ds)).sight newer).2 =
      contradicts (part.sightings ds (Record.name newer)) newer := by
  rw [(part.wellFormed_table_addAll ds).conflict_sight, part.named?_addAll h hfound]
  cases part.sightings ds (Record.name newer) with
  | nil => exact (h.unseen newer).symm
  | cons first later => simp [amount?, h.merge]

end Part

theorem function_definedInPlace {ds : List Declaration} (h : ∀ d ∈ ds, d.Scanned) :
    ∀ d ∈ ds, ∀ f, Part.functions.sighting? d = some f →
      (Declaration.function f).DefinedInPlace := by
  intro d hd f hsighting
  cases d with
  | function f' =>
    obtain rfl := Option.some.inj hsighting
    exact (h _ hd).definedInPlace
  | _ => cases hsighting

theorem struct_definedInPlace {ds : List Declaration} (h : ∀ d ∈ ds, d.Scanned) :
    ∀ d ∈ ds, ∀ s, Part.structures.sighting? d = some s →
      (Declaration.struct s).DefinedInPlace := by
  intro d hd s hsighting
  cases d with
  | struct s' =>
    obtain rfl := Option.some.inj hsighting
    exact (h _ hd).definedInPlace
  | _ => cases hsighting

/-- Behind scanned declarations a name stands for what its sightings amount to, whatever stands
between them. A further function or structure is refused just if it contradicts the first definition
of its name; then the one report is about it and names the place of that definition, and the catalog
stays as it was. Typedefs and variables are never refused. -/
theorem sightings_amount {ds : List Declaration} (h : ∀ d ∈ ds, d.Scanned) :
    let catalog := empty.addAll ds
    ((∀ name, catalog.functionNamed? name =
        amount? Function.ofSightings (Part.functions.sightings ds name)) ∧
      ∀ f, (catalog.add (.function f)).2 =
        (contradicted? (Part.functions.sightings ds f.name) f).map
          (redefinition .function f.name f.place)) ∧
    ((∀ name, catalog.structureNamed? name =
        amount? Structure.ofSightings (Part.structures.sightings ds name)) ∧
      ∀ s, (catalog.add (.struct s)).2 =
        (contradicted? (Part.structures.sightings ds s.name) s).map
          (redefinition .struct s.name s.place)) ∧
    ((∀ name, catalog.typedefNamed? name =
        amount? Typedef.ofSightings (Part.typedefs.sightings ds name)) ∧
      ∀ t, (catalog.add (.typedef t)).2 = none) ∧
    ((∀ name, catalog.variableNamed? name =
        amount? Variable.ofSightings (Part.globals.sightings ds name)) ∧
      ∀ v, (catalog.add (.variable v)).2 = none) ∧
    ∀ d, (catalog.add d).2 ≠ none → (catalog.add d).1 = catalog := by
  intro catalog
  have htrue : ∀ {α : Type} [Record α] (part : Part α),
      ∀ d ∈ ds, ∀ first, part.sighting? d = some first → True := fun _ _ _ _ _ => trivial
  refine ⟨⟨?_, ?_⟩, ⟨?_, ?_⟩, ⟨?_, ?_⟩, ⟨?_, ?_⟩, add_of_conflict catalog⟩
  · exact Part.functions.named?_addAll Function.amounts (function_definedInPlace h)
  · intro f
    exact congrArg (Option.map _)
      (Part.functions.conflict_addAll Function.amounts (function_definedInPlace h) f)
  · exact Part.structures.named?_addAll Structure.amounts (struct_definedInPlace h)
  · intro s
    exact congrArg (Option.map _)
      (Part.structures.conflict_addAll Structure.amounts (struct_definedInPlace h) s)
  · exact Part.typedefs.named?_addAll Typedef.amounts (htrue Part.typedefs)
  · intro t
    exact congrArg (Option.map _)
      (Part.typedefs.conflict_addAll Typedef.amounts (htrue Part.typedefs) t)
  · exact Part.globals.named?_addAll Variable.amounts (htrue Part.globals)
  · intro v
    exact congrArg (Option.map _)
      (Part.globals.conflict_addAll Variable.amounts (htrue Part.globals) v)

/-- A function that is declared, defined, declared again and defined anew. The record is that of the
first line with the parameters of the second, the notes of the first three lines stand in it once
each, and a third body would be refused as well. -/
theorem sightings_amount_of_two_bodies :
    let text := "@RPC extern int f(void);\n@OUT(x) int f(int x) \x7b\x7d\n" ++
      "@OUT(x) @RPC(EVENT) static int f();\n@OUT(y) int f() \x7b\x7d\n"
    let rules := (Configuration.ofMarkers ["RPC", "OUT"]).noteRules
    let catalog := empty.addAll (Outline.declared (Outline.ofText rules ⟨"api.c"⟩ .input text))
    let third : Function :=
      ⟨"f", .base (.builtin "int") .plain, ⟨[], false⟩, .empty, .input,
        ⟨⟨"api.c"⟩, ⟨5, 1⟩⟩, true, some ⟨⟨"api.c"⟩, ⟨5, 1⟩⟩, []⟩
    (catalog.functionNamed? "f").map (fun f => (f.place.position.line, f.definition.map
        (·.position.line), f.storage.words, f.params.params.length, f.notes.map (·.text))) =
      some (1, some 2, ["static", "extern"], 1, ["@RPC", "@OUT(x)", "@RPC(EVENT)"]) ∧
    (catalog.add (.function third)).2 =
      some (redefinition .function "f" ⟨⟨"api.c"⟩, ⟨5, 1⟩⟩ ⟨⟨"api.c"⟩, ⟨2, 9⟩⟩) := by
  intro text rules catalog third
  have hscanned : ∀ d ∈ Outline.declared (Outline.ofText rules ⟨"api.c"⟩ .input text), d.Scanned :=
    fun _ => Outline.scanned_of_mem_declared
  obtain ⟨⟨hnamed, hrefused⟩, -⟩ := sightings_amount hscanned
  rw [hnamed, hrefused]
  exact ⟨by decide +kernel, by decide +kernel⟩

end Catalog

end RemoteCalls
