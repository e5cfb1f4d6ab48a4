import Mathlib.Data.List.Nodup
import RemoteCalls.Proofs.Extraction.Recorded
import RemoteCalls.Proofs.Extraction.Unclosed
import RemoteCalls.Proofs.Outline.Association

/-!
# Repeated notes

The notes of bodies and those of later sightings are put behind others by unions, which repeat no
note. Only the notes in front of a declaration are taken as they are written. So a record repeats a
note just if its first sighting has the note twice in front of it.
-/

namespace RemoteCalls

namespace Note

theorem nodup_insert {into : List Note} {a : Note} : (insert into a).Nodup ↔ into.Nodup := by
  unfold insert
  split
  · exact Iff.rfl
  · next ha =>
    rw [← List.concat_eq_append, List.nodup_concat]
    exact and_iff_right ha

/-- A union repeats just the notes that were repeated before. -/
theorem nodup_union {into new : List Note} : (union into new).Nodup ↔ into.Nodup := by
  induction new generalizing into with
  | nil => exact Iff.rfl
  | cons a new ih => rw [union_cons, ih, nodup_insert]

end Note

/-! ## What is written in front of a declaration -/

/-- The notes in front of a construct that are not refused. -/
def Construct.keptNotes (rules : NoteRules) (before : List Construct) (c : Construct) : List Note :=
  ((notesFor rules before c).filter fun p => !p.refused rules).map (·.note)

namespace Outline

open Construct (keptNotes)

/-- `WrittenBehind rules file origin text front d`: a text declares `d`, and the notes `front` are
written in front of the construct that does so, and are not refused there. -/
inductive WrittenBehind (rules : NoteRules) (file : Path) (origin : Origin) (text : String) :
    List Note → Declaration → Prop
  | intro {lexed : Lexed} {before after : List Construct} {c : Construct} {kind : DeclKind}
      {found : List Declaration} {d : Declaration} (hlexed : Lexed.ofText text = .ok lexed)
      (hcourse : Course ⟨rules, file, origin, lexed.finish⟩ 0 lexed.lexemes (before ++ c :: after))
      (hrole : c.role = .declaration kind found) (hd : d ∈ found) :
      WrittenBehind rules file origin text (c.keptNotes rules before)
        (d.annotate (c.keptNotes rules before))

/-- What a construct declares, apart from placeholders, is what its declaration declares with the
notes in front of it. -/
theorem RoleAt.eq_annotate {setting : Setting} {linkage linkage' : Nat}
    {lexemes behind : List Lexeme} {before : List Construct} {c : Construct} {d : Declaration}
    (h : RoleAt setting linkage lexemes c.role behind linkage')
    (hd : .declaration d ∈ c.findings setting before) (hkind : d.kind ≠ .placeholder) :
    ∃ kind found, c.role = .declaration kind found ∧
      ∃ e ∈ found, d = e.annotate (c.keptNotes setting.rules before) := by
  unfold Construct.findings at hd
  generalize hrole : c.role = role at h hd
  cases h with
  | note | nothing | macroCall | semicolon | linkage | closeBrace => cases hd
  | malformedNote | fatalNote | strayBrace => cases List.mem_singleton.mp hd
  | declaration =>
    refine ⟨_, _, rfl, ?_⟩
    rcases List.mem_append.mp hd with hd | hd
    · obtain ⟨p, -, hp⟩ := List.mem_map.mp hd
      cases hp
    · obtain ⟨e, he, hannotate⟩ := List.mem_map.mp hd
      exact ⟨e, he, (Finding.declaration.inj hannotate).symm⟩
  | placeholder =>
    rcases List.mem_append.mp hd with hd | hd
    · exact absurd hd (declaration_not_mem_dangling d _)
    · cases List.mem_singleton.mp hd
      exact absurd rfl hkind
  | inclusion =>
    rcases List.mem_append.mp hd with hd | hd
    · exact absurd hd (declaration_not_mem_dangling d _)
    · cases List.mem_singleton.mp hd
  | failed => exact absurd hd (declaration_not_mem_recover d _)

variable {rules : NoteRules} {file : Path} {origin : Origin} {text : String} {d : Declaration}

/-- What is found in a text is written there behind some notes, unless it is a placeholder. -/
theorem exists_writtenBehind (h : .declaration d ∈ ofText rules file origin text)
    (hkind : d.kind ≠ .placeholder) : ∃ front, WrittenBehind rules file origin text front d := by
  cases hlexed : Lexed.ofText text with
  | error fault =>
    unfold ofText at h
    rw [hlexed] at h
    cases List.mem_singleton.mp h
  | ok lexed =>
    obtain ⟨constructs, hcourse⟩ :=
      exists_course ⟨rules, file, origin, lexed.finish⟩ (start lexed.lexemes)
    rw [ofText_of_course hlexed hcourse] at h
    rcases List.mem_append.mp h with h | h
    · obtain ⟨before, c, after, rfl, hd⟩ := Construct.mem_findingsOf.mp h
      obtain ⟨_, _, hat⟩ := Course.exists_roleAt hcourse
      obtain ⟨kind, found, hrole, e, he, rfl⟩ := hat.eq_annotate hd hkind
      exact ⟨_, .intro hlexed hcourse hrole he⟩
    · exact absurd h (declaration_not_mem_dangling d _)

/-- A declaration has the notes in front of it as they are written, and behind them it repeats
none. -/
theorem WrittenBehind.exists_notes {front : List Note}
    (h : WrittenBehind rules file origin text front d) :
    ∃ body, d.notes = Note.union front body := by
  cases h with
  | intro hlexed hcourse hrole hd =>
    obtain ⟨body, hbody, -⟩ := (Course.associated hcourse hrole).bodies _ hd
    cases hbody <;> exact ⟨_, rfl⟩

end Outline

/-! ## What calls find -/

/-- The rules of a call. -/
def Call.rules : Call → NoteRules
  | ofFile _ config _ | ofText _ config _ _ => config.noteRules

/-- The texts that a call may scan: that of its input file and those of the headers there are. -/
inductive Call.Scans : Call → Origin → Path → String → Prop
  | ofText {files : Files} {config : Configuration} {file place : Path} {text content : String}
      {headers : List Path} {origin : Origin}
      (hscans : RemoteCalls.Scans files (files.canonical file) text headers origin place content) :
      Scans (.ofText files config file text) origin place content
  | ofFile {files : Files} {config : Configuration} {file place : Path} {text content : String}
      {headers : List Path} {origin : Origin} (hread : files.read file = .ok text)
      (hscans : RemoteCalls.Scans files (files.canonical file) text headers origin place content) :
      Scans (.ofFile files config file) origin place content

/-- A declaration is found in a text that a call may scan. -/
def Call.Finds (call : Call) (d : Declaration) : Prop :=
  ∃ origin file text, call.Scans origin file text ∧
    .declaration d ∈ Outline.ofText call.rules file origin text

/-- A declaration is written behind notes in a text that a call may scan. -/
def Call.FindsBehind (call : Call) (front : List Note) (d : Declaration) : Prop :=
  ∃ origin file text, call.Scans origin file text ∧
    Outline.WrittenBehind call.rules file origin text front d

theorem Call.FindsBehind.exists_notes {call : Call} {front : List Note} {d : Declaration}
    (h : call.FindsBehind front d) : ∃ body, d.notes = Note.union front body := by
  obtain ⟨origin, file, text, -, hwritten⟩ := h
  exact hwritten.exists_notes

theorem Call.Finds.scanned {call : Call} {d : Declaration} (h : call.Finds d) : d.Scanned := by
  obtain ⟨origin, file, text, -, hmem⟩ := h
  exact ⟨call.rules, file, origin, text, hmem⟩

theorem Call.Finds.exists_front {call : Call} {d : Declaration} (h : call.Finds d)
    (hkind : d.kind ≠ .placeholder) : ∃ front, call.FindsBehind front d := by
  obtain ⟨origin, file, text, hscans, hmem⟩ := h
  obtain ⟨front, hfront⟩ := Outline.exists_writtenBehind hmem hkind
  exact ⟨front, origin, file, text, hscans, hfront⟩

namespace Catalog

/-- A run over a text takes in what it finds, or nothing. -/
theorem exists_finds_ofText (files : Files) (config : Configuration) (catalog : Catalog)
    (file : Path) (text : String) :
    ∃ ds, (∀ d ∈ ds, (Call.ofText files config file text).Finds d) ∧
      (catalog.extractText files config file text).2.SameDeclarations (catalog.addAll ds) := by
  obtain ⟨events, hevents, hcases⟩ := extractText_cases files config file text
  rcases hcases catalog with hsame | hbehind
  · exact ⟨[], nofun, by rw [hsame, addAll_nil]; exact catalog.sameDeclarations_refl⟩
  · refine ⟨Event.declarations events, fun d hd => ?_, ?_⟩
    · obtain ⟨origin, place, content, hscans, hmem⟩ := hevents d hd
      exact ⟨origin, place, content, .ofText hscans, hmem⟩
    · have hadded := (catalog.sameDeclarations_addInput file).addAll (Event.declarations events)
      rw [hbehind]
      exact ⟨hadded.functions, hadded.structures, hadded.typedefs, hadded.globals,
        hadded.placeholders⟩

/-- A call takes in what it finds, or nothing. -/
theorem exists_finds (call : Call) (catalog : Catalog) :
    ∃ ds, (∀ d ∈ ds, call.Finds d) ∧
      (call.run catalog).SameDeclarations (catalog.addAll ds) := by
  cases call with
  | ofText files config file text => exact exists_finds_ofText files config catalog file text
  | ofFile files config file =>
    change ∃ ds, _ ∧ (catalog.extract files config file).2.SameDeclarations _
    unfold extract
    cases hread : files.read file with
    | error fault => exact ⟨[], nofun, catalog.sameDeclarations_refl⟩
    | ok text =>
      obtain ⟨ds, hds, hsame⟩ := exists_finds_ofText files config catalog file text
      refine ⟨ds, fun d hd => ?_, hsame⟩
      obtain ⟨origin, place, content, hscans, hmem⟩ := hds d hd
      cases hscans with
      | ofText hscans => exact ⟨origin, place, content, .ofFile hread hscans, hmem⟩

/-- What calls in a row take in, they find. -/
theorem exists_finds_foldl (calls : List Call) (catalog : Catalog) :
    ∃ ds, (∀ d ∈ ds, ∃ call ∈ calls, call.Finds d) ∧
      (calls.foldl Call.run catalog).SameDeclarations (catalog.addAll ds) := by
  induction calls generalizing catalog with
  | nil => exact ⟨[], nofun, catalog.sameDeclarations_refl⟩
  | cons call calls ih =>
    obtain ⟨ds, hds, hsame⟩ := exists_finds call catalog
    obtain ⟨later, hlater, hrest⟩ := ih (call.run catalog)
    refine ⟨ds ++ later, fun d hd => ?_, ?_⟩
    · rcases List.mem_append.mp hd with hd | hd
      · exact ⟨call, List.mem_cons_self, hds d hd⟩
      · obtain ⟨other, hother, hfinds⟩ := hlater d hd
        exact ⟨other, List.mem_cons_of_mem _ hother, hfinds⟩
    · rw [addAll_append]
      exact hrest.trans (hsame.addAll later)

/-! ## What records repeat -/

/-- No record has a note twice. -/
structure DistinctNotes (catalog : Catalog) : Prop where
  functions : ∀ f ∈ catalog.functions, f.notes.Nodup
  structures : ∀ s ∈ catalog.structures, s.notes.Nodup
  typedefs : ∀ t ∈ catalog.typedefs, t.notes.Nodup
  globals : ∀ v ∈ catalog.globals, v.notes.Nodup

namespace Part

variable {α : Type} [Record α]

/-- Records of a kind repeat what their first sightings do: each of them has the notes in front of
its first sighting as they are written there, and behind them it repeats none. -/
def RepeatsFirst (part : Part α) (declare : α → Declaration) (calls : List Call)
    (ds : List Declaration) (catalog : Catalog) : Prop :=
  ∀ record ∈ (part.table catalog).records, ∃ first later,
    part.sightings ds (Record.name record) = first :: later ∧
      ∃ call ∈ calls, ∃ front, call.FindsBehind front (declare first) ∧
        (∃ more, (declare record).notes = Note.union front more) ∧
        ((declare record).notes.Nodup ↔ front.Nodup)

/-- If no declaration that is found has a note twice in front of it, no record of a kind has. -/
theorem RepeatsFirst.nodup {part : Part α} {declare : α → Declaration} {calls : List Call}
    {ds : List Declaration} {catalog : Catalog} (h : part.RepeatsFirst declare calls ds catalog)
    (hcalls : ∀ call ∈ calls, ∀ front d, call.FindsBehind front d → front.Nodup) :
    ∀ record ∈ (part.table catalog).records, (declare record).notes.Nodup := by
  intro record hrecord
  obtain ⟨first, later, -, call, hcall, front, hfront, -, hnodup⟩ := h record hrecord
  exact hnodup.mpr (hcalls call hcall front _ hfront)

variable [LawfulRecord α] {part : Part α} {declare : α → Declaration} {found : α → Prop}
  {ofSightings : α → List α → α} {contradicts : List α → α → Option Place} {calls : List Call}
  {ds : List Declaration} {catalog : Catalog}

/-- What sightings amount to repeats what the first of them does, if later sightings bring their
notes by unions. -/
theorem repeatsFirst (h : Table.Amounts found ofSightings contradicts)
    (hfound : ∀ d ∈ ds, ∀ first, part.sighting? d = some first → found first)
    (hdeclare : ∀ d first, part.sighting? d = some first → d = declare first)
    (hkind : ∀ first, (declare first).kind ≠ .placeholder)
    (hnotes : ∀ first later, ∃ more,
      (declare (ofSightings first later)).notes = Note.union (declare first).notes more)
    (hds : ∀ d ∈ ds, ∃ call ∈ calls, call.Finds d)
    (htable : part.table catalog = part.table (empty.addAll ds)) :
    part.RepeatsFirst declare calls ds catalog := by
  intro record hrecord
  rw [htable] at hrecord
  have hnamed := ((part.wellFormed_table_addAll ds).named?_eq_some_iff).mpr ⟨hrecord, rfl⟩
  rw [part.named?_addAll h hfound] at hnamed
  cases hsightings : part.sightings ds (Record.name record) with
  | nil =>
    rw [hsightings] at hnamed
    cases hnamed
  | cons first later =>
    rw [hsightings] at hnamed
    have hamount : ofSightings first later = record := Option.some.inj hnamed
    refine ⟨first, later, rfl, ?_⟩
    have hfirst : first ∈ part.sightings ds (Record.name record) := by
      rw [hsightings]
      exact List.mem_cons_self
    obtain ⟨d, hd, hsighting⟩ := List.mem_filterMap.mp (List.mem_filter.mp hfirst).1
    obtain rfl := hdeclare d first hsighting
    obtain ⟨call, hcall, hfinds⟩ := hds _ hd
    obtain ⟨front, hfront⟩ := hfinds.exists_front (hkind first)
    obtain ⟨body, hbody⟩ := hfront.exists_notes
    obtain ⟨more, hmore⟩ := hnotes first later
    have hunion : (declare record).notes = Note.union front (body ++ more) := by
      rw [← hamount, hmore, hbody, Note.union_append]
    refine ⟨call, hcall, front, hfront, ⟨_, hunion⟩, ?_⟩
    rw [hunion, Note.nodup_union]

end Part

/-- Calls take in declarations that they find, and each record repeats just the notes that are
repeated in front of the first sighting of its name. If no declaration has a note twice in front of
it, no record has a note twice. -/
theorem session_repeats (calls : List Call) :
    ∃ ds, (∀ d ∈ ds, ∃ call ∈ calls, call.Finds d) ∧
      (session calls).SameDeclarations (empty.addAll ds) ∧
      Part.functions.RepeatsFirst .function calls ds (session calls) ∧
      Part.structures.RepeatsFirst .struct calls ds (session calls) ∧
      Part.typedefs.RepeatsFirst .typedef calls ds (session calls) ∧
      Part.globals.RepeatsFirst .variable calls ds (session calls) ∧
      ((∀ call ∈ calls, ∀ front d, call.FindsBehind front d → front.Nodup) →
        (session calls).DistinctNotes) := by
  obtain ⟨ds, hds, hsame⟩ := exists_finds_foldl calls .empty
  have hscanned : ∀ d ∈ ds, d.Scanned := by
    intro d hd
    obtain ⟨call, -, hfinds⟩ := hds d hd
    exact hfinds.scanned
  have hfunctions : Part.functions.RepeatsFirst .function calls ds (session calls) := by
    refine Part.repeatsFirst Function.amounts (function_definedInPlace hscanned) ?_ nofun
      (fun _ _ => ⟨_, (Note.union_eq_append _ _).symm⟩) hds hsame.functions
    intro d f hsighting
    cases d <;> cases hsighting
    rfl
  have hstructures : Part.structures.RepeatsFirst .struct calls ds (session calls) := by
    refine Part.repeatsFirst Structure.amounts (struct_definedInPlace hscanned) ?_ nofun
      (fun _ _ => ⟨_, (Note.union_eq_append _ _).symm⟩) hds hsame.structures
    intro d s hsighting
    cases d <;> cases hsighting
    rfl
  have htypedefs : Part.typedefs.RepeatsFirst .typedef calls ds (session calls) := by
    refine Part.repeatsFirst Typedef.amounts (fun _ _ _ _ => trivial) ?_ nofun
      (fun _ _ => ⟨_, (Note.union_eq_append _ _).symm⟩) hds hsame.typedefs
    intro d t hsighting
    cases d <;> cases hsighting
    rfl
  have hglobals : Part.globals.RepeatsFirst .variable calls ds (session calls) := by
    refine Part.repeatsFirst Variable.amounts (fun _ _ _ _ => trivial) ?_ nofun
      (fun _ _ => ⟨_, (Note.union_eq_append _ _).symm⟩) hds hsame.globals
    intro d v hsighting
    cases d <;> cases hsighting
    rfl
  refine ⟨ds, hds, hsame, hfunctions, hstructures, htypedefs, hglobals, fun hcalls => ?_⟩
  exact ⟨hfunctions.nodup hcalls, hstructures.nodup hcalls, htypedefs.nodup hcalls,
    hglobals.nodup hcalls⟩

/-- A function with one note twice in front of it. -/
theorem not_distinctNotes_of_repeat : ¬ ∀ calls, (session calls).DistinctNotes := by
  intro hall
  have hdistinct := hall [.ofText .empty (.ofMarkers ["rpc", "SERIALIZE"]) ⟨"api.c"⟩
    "@rpc @rpc int f(void);\n"]
  have hrepeats : ¬ ∀ f ∈ (session [.ofText .empty (.ofMarkers ["rpc", "SERIALIZE"]) ⟨"api.c"⟩
      "@rpc @rpc int f(void);\n"]).functions, f.notes.Nodup := by
    decide +kernel
  exact hrepeats hdistinct.functions

end Catalog

end RemoteCalls
