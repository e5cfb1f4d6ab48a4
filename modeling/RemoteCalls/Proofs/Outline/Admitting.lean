import RemoteCalls.Proofs.Outline.Regenerated

/-!
# What a file without reports can declare

A file in which all can be read is read item by item, also where it is not known beforehand whether
it can be read: if nothing is reported, what is found in the items of a declaration is what the
declaration can only be read as.
-/

namespace RemoteCalls.Outline

open Reader (headToken external Allows)

variable {setting : Setting} {items more : List Item} {P : Finding → Prop}

/-- If some items are read at file scope, with what is behind them, and nothing is reported, all that
is found in them satisfies `P`, and then what is behind them is read. -/
def Admits (setting : Setting) (items : List Item) (P : Finding → Prop) : Prop :=
  ∀ row behind linkage, Spells items row → (∀ lexeme ∈ row, Quiet lexeme.trivia) →
    Clean (scan setting ⟨row ++ behind, [], linkage⟩).1 →
    ∃ found, (∀ finding ∈ found, P finding) ∧ scan setting ⟨row ++ behind, [], linkage⟩ =
      (found ++ (scan setting ⟨behind, [], linkage⟩).1, (scan setting ⟨behind, [], linkage⟩).2)

/-- Items that yield something whatever is behind them. -/
theorem Yields.admits {Q : List Finding → Prop} (h : Yields setting items Q)
    (hQ : ∀ found, Q found → ∀ finding ∈ found, P finding) : Admits setting items P := by
  intro row behind linkage hrow hquiet _
  obtain ⟨found, hfound, hscan⟩ := h row behind linkage hrow hquiet
  exact ⟨found, hQ found hfound, hscan⟩

theorem Admits.append (h : Admits setting items P) (hmore : Admits setting more P) :
    Admits setting (items ++ more) P := by
  intro row behind linkage hrow hquiet hclean
  obtain ⟨front, back, rfl, hfront, hback⟩ := hrow.of_append
  rw [List.append_assoc] at hclean ⊢
  obtain ⟨first, hfirst, hscan⟩ := h front (back ++ behind) linkage hfront
    (fun lexeme hlexeme => hquiet lexeme (List.mem_append_left _ hlexeme)) hclean
  rw [hscan] at hclean ⊢
  obtain ⟨rest, hrest, hscan'⟩ := hmore back behind linkage hback
    (fun lexeme hlexeme => hquiet lexeme (List.mem_append_right _ hlexeme)) (clean_append.mp hclean).2
  refine ⟨first ++ rest, fun finding hfinding => ?_, ?_⟩
  · exact (List.mem_append.mp hfinding).elim (hfirst finding) (hrest finding)
  · rw [hscan', List.append_assoc]

/-- Where a declaration begins, it is found or there is a report. -/
theorem admits_declaration (hitems : items ≠ [])
    (hallows : ∀ steps, Allows setting [] (external steps) items (fun _ => True)
      fun declared _ => ∀ d ∈ declared, P (.declaration (d.annotate [])))
    (hfront : ∀ row behind, Spells items row → Front.of setting.rules (row ++ behind) = .declaration) :
    Admits setting items P := by
  intro row behind linkage hrow hquiet hclean
  have hne : (⟨row ++ behind, [], linkage⟩ : Outline).rest ≠ [] :=
    List.append_ne_nil_of_left_ne_nil (row_ne_nil hitems hrow) _
  rw [scan_of_ne_nil hne, step_of_declaration (row_ne_nil hitems hrow) hquiet
    (hfront row behind hrow)] at hclean ⊢
  have hreported := (clean_append.mp hclean).1
  have houtcome := Reader.readExternal_outcome setting (row ++ behind) []
  unfold stepDeclaration at hreported ⊢
  cases hread : Reader.readExternal setting (row ++ behind) with
  | error failure =>
    rw [hread] at hreported houtcome
    refine absurd hreported (not_clean_recover ?_)
    rintro rfl
    exact houtcome.elim
  | ok result =>
    obtain ⟨declared, cursor⟩ := result
    obtain ⟨hrest, hdeclared⟩ := hallows _ row behind .variable declared cursor hrow trivial hread
    refine ⟨declared.map fun d => .declaration (d.annotate []), fun finding hfinding => ?_, ?_⟩
    · obtain ⟨d, hd, rfl⟩ := List.mem_map.mp hfinding
      exact hdeclared d hd
    · simp [declarations, hrest]

/-- In a text that is written from some items all that is found satisfies `P` if nothing is reported.
-/
theorem forall_ofText_of_written {rules : NoteRules} {file : Path} {origin : Origin} {text : String}
    (h : Written text.toList items [])
    (hadmits : ∀ finish, Admits ⟨rules, file, origin, finish⟩ items P)
    (hclean : Clean (ofText rules file origin text)) :
    ∀ finding ∈ ofText rules file origin text, P finding := by
  obtain ⟨finish, row, closing, hspells, hquiet, -, htext⟩ :=
    exists_scan_of_written h rules file origin
  rw [htext] at hclean ⊢
  obtain ⟨hscan, hdangling⟩ := clean_append.mp hclean
  rw [dangling_eq_nil_of_clean hdangling, List.append_nil]
  rw [← List.append_nil row] at hscan ⊢
  obtain ⟨found, hfound, hfindings⟩ := hadmits finish row [] 0 hspells hquiet hscan
  have hend : scan ⟨rules, file, origin, finish⟩ ⟨[], [], 0⟩ = ([], ⟨[], [], 0⟩) := scan_of_nil rfl
  rw [hfindings, hend, List.append_nil]
  exact hfound

/-- What is declared with a type from a source text begins a declaration if no name in front is a
marker: behind a name stands the declared one, a star, or a pair of parentheses that begins with one.
-/
theorem Front.of_beginsBy {rules : NoteRules} {name : String}
    (h : CType.BeginsBy (.token (.identifier name) :: more) items)
    (hplain : StartsPlain rules items) {tail : List Item} {row : List Lexeme}
    (hrow : Spells (items ++ tail) row) (behind : List Lexeme) :
    Front.of rules (row ++ behind) = .declaration := by
  have hfirst := hrow.headToken behind
  cases h with
  | @word t rest hbegins hword =>
    refine Front.of_declaration (hfirst ▸ hbegins) fun other hother => ?_
    exact absurd (hfirst.symm.trans hother) (hword other)
  | @star base rest hbase =>
    refine Front.of_declaration (hfirst ▸ rfl) fun other hother => ?_
    obtain rfl := Token.identifier.inj (hfirst.symm.trans hother)
    refine ⟨hplain base rfl, fun hparen => ?_⟩
    have hsecond : headToken (row ++ behind).tail = .star := hrow.headToken_tail behind
    cases hsecond.symm.trans hparen
  | @pointer base rest hbase =>
    refine Front.of_declaration (hfirst ▸ rfl) fun other hother => ?_
    obtain rfl := Token.identifier.inj (hfirst.symm.trans hother)
    refine ⟨hplain base rfl, fun _ => ?_⟩
    obtain ⟨lexeme, behindName, rfl, hrest⟩ := hrow.exists_cons
    exact hrest.headToken_tail behind
  | @name base hbase sizes =>
    refine Front.of_declaration (hfirst ▸ rfl) fun other hother => ?_
    obtain rfl := Token.identifier.inj (hfirst.symm.trans hother)
    refine ⟨hplain base rfl, fun hparen => ?_⟩
    have hsecond : headToken (row ++ behind).tail = .identifier name := hrow.headToken_tail behind
    cases hsecond.symm.trans hparen

end RemoteCalls.Outline
