import RemoteCalls.Proofs.CType.Spelling
import RemoteCalls.Proofs.Outline.Rereading

/-!
# Prototypes at file scope

A printed prototype begins a declaration unless a name in it is a marker: where a name comes first,
no parenthesis follows it, or a star follows the parenthesis, so that it is no macro call. With a
semicolon or a body behind it the prototype stands for its function.
-/

namespace RemoteCalls

/-- No marker stands in front of some items. -/
def StartsPlain (rules : NoteRules) (items : List Item) : Prop :=
  ∀ name, items.head? = some (.token (.identifier name)) → rules.isMarker name = false

namespace CType

variable {type : CType}

/-- A word of a printable type can begin a declaration. -/
theorem Printable.beginsDeclaration_of_mem (h : type.Printable) {word : String}
    (hword : word ∈ type.words) : Outline.beginsDeclaration (.ofWord word) = true := by
  have hbase : ∀ {b : Base} {shape : Shape}, b.Printable → word ∈ shape.qualifierWords ++ b.words →
      Outline.beginsDeclaration (.ofWord word) = true := by
    intro b shape hb hword
    rcases List.mem_append.mp hword with hword | hword
    · obtain ⟨isConst, isVolatile, pointers, dimensions⟩ := shape
      obtain rfl | rfl : word = "const" ∨ word = "volatile" := by
        cases isConst <;> cases isVolatile <;> simp_all [Shape.qualifierWords]
      · rfl
      · rfl
    · cases hb with
      | builtin words hne hwords =>
        rw [words_builtin hne hwords] at hword
        rw [(builtin_of_mem (hwords word hword)).2.1]
        rfl
      | named hname =>
        rw [List.mem_singleton.mp hword, hname.token]
        rfl
      | struct hname =>
        obtain rfl | rfl : word = "struct" ∨ word = _ := by simpa [Base.words] using hword
        · rfl
        · rw [hname.token]
          rfl
      | union hname =>
        obtain rfl | rfl : word = "union" ∨ word = _ := by simpa [Base.words] using hword
        · rfl
        · rw [hname.token]
          rfl
      | enum hname =>
        obtain rfl | rfl : word = "enum" ∨ word = _ := by simpa [Base.words] using hword
        · rfl
        · rw [hname.token]
          rfl
  cases h with
  | base hb _ => exact hbase hb hword
  | function hb _ _ _ _ _ => exact hbase hb hword

/-- A name in front of a printable type is the whole base. -/
theorem Printable.eq_nil_of_identifier (h : type.Printable) {word name : String}
    {words : List String} (hwords : type.words = word :: words)
    (hname : Token.ofWord word = .identifier name) :
    words = [] ∧ name ∈ type.parts.filterMap identifier? := by
  have hbase : ∀ {b : Base} {shape : Shape}, b.Printable →
      shape.qualifierWords ++ b.words = word :: words → words = [] ∧ b.identifier? = some name := by
    intro b shape hb hwords
    have hnone : shape.qualifierWords = [] := by
      by_contra hne
      obtain ⟨qualifier, rest, hcons⟩ := List.exists_cons_of_ne_nil hne
      rw [hcons] at hwords
      obtain ⟨rfl, -⟩ := List.cons.inj hwords
      have hmem : qualifier ∈ shape.qualifierWords := hcons ▸ List.mem_cons_self ..
      obtain ⟨isConst, isVolatile, pointers, dimensions⟩ := shape
      obtain rfl | rfl : qualifier = "const" ∨ qualifier = "volatile" := by
        cases isConst <;> cases isVolatile <;> simp_all [Shape.qualifierWords]
      · cases hname
      · cases hname
    rw [hnone, List.nil_append] at hwords
    cases hb with
    | builtin builtins hne hall =>
      rw [words_builtin hne hall] at hwords
      have hmem : word ∈ builtins := hwords ▸ List.mem_cons_self ..
      rw [(builtin_of_mem (hall word hmem)).2.1] at hname
      cases hname
    | named hb =>
      obtain ⟨rfl, hrest⟩ := List.cons.inj hwords
      rw [hb.token] at hname
      cases hname
      exact ⟨hrest.symm, rfl⟩
    | struct _ =>
      obtain ⟨rfl, -⟩ := List.cons.inj hwords
      cases hname
    | union _ =>
      obtain ⟨rfl, -⟩ := List.cons.inj hwords
      cases hname
    | enum _ =>
      obtain ⟨rfl, -⟩ := List.cons.inj hwords
      cases hname
  cases h with
  | base hb _ =>
    obtain ⟨hnil, hidentifier⟩ := hbase hb hwords
    exact ⟨hnil, by simpa [parts, identifier?] using hidentifier⟩
  | @function b inner outer params variadic hb _ _ _ _ _ =>
    obtain ⟨hnil, hidentifier⟩ := hbase hb hwords
    refine ⟨hnil, List.mem_filterMap.mpr ⟨.base b inner, ?_, hidentifier⟩⟩
    exact List.mem_cons_of_mem _ (List.mem_append_left _ (mem_parts_self _))

end CType

namespace Outline

open Reader (headToken callItems IsFunction)

variable {setting : Setting} {f : Function}

/-- Behind the words of a type stands no parenthesis, or a star stands behind it. -/
theorem star_behind_words {type : CType} (h : type.Spelled) {name : String} (hname : IsName name)
    {more tail : List Item} {row : List Lexeme}
    (hrow : Spells (type.tailItems (.token (.ofWord name) :: more) ++ tail) row)
    (behind : List Lexeme) (hparen : headToken (row ++ behind) = .openParen) :
    headToken (row ++ behind).tail = .star := by
  rw [hrow.headToken] at hparen
  cases hfunction : type.isFunctionPointer with
  | false =>
    cases type with
    | function _ _ _ _ => cases hfunction
    | base b shape =>
      simp only [CType.tailItems, CType.declaratorItems, List.append_assoc, Item.front_append,
        front_starItems] at hparen
      split at hparen
      · change Token.ofWord name = .openParen at hparen
        rw [hname.token] at hparen
        cases hparen
      · cases hparen
  | true =>
    obtain ⟨n, m, around, more, htail, -⟩ := h.exists_parens hfunction _
    rw [htail] at hparen hrow
    rw [List.append_assoc, Item.front_append, front_starItems] at hparen
    split at hparen
    · next hpointers =>
      rw [hpointers] at hrow
      obtain ⟨lexeme, rest, rfl, hrest⟩ := hrow.exists_cons
      exact hrest.headToken behind
    · cases hparen

/-- The declaration of a name with a type begins a declaration if it does not begin with a marker. -/
theorem front_of_spelled {type : CType} (h : type.Spelled) {name : String} (hname : IsName name)
    {rules : NoteRules} (hplain : StartsPlain rules (wordItems type.words)) {more tail : List Item}
    {row : List Lexeme} (hrow : Spells (wordItems type.words ++
      (type.tailItems (.token (.ofWord name) :: more) ++ tail)) row)
    (behind : List Lexeme) : Front.of rules (row ++ behind) = .declaration := by
  have hleaf := h.leaf_printable
  obtain ⟨word, words, hwords⟩ := List.exists_cons_of_ne_nil hleaf.words_ne_nil
  have hbegins := hleaf.beginsDeclaration_of_mem (hwords ▸ List.mem_cons_self ..)
  have hnil : ∀ name, Token.ofWord word = .identifier name → words = [] :=
    fun name hname => (hleaf.eq_nil_of_identifier hwords hname).1
  rw [CType.words_leaf] at hwords
  rw [hwords] at hplain hrow
  have hhead : headToken (row ++ behind) = .ofWord word := hrow.headToken behind
  refine Front.of_declaration (hhead ▸ hbegins) fun identifier hidentifier => ?_
  rw [hhead] at hidentifier
  obtain rfl := hnil identifier hidentifier
  refine ⟨hplain identifier ?_, fun hparen => ?_⟩
  · rw [wordItems, List.map_cons, List.head?_cons, hidentifier]
  · obtain ⟨lexeme, rest, rfl, hrest⟩ := hrow.exists_cons
    exact star_behind_words h hname hrest behind hparen

/-- A printed prototype begins with a word of its result. -/
theorem items_eq_cons (h : f.Printable) : ∃ word words, f.result.words = word :: words ∧
    f.items = .token (.ofWord word) :: (wordItems words ++
      f.result.declaratorItems (callItems f)) := by
  obtain ⟨word, words, hwords⟩ := List.exists_cons_of_ne_nil h.result.words_ne_nil
  refine ⟨word, words, hwords, ?_⟩
  rw [Function.items, CType.items, hwords]
  rfl

/-- The name in front of a prototype is one of its names. -/
theorem startsPlain_items (h : f.Printable) {rules : NoteRules}
    (hmarkers : ∀ name ∈ f.identifiers, rules.isMarker name = false) :
    StartsPlain rules f.items := by
  obtain ⟨word, words, hwords, hitems⟩ := items_eq_cons h
  intro name hname
  rw [hitems, List.head?_cons, Option.some.injEq, Item.token.injEq] at hname
  refine hmarkers name (List.mem_append_right _ ?_)
  rw [Function.types, List.filterMap_append]
  exact List.mem_append_left _ (h.result.eq_nil_of_identifier hwords hname).2

/-- A printed prototype begins a declaration if it does not begin with a marker. -/
theorem front_of_items (h : f.Printable) {rules : NoteRules} (hplain : StartsPlain rules f.items)
    {tail : List Item} {row : List Lexeme} (hrow : Spells (f.items ++ tail) row)
    (behind : List Lexeme) : Front.of rules (row ++ behind) = .declaration := by
  obtain ⟨word, words, hwords, hitems⟩ := items_eq_cons h
  have hfront : StartsPlain rules (wordItems f.result.words) := by
    intro name hname
    refine hplain name ?_
    rw [hitems, List.head?_cons]
    rwa [hwords] at hname
  rw [Function.items, CType.items, List.append_assoc, ← h.result.tailItems_eq] at hrow
  exact front_of_spelled h.result.spelled h.name.toIsName hfront hrow behind

/-- One function is found, with a known prototype. -/
def FindsFunction (f : Function) (isDefined : Bool) (found : List Finding) : Prop :=
  ∃ g, found = [.declaration (.function g)] ∧ f.Same g ∧ g.isDefined = isDefined

theorem findsFunction_of_isFunction {isDefined : Bool} {d : Declaration}
    (hd : IsFunction f isDefined d) : FindsFunction f isDefined [.declaration (d.annotate [])] := by
  obtain ⟨g, rfl, hsame, hdefined⟩ := hd
  exact ⟨_, rfl, ⟨hsame.name, hsame.result, hsame.params⟩, hdefined⟩

theorem items_append_ne_nil (h : f.Printable) (tail : List Item) : f.items ++ tail ≠ [] := by
  obtain ⟨word, words, -, hitems⟩ := items_eq_cons h
  rw [hitems]
  exact List.cons_ne_nil _ _

/-- A prototype with a semicolon behind it stands for the function, not defined. -/
theorem standsFor_prototype (h : f.Printable)
    (hplain : StartsPlain setting.rules f.items) :
    StandsFor setting (f.items ++ [.token .semicolon]) (FindsFunction f false) := by
  refine (standsFor_declaration (items_append_ne_nil h _)
    (fun steps => Reader.external_prototype h)
    fun row behind hrow => front_of_items h hplain hrow behind).mono ?_
  rintro _ ⟨_, ⟨d, rfl, hd⟩, rfl⟩
  exact findsFunction_of_isFunction hd

/-- A prototype with a body behind it stands for the function, defined. -/
theorem standsFor_definition (h : f.Printable)
    (hplain : StartsPlain setting.rules f.items) {body : List Item}
    (hbody : Token.Balanced (body.flatMap Item.tokens)) :
    StandsFor setting (f.items ++ .token .openBrace :: (body ++ [.token .closeBrace]))
      (FindsFunction f true) := by
  refine (standsFor_declaration (items_append_ne_nil h _)
    (fun steps => Reader.external_definition h hbody)
    fun row behind hrow => front_of_items h hplain hrow behind).mono ?_
  rintro _ ⟨_, ⟨d, rfl, hd⟩, rfl⟩
  exact findsFunction_of_isFunction hd

end Outline

end RemoteCalls
