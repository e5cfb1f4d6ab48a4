import RemoteCalls.Proofs.CType.Items
import RemoteCalls.Proofs.Outline.Taking
import RemoteCalls.Proofs.Stub.Marshalling

/-!
# Texts of code

A text of code is read with all its groups closed, so that it can stand inside of a group without
changing where the group ends. Words are code, declarations of printable types are, and so are
expressions and statements that are put together from code.
-/

namespace RemoteCalls

/-! ## Balanced items -/

/-- Some items close the groups that they open, and no other. -/
def Item.Balanced (items : List Item) : Prop :=
  Token.Balanced (items.flatMap Item.tokens)

/-- A word neither opens nor closes a group. -/
theorem Token.isOpener_ofWord (word : String) : (ofWord word).isOpener = false := by
  unfold ofWord
  repeat' split
  all_goals rfl

theorem Token.isCloser_ofWord (word : String) : (ofWord word).isCloser = false := by
  unfold ofWord
  repeat' split
  all_goals rfl

/-- A property of items that is told by their parts: rows with it can be put together, and a token
has it that neither opens nor closes a group, and so have the brackets of a dimension. -/
structure Item.Composes (P : List Item → Prop) : Prop where
  nil : P []
  append : ∀ {items more}, P items → P more → P (items ++ more)
  token : ∀ {t : Token}, t.isOpener = false → t.isCloser = false → P [.token t]
  dimension : ∀ size, P [.dimension size]

namespace Item.Composes

variable {P : List Item → Prop}

theorem dimensions (h : Composes P) (sizes : List (Option String)) :
    P (sizes.map .dimension) := by
  induction sizes with
  | nil => exact h.nil
  | cons size sizes ih => exact h.append (h.dimension size) ih

theorem words (h : Composes P) (words : List String) : P (wordItems words) := by
  induction words with
  | nil => exact h.nil
  | cons word words ih =>
    exact h.append (h.token (Token.isOpener_ofWord word) (Token.isCloser_ofWord word)) ih

theorem stars (h : Composes P) (n : Nat) : P (starItems n) := by
  induction n with
  | zero => exact h.nil
  | succ n ih => exact h.append (h.token rfl rfl) ih

/-- Rows with commas between them. -/
theorem intercalate (h : Composes P) {rows : List (List Item)} (hrows : ∀ row ∈ rows, P row) :
    P ([.token .comma].intercalate rows) := by
  induction rows with
  | nil => exact h.nil
  | cons row rows ih =>
    obtain ⟨hrow, hrest⟩ := List.forall_mem_cons.mp hrows
    cases rows with
    | nil => simpa using hrow
    | cons next rows =>
      rw [List.intercalate_cons_cons]
      exact h.append (h.append hrow (h.token rfl rfl)) (ih hrest)

/-- Rows of a parameter list. -/
theorem list (h : Composes P) {rows : List (List Item)} (hrows : ∀ row ∈ rows, P row)
    (variadic : Bool) : P (listItems rows variadic) := by
  have hall : ∀ row ∈ if variadic then rows ++ [[.token .ellipsis]] else rows, P row := by
    intro row hrow
    split at hrow
    · rcases List.mem_append.mp hrow with hrow | hrow
      · exact hrows row hrow
      · rw [List.mem_singleton.mp hrow]
        exact h.token rfl rfl
    · exact hrows row hrow
  unfold listItems
  dsimp only
  generalize (if variadic then rows ++ [[.token .ellipsis]] else rows) = all at hall ⊢
  split
  · exact h.token rfl rfl
  · exact h.intercalate hall

end Item.Composes

namespace Item.Balanced

variable {items more : List Item}

theorem nil : Balanced [] := rfl

theorem append (h : Balanced items) (hmore : Balanced more) : Balanced (items ++ more) := by
  unfold Balanced
  rw [List.flatMap_append]
  exact Token.Balanced.append h hmore

/-- A token that neither opens nor closes a group. -/
theorem cons {t : Token} (hopener : t.isOpener = false) (hcloser : t.isCloser = false)
    (h : Balanced items) : Balanced (.token t :: items) :=
  Token.Balanced.cons hopener hcloser h

/-- Items inside of a group. -/
theorem group {opener closer : Token} (hopener : opener.isOpener = true)
    (hcloser : closer.isCloser = true) (h : Balanced items) :
    Balanced (.token opener :: (items ++ [.token closer])) := by
  unfold Balanced
  rw [List.flatMap_cons, List.flatMap_append]
  exact Token.Balanced.group hopener hcloser h

theorem composes : Composes Balanced where
  nil := nil
  append := append
  token hopener hcloser := cons hopener hcloser nil
  dimension _ := rfl

theorem dimensions (sizes : List (Option String)) : Balanced (sizes.map .dimension) :=
  composes.dimensions sizes

theorem words (words : List String) : Balanced (wordItems words) :=
  composes.words words

theorem stars (n : Nat) : Balanced (starItems n) :=
  composes.stars n

theorem list {rows : List (List Item)} (h : ∀ row ∈ rows, Balanced row) (variadic : Bool) :
    Balanced (listItems rows variadic) :=
  composes.list h variadic

/-- A printable type around something declared. -/
theorem declaration {type : CType} (h : type.Printable) (hitems : Balanced items) :
    Balanced (type.items items) := by
  induction h generalizing items with
  | base hbase hshape =>
    rw [CType.items, CType.declaratorItems]
    exact (words _).append (((stars _).append hitems).append (dimensions _))
  | @function b inner outer params variadic hbase hinner houter hshape hparams hvoid ih =>
    have hlist : Balanced (listItems (CType.itemsOf params) variadic) := by
      rw [CType.itemsOf_eq_map]
      refine list (fun row hrow => ?_) variadic
      obtain ⟨param, hparam, rfl⟩ := List.mem_map.mp hrow
      exact ih param hparam nil
    have hdeclared := ((stars (max outer.pointers 1)).append hitems).append
      (dimensions outer.dimensions)
    have hitems : (CType.function (.base b inner) params variadic outer).items items =
        wordItems (CType.base b inner).words ++ (starItems inner.pointers ++
          ((.token .openParen :: ((starItems (max outer.pointers 1) ++ items ++
              outer.dimensions.map .dimension) ++ [.token .closeParen])) ++
            .token .openParen :: (listItems (CType.itemsOf params) variadic ++
              [.token .closeParen]))) := by
      simp [CType.items, CType.declaratorItems, CType.words, CType.shape, Shape.dimensionItems]
    rw [hitems]
    exact (words _).append ((stars _).append
      ((group rfl rfl hdeclared).append (group rfl rfl hlist)))

end Item.Balanced

/-! ## Operators in front of a word -/

/-- A text begins with a word. -/
def BeginsWord (cs : List Char) : Prop := ∃ c ∈ cs.head?, Segment.isWordStart c = true

instance (cs : List Char) : Decidable (BeginsWord cs) :=
  decidable_of_iff (cs.head?.any Segment.isWordStart = true) (by cases cs <;> simp [BeginsWord])

theorem BeginsWord.append {cs : List Char} (h : BeginsWord cs) (behind : List Char) :
    BeginsWord (cs ++ behind) := by
  obtain ⟨c, hc, hstart⟩ := h
  obtain ⟨cs, rfl⟩ := List.head?_eq_some_iff.mp hc
  exact ⟨c, rfl, hstart⟩

theorem beginsWord_of_isIdentifier {word : String} (h : Configuration.isIdentifier word = true) :
    BeginsWord word.toList := by
  obtain ⟨c, tail, hchars, hstart, -⟩ := exists_chars_of_isIdentifier h
  rw [hchars]
  exact ⟨c, rfl, hstart⟩

namespace Written

variable {cs rest : List Char} {items : List Item}

/-- No operator goes on with the beginning of a word. -/
theorem operatorText_of_beginsWord (hcs : BeginsWord cs) (c : Char) :
    Segment.operatorText c cs = [c] := by
  have hoperators : ∀ op ∈ Segment.operators.map String.toList,
      op.tail.head?.any Segment.isWordStart = false := by
    decide
  obtain ⟨d, hd, hstart⟩ := hcs
  refine Segment.operatorText_of_ne fun op hop _ htail => ?_
  have hnot := hoperators op hop
  rw [htail, hd, Option.any_some, hstart] at hnot
  cases hnot

theorem ampersand (hcs : BeginsWord cs) (h : Written cs items rest) :
    Written ('&' :: cs) (.token (.operator "&") :: items) rest := by
  refine @Written.token '&' [] cs rest (.operator "&") items ?_ h
  change Except.ok (Segment.mk (Segment.operatorText '&' cs)
    (.token (.ofOperator (String.ofList (Segment.operatorText '&' cs))))) = _
  rw [operatorText_of_beginsWord hcs]
  rfl

theorem dot (hcs : BeginsWord cs) (h : Written cs items rest) :
    Written ('.' :: cs) (.token (.operator ".") :: items) rest := by
  refine @Written.token '.' [] cs rest (.operator ".") items ?_ h
  have hoperator := operatorText_of_beginsWord hcs '.'
  obtain ⟨d, hd, hstart⟩ := hcs
  obtain ⟨cs, rfl⟩ := List.head?_eq_some_iff.mp hd
  have hdigit : d.isDigit = false := Segment.isDigit_of_isWordStart hstart
  change Segment.firstToken '.' (d :: cs) = _
  simp [Segment.firstToken, hdigit, hoperator, Segment.isWordStart, Token.ofMark?, Token.ofOperator]

theorem equals (h : Written cs items rest) :
    Written ('=' :: ' ' :: cs) (.token .equals :: items) rest :=
  @Written.token '=' [] (' ' :: cs) rest .equals items rfl h.space

/-- A zero in braces. -/
theorem zero (h : Written cs items rest) : Written ('{' :: '0' :: '}' :: cs)
    (.token .openBrace :: .token (.number "0") :: .token .closeBrace :: items) rest :=
  .mark rfl (@Written.token '0' [] ('}' :: cs) rest (.number "0") _ rfl (.mark rfl h))

/-- A literal around the characters of a word is written whatever is behind it. -/
theorem literal {text : List Char} (htext : ∀ c ∈ text, Segment.isWordChar c = true)
    (h : Written cs items rest) : Written ('"' :: (text ++ '"' :: cs))
      (.token (.string (String.ofList ('"' :: (text ++ ['"'])))) :: items) rest := by
  have htail : Segment.quotedTail '"' false (text ++ '"' :: cs) = some (text ++ ['"']) := by
    induction text with
    | nil => rfl
    | cons c text ih =>
      have hne : ∀ d, Segment.isWordChar d = false → c ≠ d := by
        rintro d hd rfl
        rw [htext c (List.mem_cons_self ..)] at hd
        cases hd
      have hescape : (c == '\\') = false := beq_false_of_ne (hne _ (by decide))
      rw [List.cons_append, Segment.quotedTail, if_neg (hne _ (by decide)),
        if_neg (hne _ (by decide)), hescape,
        ih fun d hd => htext d (List.mem_cons_of_mem _ hd)]
      rfl
  have hfirst : Segment.first '"' ((text ++ ['"']) ++ cs) =
      .ok ⟨'"' :: (text ++ ['"']), .token (.string (String.ofList ('"' :: (text ++ ['"']))))⟩ := by
    rw [List.append_assoc]
    change Segment.quoted '"' .string .string (text ++ '"' :: cs) = _
    rw [Segment.quoted, htail]
  have hwritten := Written.token hfirst h
  rwa [List.cons_append, List.append_assoc] at hwritten

end Written

/-! ## Code -/

/-- A text is code: it is printed from items that close their groups. -/
def IsCode (text : String) : Prop :=
  ∃ items, Prints text items ∧ Item.Balanced items

/-- A separator that may stand in front of a word, whatever stands before it. -/
structure Joins (separator : String) : Prop where
  fits : ∀ behind, Fits (separator.toList ++ behind)
  written : ∃ items, Item.Balanced items ∧ ∀ {cs rest : List Char} {more : List Item},
    BeginsWord cs → Written cs more rest →
      Written (separator.toList ++ cs) (items ++ more) rest

theorem joins_space : Joins " " :=
  ⟨fits_space, [], rfl, fun _ h => h.space⟩

theorem joins_dot : Joins "." :=
  ⟨fits_cons (by decide) (by decide), [.token (.operator ".")], rfl, fun hcs h => h.dot hcs⟩

theorem joins_ampersand : Joins "&" :=
  ⟨fits_cons (by decide) (by decide), [.token (.operator "&")], rfl, fun hcs h => h.ampersand hcs⟩

theorem joins_equals : Joins " = " :=
  ⟨fun behind => fits_space ('=' :: ' ' :: behind), [.token .equals], rfl,
    fun _ h => h.equals.space⟩

namespace IsCode

variable {text other : String}

theorem empty : IsCode "" := ⟨[], prints_nil, rfl⟩

theorem word {word : String} (h : Configuration.isIdentifier word = true) : IsCode word :=
  ⟨_, prints_word h, .words [word]⟩

/-- The declaration of a name with a printable type. -/
theorem declaration {type : CType} (htype : type.Printable) {name : String}
    (hname : Configuration.isIdentifier name = true) : IsCode (type.declare name) :=
  ⟨_, htype.prints.2 name _ (prints_word hname), .declaration htype (.words [name])⟩

/-- Code on both sides of a separator. -/
theorem join {separator : String} (hseparator : Joins separator) (h : IsCode text)
    (hother : IsCode other) (hword : BeginsWord other.toList) :
    IsCode (text ++ separator ++ other) := by
  obtain ⟨items, hprints, hbalanced⟩ := h
  obtain ⟨more, hmore, hbalanced'⟩ := hother
  obtain ⟨marks, hmarks, hwritten⟩ := hseparator.written
  have hchars : ∀ rest, (text ++ separator ++ other).toList ++ rest =
      text.toList ++ (separator.toList ++ (other.toList ++ rest)) := by
    simp
  refine ⟨items ++ (marks ++ more), ⟨fun rest hrest => ?_, ?_⟩,
    hbalanced.append (hmarks.append hbalanced')⟩
  · rw [hchars]
    exact (hprints.written _ (hseparator.fits _)).append
      (hwritten (hword.append rest) (hmore.written rest hrest))
  · rw [← List.append_nil (text ++ separator ++ other).toList, hchars]
    exact hprints.head_ne (hseparator.fits _)

/-- Code with something behind it that is written whatever follows. -/
theorem behind {tail : String} (h : IsCode text) {marks : List Item} (hmarks : Item.Balanced marks)
    (hfits : ∀ rest, Fits (tail.toList ++ rest))
    (htail : ∀ rest, Written (tail.toList ++ rest) marks rest) : IsCode (text ++ tail) := by
  obtain ⟨items, hprints, hbalanced⟩ := h
  exact ⟨items ++ marks, hprints.behind hfits htail, hbalanced.append hmarks⟩

theorem semicolon (h : IsCode text) : IsCode (text ++ ";") := by
  obtain ⟨items, hprints, hbalanced⟩ := h
  exact ⟨_, hprints.semicolon, hbalanced.append rfl⟩

theorem initialized (h : IsCode text) : IsCode (text ++ " = \x7b0\x7d") := by
  have hmarks : Item.Balanced
      [.token .equals, .token .openBrace, .token (.number "0"), .token .closeBrace] := rfl
  exact h.behind hmarks (fun _ => fits_space _) fun rest => (Written.done rest).zero.equals.space

/-- Code in parentheses behind a name. -/
theorem call {name list : String} (hname : Configuration.isIdentifier name = true)
    (hlist : IsCode list) : IsCode (name ++ "(" ++ list ++ ")") := by
  obtain ⟨items, hprints, hbalanced⟩ := hlist
  have hgroup : Item.Balanced (.token .openParen :: (items ++ [.token .closeParen])) :=
    .group rfl rfl hbalanced
  exact ⟨_, prints_call hname hprints, (Item.Balanced.words [name]).append hgroup⟩

/-- Code with commas in between. -/
theorem intercalate {texts : List String} (h : ∀ text ∈ texts, IsCode text) :
    IsCode (", ".intercalate texts) := by
  have hrows : ∃ rows, List.Forall₂ Prints texts rows ∧ ∀ row ∈ rows, Item.Balanced row := by
    induction texts with
    | nil => exact ⟨[], .nil, fun row hrow => absurd hrow List.not_mem_nil⟩
    | cons text texts ih =>
      obtain ⟨items, hprints, hbalanced⟩ := h text (List.mem_cons_self ..)
      obtain ⟨rows, hall, hrows⟩ := ih fun other hother => h other (List.mem_cons_of_mem _ hother)
      exact ⟨items :: rows, .cons hprints hall, List.forall_mem_cons.mpr ⟨hbalanced, hrows⟩⟩
  obtain ⟨rows, hall, hbalanced⟩ := hrows
  by_cases hne : texts = []
  · rw [hne]
    exact empty
  · exact ⟨_, prints_intercalate hall hne, Item.Balanced.composes.intercalate hbalanced⟩

theorem pair (h : IsCode text) (hother : IsCode other) : ∀ code ∈ [text, other], IsCode code :=
  List.forall_mem_cons.mpr ⟨h, List.forall_mem_singleton.mpr hother⟩

/-- What a pointer of the given name points to. -/
theorem pointee {name : String} (hname : Configuration.isIdentifier name = true) :
    IsCode ("(*" ++ name ++ ")") := by
  have hprints := prints_word hname
  have hchars : ∀ rest, ("(*" ++ name ++ ")").toList ++ rest =
      '(' :: '*' :: (name.toList ++ ')' :: rest) := by
    simp
  refine ⟨.token .openParen :: (.token .star :: wordItems [name] ++ [.token .closeParen]),
    ⟨fun rest _ => ?_, ?_⟩, .group rfl rfl (.cons rfl rfl (.words [name]))⟩
  · rw [hchars]
    refine .mark rfl (.star (hprints.head_ne (fits_closeParen rest)) ?_)
    exact (hprints.written _ (fits_closeParen rest)).append (.mark rfl (.done rest))
  · rw [← List.append_nil (String.toList _), hchars]
    nofun

/-- A literal around a word. -/
theorem literal {name : String} (hname : Configuration.isIdentifier name = true) :
    IsCode ("\"" ++ name ++ "\"") := by
  have hchars : ∀ rest, ("\"" ++ name ++ "\"").toList ++ rest =
      '"' :: (name.toList ++ '"' :: rest) := by
    simp
  refine ⟨[.token (.string (String.ofList ('"' :: (name.toList ++ ['"']))))],
    ⟨fun rest _ => ?_, ?_⟩, rfl⟩
  · rw [hchars]
    exact .literal (isWordChar_of_isIdentifier hname) (.done rest)
  · rw [← List.append_nil (String.toList _), hchars]
    nofun

/-- Words with a blank between two. -/
theorem words {words : List String} (hne : words ≠ [])
    (h : ∀ word ∈ words, Configuration.isIdentifier word = true) :
    IsCode (" ".intercalate words) :=
  ⟨_, prints_words hne h, .words words⟩

/-- A call with a semicolon behind it. -/
theorem callText {name : String} (hname : Configuration.isIdentifier name = true)
    {arguments : List String} (h : ∀ argument ∈ arguments, IsCode argument) :
    IsCode (RemoteFunction.callText name arguments) := by
  have htext : RemoteFunction.callText name arguments =
      name ++ "(" ++ ", ".intercalate arguments ++ ")" ++ ";" := by
    simp [RemoteFunction.callText, String.append_assoc]
  rw [htext]
  exact (call hname (intercalate h)).semicolon

/-- A member of something. -/
theorem member {name member : String} (hname : Configuration.isIdentifier name = true)
    (hmember : Configuration.isIdentifier member = true) : IsCode (name ++ "." ++ member) :=
  (word hname).join joins_dot (word hmember) (beginsWord_of_isIdentifier hmember)

/-- A member of the result structure. -/
theorem answer {name : String} (hname : Configuration.isIdentifier name = true) :
    IsCode ("_res." ++ name) :=
  member (by decide : Configuration.isIdentifier "_res" = true) hname

/-- The address of something that begins with a word. -/
theorem address (h : IsCode text) (hword : BeginsWord text.toList) : IsCode ("&" ++ text) := by
  have haddress := empty.join joins_ampersand h hword
  rwa [String.empty_append] at haddress

/-- An assignment with a semicolon behind it. -/
theorem assignment (h : IsCode text) (hother : IsCode other) (hword : BeginsWord other.toList) :
    IsCode (text ++ " = " ++ other ++ ";") :=
  (h.join joins_equals hother hword).semicolon

end IsCode

end RemoteCalls
