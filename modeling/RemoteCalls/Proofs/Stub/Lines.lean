import RemoteCalls.Proofs.Stub.Bodies
import RemoteCalls.Proofs.Token.Stretches

/-!
# Stubs line by line

Each line of a stub is written from its items with a line break behind it. The comments around the
blocks of a body add nothing, so that the items of a body close the groups that they open whatever
blocks there are.
-/

namespace RemoteCalls

/-! ## Comments -/

/-- A comment ends at the first star with a slash behind it. -/
theorem Segment.commentBody_of_not_mem {body : List Char} (h : '*' ∉ body) (cs : List Char) :
    commentBody (body ++ '*' :: '/' :: cs) = some body :=
  commentBody_of_not_infix (fun hclose => h (hclose.mem (by simp))) cs

/-- A comment without notes is written from nothing. -/
theorem prints_comment (body : List Char) (hstar : '*' ∉ body) (hnote : '@' ∉ body) {text : String}
    (htext : text.toList = '/' :: '*' :: (body ++ ['*', '/'])) : Prints text [] := by
  refine ⟨fun rest _ => ?_, by simp [htext]⟩
  have hfirst : Segment.first '/' ('*' :: (body ++ ['*', '/']) ++ rest) =
      .ok ⟨'/' :: '*' :: (body ++ ['*', '/']), .comment (String.ofList body)⟩ := by
    rw [List.cons_append, List.append_assoc]
    exact Segment.first_of_commentBody (Segment.commentBody_of_not_mem hstar rest)
  rw [htext]
  exact .gap hfirst (by simpa [Content.isGap] using hnote) (.done rest)

/-! ## Lines -/

/-- Some lines are written from some items, whatever is behind them. -/
def WrittenLines (lines : List String) (items : List Item) : Prop :=
  ∀ rest, Written ((Stub.unlines lines).toList ++ rest) items rest

/-- A text of blanks within a line. -/
def IsIndent (indent : String) : Prop :=
  ∀ c ∈ indent.toList, c = ' ' ∨ c = '\t'

instance (indent : String) : Decidable (IsIndent indent) :=
  decidable_of_iff (indent.toList.all fun c => c == ' ' || c == '\t') (by simp [IsIndent])

namespace WrittenLines

variable {lines others : List String} {items more : List Item} {indent text : String}

theorem nil : WrittenLines [] [] := fun rest => .done rest

theorem append (h : WrittenLines lines items) (hmore : WrittenLines others more) :
    WrittenLines (lines ++ others) (items ++ more) := by
  intro rest
  have htext : (Stub.unlines (lines ++ others)).toList ++ rest =
      (Stub.unlines lines).toList ++ ((Stub.unlines others).toList ++ rest) := by
    simp [Stub.unlines]
  rw [htext]
  exact (h _).append (hmore rest)

/-- A line of printed text with blanks in front of it. -/
theorem line (hindent : IsIndent indent) (h : Prints text items) :
    WrittenLines [indent ++ text] items := by
  intro rest
  have htext : (Stub.unlines [indent ++ text]).toList ++ rest =
      indent.toList ++ (text.toList ++ '\n' :: rest) := by
    simp [Stub.unlines]
  have hline : Written (text.toList ++ '\n' :: rest) items rest := by
    rw [← List.append_nil items]
    exact (h.written _ (fits_cons (by decide) (by decide) rest)).append (.newline (.done rest))
  rw [htext]
  unfold IsIndent at hindent
  generalize indent.toList = blanks at hindent
  induction blanks with
  | nil => exact hline
  | cons c cs ih =>
    obtain ⟨hc, hcs⟩ := List.forall_mem_cons.mp hindent
    have hblank : ∀ cs, Segment.first c cs = .ok ⟨[c], .blank⟩ := by
      rcases hc with rfl | rfl <;> exact fun _ => rfl
    exact @Written.gap c [] _ rest .blank items (hblank _) rfl (ih hcs)

/-- A line of printed text. -/
theorem plain (h : Prints text items) : WrittenLines [text] items := by
  have hindent : IsIndent "" := nofun
  have hline := line hindent h
  rwa [String.empty_append] at hline

end WrittenLines

/-! ## Bodies -/

/-- Some lines are code: they are written from items that close their groups. -/
def AreCode (lines : List String) : Prop :=
  ∃ items, Item.Balanced items ∧ WrittenLines lines items

namespace AreCode

variable {lines others : List String} {indent : String}

theorem nil : AreCode [] := ⟨[], .nil, .nil⟩

theorem append (h : AreCode lines) (hmore : AreCode others) : AreCode (lines ++ others) := by
  obtain ⟨items, hbalanced, hwritten⟩ := h
  obtain ⟨more, hbalanced', hwritten'⟩ := hmore
  exact ⟨items ++ more, hbalanced.append hbalanced', hwritten.append hwritten'⟩

/-- Lines of code with blanks in front of them. -/
theorem indented (hindent : IsIndent indent) (h : ∀ line ∈ lines, IsCode line) :
    AreCode (lines.map (indent ++ ·)) := by
  induction lines with
  | nil => exact nil
  | cons line lines ih =>
    obtain ⟨⟨items, hprints, hbalanced⟩, hlines⟩ := List.forall_mem_cons.mp h
    have hline : AreCode [indent ++ line] := ⟨items, hbalanced, .line hindent hprints⟩
    exact hline.append (ih hlines)

/-- Pieces of code with an empty line between two. -/
theorem intercalate {pieces : List (List String)} (h : ∀ lines ∈ pieces, AreCode lines) :
    AreCode ([""].intercalate pieces) := by
  induction pieces with
  | nil => exact nil
  | cons lines pieces ih =>
    obtain ⟨hlines, hpieces⟩ := List.forall_mem_cons.mp h
    cases pieces with
    | nil => simpa using hlines
    | cons next pieces =>
      rw [List.intercalate_cons_cons]
      exact (hlines.append ⟨[], .nil, .plain prints_nil⟩).append (ih hpieces)

end AreCode

namespace Stub

variable {indent : String} {block : Block} {lines : List String}

theorem beginMark_isCode (block : Block) : IsCode (beginMark block) := by
  refine ⟨[], prints_comment (" Autogenerated: " ++ block.name ++ " ").toList ?_ ?_ ?_,
    .nil⟩
  · cases block <;> decide
  · cases block <;> decide
  · cases block <;> decide

theorem endMark_isCode : IsCode endMark :=
  ⟨[], prints_comment " Autogenerated: end ".toList (by decide) (by decide) (by decide),
    .nil⟩

/-- A block of code between its comments is code. -/
theorem fenced_areCode (hindent : IsIndent indent) (block : Block)
    (h : ∀ line ∈ lines, IsCode line) : AreCode (fenced indent block lines) := by
  refine .indented hindent fun line hline => ?_
  rcases List.mem_append.mp hline with hline | hline
  · rcases List.mem_append.mp hline with hline | hline
    · rw [List.mem_singleton.mp hline]
      exact beginMark_isCode block
    · exact h line hline
  · rw [List.mem_singleton.mp hline]
    exact endMark_isCode

/-- A body is code if all blocks of it are, whichever blocks there are. -/
theorem bodyLines_areCode (hindent : IsIndent indent) {lines? : Block → Option (List String)}
    (h : ∀ block lines, lines? block = some lines → ∀ line ∈ lines, IsCode line)
    (blocks : List Block) : AreCode (bodyLines indent lines? blocks) := by
  refine .intercalate fun lines hlines => ?_
  obtain ⟨block, -, hblock⟩ := List.mem_filterMap.mp hlines
  obtain ⟨code, hcode, rfl⟩ := Option.map_eq_some_iff.mp hblock
  exact fenced_areCode hindent block (h block code hcode)

end Stub

end RemoteCalls
