import Mathlib.Data.List.Infix

/-!
# Texts by bytes

A place in a text can be given by the number of bytes in front of it, and such a place is between two
characters or inside of one. A slice has to begin and end between characters; one that does not gives
`none`. A text is searched for another one byte by byte, and where it is found is between characters,
since no character has a byte inside that another one begins with.
-/

namespace RemoteCalls.Text

/-! ## Bytes -/

/-- The bytes of a text. -/
def bytes (text : String) : List UInt8 :=
  text.toByteArray.data.toList

/-- The number of bytes that some characters take. -/
def size : List Char → Nat
  | [] => 0
  | c :: cs => c.utf8Size + size cs

/-- The characters of a text, each with the number of bytes in front of it; `start` bytes are in
front of the first one. -/
def offsets (start : Nat) : List Char → List (Nat × Char)
  | [] => []
  | c :: cs => (start, c) :: offsets (start + c.utf8Size) cs

/-- The part of a text from one byte to another one, if both are between characters. -/
def slice? (text : String) (start stop : Nat) : Option String :=
  if h : start ≤ stop ∧ String.Pos.Raw.IsValid text ⟨start⟩ ∧ String.Pos.Raw.IsValid text ⟨stop⟩ then
    some (text.extract ⟨⟨start⟩, h.2.1⟩ ⟨⟨stop⟩, h.2.2⟩)
  else none

/-- The number of bytes in front of the first place where some bytes stand among others. -/
def findBytes? (pattern row : List UInt8) : Option Nat :=
  row.tails.findIdx? pattern.isPrefixOf

/-- The number of bytes in front of the first place where a text stands in another one. -/
def find? (pattern text : String) : Option Nat :=
  findBytes? (bytes pattern) (bytes text)

theorem bytes_ofList (cs : List Char) :
    bytes (String.ofList cs) = cs.flatMap String.utf8EncodeChar := by
  rw [bytes, String.toByteArray_ofList, List.utf8Encode, List.toList_data_toByteArray]

@[simp] theorem size_nil : size [] = 0 := rfl

@[simp] theorem size_cons (c : Char) (cs : List Char) : size (c :: cs) = c.utf8Size + size cs := rfl

@[simp] theorem size_append (front behind : List Char) :
    size (front ++ behind) = size front + size behind := by
  induction front with
  | nil => rw [List.nil_append, size_nil, Nat.zero_add]
  | cons c front ih => rw [List.cons_append, size_cons, size_cons, ih, Nat.add_assoc]

theorem utf8ByteSize_ofList (cs : List Char) : (String.ofList cs).utf8ByteSize = size cs := by
  have hsize : (String.ofList cs).utf8ByteSize = (bytes (String.ofList cs)).length := rfl
  rw [hsize, bytes_ofList]
  induction cs with
  | nil => rfl
  | cons c cs ih =>
    rw [List.flatMap_cons, List.length_append, String.length_utf8EncodeChar, size_cons]
    exact congrArg _ (ih rfl)

@[simp] theorem length_offsets (start : Nat) (cs : List Char) :
    (offsets start cs).length = cs.length := by
  induction cs generalizing start with
  | nil => rfl
  | cons c cs ih => rw [offsets, List.length_cons, List.length_cons, ih]

theorem offsets_append (start : Nat) (front behind : List Char) :
    offsets start (front ++ behind) = offsets start front ++ offsets (start + size front) behind := by
  induction front generalizing start with
  | nil => rfl
  | cons c front ih => rw [List.cons_append, offsets, ih, offsets, size_cons, Nat.add_assoc]; rfl

theorem drop_offsets (front behind : List Char) :
    (offsets 0 (front ++ behind)).drop front.length = offsets (size front) behind := by
  rw [offsets_append, Nat.zero_add, List.drop_left' (length_offsets 0 front)]

theorem map_snd_offsets (start : Nat) (cs : List Char) : (offsets start cs).map Prod.snd = cs := by
  induction cs generalizing start with
  | nil => rfl
  | cons c cs ih => rw [offsets, List.map_cons, ih]

/-- Behind a character stands the first of those behind it. -/
theorem map_snd_getElem?_offsets (front : List Char) (c : Char) (behind : List Char) :
    (offsets 0 (front ++ c :: behind))[front.length + 1]?.map Prod.snd = behind.head? := by
  rw [← List.getElem?_map, map_snd_offsets, List.getElem?_append_right (Nat.le_add_right _ _),
    Nat.add_sub_cancel_left, List.getElem?_cons_succ, List.head?_eq_getElem?]

/-- In front of a character, or of the end of the text, stand the bytes of all characters there. -/
theorem getD_offsets (front behind : List Char) :
    ((offsets 0 (front ++ behind))[front.length]?.map Prod.fst).getD (size (front ++ behind)) =
      size front := by
  rw [← List.head?_drop, drop_offsets]
  cases behind with
  | nil => simp [offsets]
  | cons c behind => rfl

/-- Just the characters in front have fewer bytes in front of them than all of these take. -/
theorem takeWhile_offsets (start : Nat) (front behind : List Char) :
    (offsets start (front ++ behind)).takeWhile (fun item => item.1 < start + size front) =
      offsets start front := by
  have hfront : ∀ item ∈ offsets start front, item.1 < start + size front := by
    induction front generalizing start with
    | nil => exact List.forall_mem_nil _
    | cons c front ih =>
      have hpos := c.utf8Size_pos
      refine List.forall_mem_cons.mpr ⟨?_, fun item hitem => ?_⟩
      · rw [size_cons]
        omega
      · rw [size_cons, ← Nat.add_assoc]
        exact ih _ item hitem
  rw [offsets_append, List.takeWhile_append_of_pos fun item hitem => decide_eq_true (hfront item hitem)]
  cases behind with
  | nil => rw [offsets, List.takeWhile_nil, List.append_nil]
  | cons c behind =>
    rw [offsets, List.takeWhile_cons_of_neg (by simp), List.append_nil]

/-! ## Slices -/

/-- A slice from between two characters to between two others is the text that stands there. -/
theorem slice?_append (front middle behind : String) :
    slice? (front ++ (middle ++ behind)) front.utf8ByteSize
      (front.utf8ByteSize + middle.utf8ByteSize) = some middle := by
  have hstart : String.Pos.Raw.IsValid (front ++ (middle ++ behind)) ⟨front.utf8ByteSize⟩ :=
    String.Pos.Raw.isValid_iff_exists_append.mpr ⟨front, middle ++ behind, rfl, rfl⟩
  have hstop : String.Pos.Raw.IsValid (front ++ (middle ++ behind))
      ⟨front.utf8ByteSize + middle.utf8ByteSize⟩ := by
    refine String.Pos.Raw.isValid_iff_exists_append.mpr
      ⟨front ++ middle, behind, String.append_assoc.symm, ?_⟩
    rw [String.Pos.Raw.ext_iff, String.byteIdx_rawEndPos, String.utf8ByteSize_append]
  rw [slice?, dif_pos ⟨Nat.le_add_right _ _, hstart, hstop⟩, Option.some.injEq,
    ← String.toByteArray_inj, String.toByteArray_extract, String.toByteArray_append,
    String.toByteArray_append]
  change ByteArray.extract _ (front.toByteArray.size + 0) (front.toByteArray.size +
    middle.toByteArray.size) = _
  rw [ByteArray.extract_append_size_add, ByteArray.extract_append_eq_left rfl]

theorem slice?_ofList (front middle behind : List Char) :
    slice? (String.ofList (front ++ (middle ++ behind))) (size front) (size front + size middle) =
      some (String.ofList middle) := by
  have hslice := slice?_append (String.ofList front) (String.ofList middle) (String.ofList behind)
  simpa only [utf8ByteSize_ofList, ← String.ofList_append] using hslice

theorem slice?_front (front behind : List Char) :
    slice? (String.ofList (front ++ behind)) 0 (size front) = some (String.ofList front) := by
  have hslice := slice?_ofList [] front behind
  rwa [List.nil_append, size_nil, Nat.zero_add] at hslice

theorem slice?_back (front behind : List Char) :
    slice? (String.ofList (front ++ behind)) (size front)
      (String.ofList (front ++ behind)).utf8ByteSize = some (String.ofList behind) := by
  have hslice := slice?_ofList front behind []
  rwa [List.append_nil, ← size_append, ← utf8ByteSize_ofList (front ++ behind)] at hslice

/-! ## Searching -/

theorem findBytes?_cons (pattern : List UInt8) (b : UInt8) (row : List UInt8) :
    findBytes? pattern (b :: row) =
      if pattern.isPrefixOf (b :: row) then some 0 else (findBytes? pattern row).map (· + 1) := by
  rw [findBytes?, List.tails_cons, List.findIdx?_cons]
  rfl

/-- A text is not found at a byte that no character begins with. -/
theorem findBytes?_append_of_inside {first : UInt8} {pattern inside : List UInt8}
    (hfirst : first.IsUTF8FirstByte) (hinside : ∀ b ∈ inside, ¬ b.IsUTF8FirstByte)
    (row : List UInt8) :
    findBytes? (first :: pattern) (inside ++ row) =
      (findBytes? (first :: pattern) row).map (· + inside.length) := by
  induction inside with
  | nil => simp
  | cons b inside ih =>
    obtain ⟨hb, hrest⟩ := List.forall_mem_cons.mp hinside
    have hne : (first == b) = false := beq_false_of_ne fun heq => hb (heq ▸ hfirst)
    have hfront : (first :: pattern).isPrefixOf (b :: (inside ++ row)) = false := by
      rw [List.isPrefixOf, hne, Bool.false_and]
    rw [List.cons_append, findBytes?_cons, hfront, if_neg Bool.false_ne_true, ih hrest,
      Option.map_map, List.length_cons]
    rfl

/-- The bytes of a character are one that a character begins with, and others behind it. -/
theorem exists_utf8EncodeChar (c : Char) : ∃ first inside,
    String.utf8EncodeChar c = first :: inside ∧ first.IsUTF8FirstByte ∧
      ∀ b ∈ inside, ¬ b.IsUTF8FirstByte := by
  obtain ⟨first, inside, hbytes⟩ :=
    List.exists_cons_of_ne_nil (String.utf8EncodeChar_ne_nil (c := c))
  have hget : ∀ i (hi : i < (first :: inside).length),
      (first :: inside)[i].IsUTF8FirstByte ↔ i = 0 := by
    rw [← hbytes]
    exact fun i hi => UInt8.isUTF8FirstByte_getElem_utf8EncodeChar
  refine ⟨first, inside, hbytes, (hget 0 (Nat.succ_pos _)).mpr rfl, fun b hb hfirst => ?_⟩
  obtain ⟨i, hi, rfl⟩ := List.mem_iff_getElem.mp hb
  exact absurd ((hget (i + 1) (Nat.succ_lt_succ hi)).mp hfirst) (Nat.succ_ne_zero i)

/-- The bytes of some characters begin with those of others just if the characters do. -/
theorem flatMap_utf8EncodeChar_prefix_iff {pattern cs : List Char} :
    pattern.flatMap String.utf8EncodeChar <+: cs.flatMap String.utf8EncodeChar ↔ pattern <+: cs := by
  constructor
  · rintro ⟨behind, hbytes⟩
    refine List.isPrefix_of_utf8Encode_append_eq_utf8Encode behind.toByteArray ?_
    rw [List.utf8Encode, List.utf8Encode, ← List.toByteArray_append, hbytes]
  · rintro ⟨behind, rfl⟩
    rw [List.flatMap_append]
    exact List.prefix_append _ _

/-- A text is found character by character. -/
theorem find?_ofList_cons (first : Char) (pattern : List Char) (c : Char) (cs : List Char) :
    find? (String.ofList (first :: pattern)) (String.ofList (c :: cs)) =
      if first :: pattern <+: c :: cs then some 0
      else (find? (String.ofList (first :: pattern)) (String.ofList cs)).map (· + c.utf8Size) := by
  have hfront := @flatMap_utf8EncodeChar_prefix_iff (first :: pattern) (c :: cs)
  obtain ⟨b, more, hpattern, hb, -⟩ := exists_utf8EncodeChar first
  obtain ⟨own, inside, hbytes, -, hinside⟩ := exists_utf8EncodeChar c
  have hlength : inside.length + 1 = c.utf8Size := by
    rw [← String.length_utf8EncodeChar, hbytes, List.length_cons]
  rw [List.flatMap_cons, List.flatMap_cons, hpattern, hbytes] at hfront
  rw [find?, find?, bytes_ofList, bytes_ofList, bytes_ofList, List.flatMap_cons, List.flatMap_cons,
    hpattern, hbytes, List.cons_append, List.cons_append, findBytes?_cons]
  rw [List.cons_append, List.cons_append] at hfront
  refine if_congr (List.isPrefixOf_iff_prefix.trans hfront) rfl ?_
  rw [findBytes?_append_of_inside hb hinside, Option.map_map, ← hlength]
  rfl

end RemoteCalls.Text
