import Mathlib.Data.List.Basic
import Mathlib.Data.List.TakeWhile
import RemoteCalls.Text.Pieces

/-!
# Blanks around a text and marks in it

What is left of a text without the blanks at its ends is the one part of it with blanks around it and
with none at its own ends. The pieces of a text are those of a list at an element.
-/

namespace RemoteCalls.Text

variable {cs inner : List Char}

/-! ## Blanks at the ends -/

/-- A text is another one between blanks, and that one neither begins nor ends with a blank. -/
structure Trimmed (cs inner : List Char) : Prop where
  around : ∃ before after, cs = before ++ (inner ++ after) ∧
    (∀ c ∈ before, isBlank c = true) ∧ ∀ c ∈ after, isBlank c = true
  first : ∀ c ∈ inner.head?, isBlank c = false
  last : ∀ c ∈ inner.getLast?, isBlank c = false

theorem trimLeft_append {before : List Char} (hbefore : ∀ c ∈ before, isBlank c = true)
    (hfirst : ∀ c ∈ inner.head?, isBlank c = false) : trimLeft (before ++ inner) = inner := by
  unfold trimLeft
  rw [List.dropWhile_append_of_pos hbefore]
  cases inner with
  | nil => rfl
  | cons c inner => exact List.dropWhile_cons_of_neg (by simp [hfirst c rfl])

theorem trimRight_append {after : List Char} (hafter : ∀ c ∈ after, isBlank c = true)
    (hlast : ∀ c ∈ inner.getLast?, isBlank c = false) : trimRight (inner ++ after) = inner := by
  have hback : trimLeft (after.reverse ++ inner.reverse) = inner.reverse :=
    trimLeft_append (by simpa using hafter) (by simpa using hlast)
  unfold trimRight
  rw [List.reverse_append]
  exact (congrArg List.reverse hback).trans (List.reverse_reverse inner)

theorem exists_append_trimLeft (cs : List Char) :
    ∃ before, cs = before ++ trimLeft cs ∧ (∀ c ∈ before, isBlank c = true) ∧
      ∀ c ∈ (trimLeft cs).head?, isBlank c = false := by
  refine ⟨cs.takeWhile isBlank, List.takeWhile_append_dropWhile.symm,
    fun c => List.mem_takeWhile_imp, fun c hc => ?_⟩
  have hstop := List.head?_dropWhile_not isBlank cs
  rw [show (cs.dropWhile isBlank).head? = some c from hc] at hstop
  exact hstop

theorem exists_trimRight_append (cs : List Char) :
    ∃ after, cs = trimRight cs ++ after ∧ (∀ c ∈ after, isBlank c = true) ∧
      ∀ c ∈ (trimRight cs).getLast?, isBlank c = false := by
  obtain ⟨before, hcs, hbefore, hfirst⟩ := exists_append_trimLeft cs.reverse
  refine ⟨before.reverse, ?_, by simpa using hbefore, ?_⟩
  · have hback := congrArg List.reverse hcs
    rwa [List.reverse_reverse, List.reverse_append] at hback
  · rw [trimRight, List.getLast?_reverse]
    exact hfirst

theorem trimmed_trim (cs : List Char) : Trimmed cs (trim cs) := by
  obtain ⟨before, hcs, hbefore, hfirst⟩ := exists_append_trimLeft cs
  obtain ⟨after, hleft, hafter, hlast⟩ := exists_trimRight_append (trimLeft cs)
  refine ⟨⟨before, after, hcs.trans (congrArg (before ++ ·) hleft), hbefore, hafter⟩, ?_, hlast⟩
  intro c hc
  refine hfirst c ?_
  rw [hleft]
  exact List.mem_head?_append_of_mem_head? hc

theorem Trimmed.trim_eq (h : Trimmed cs inner) : trim cs = inner := by
  obtain ⟨before, after, rfl, hbefore, hafter⟩ := h.around
  by_cases hinner : inner = []
  · subst hinner
    have hall : trimLeft ((before ++ ([] ++ after)) ++ []) = [] :=
      trimLeft_append (by simpa [or_imp, forall_and] using ⟨hbefore, hafter⟩) (by simp)
    rw [List.append_nil] at hall
    rw [trim, hall]
    rfl
  · have hleft : trimLeft (before ++ (inner ++ after)) = inner ++ after := by
      refine trimLeft_append hbefore ?_
      rw [List.head?_append_of_ne_nil _ hinner]
      exact h.first
    rw [trim, hleft, trimRight_append hafter h.last]

/-- What is left without blanks at the ends is the one part that is trimmed. -/
theorem trim_eq_iff : trim cs = inner ↔ Trimmed cs inner := by
  refine ⟨?_, Trimmed.trim_eq⟩
  rintro rfl
  exact trimmed_trim cs

theorem Trimmed.refl (hfirst : ∀ c ∈ cs.head?, isBlank c = false)
    (hlast : ∀ c ∈ cs.getLast?, isBlank c = false) : Trimmed cs cs :=
  ⟨⟨[], [], by simp, by simp, by simp⟩, hfirst, hlast⟩

/-- A mark that is no blank stands in what is trimmed or nowhere. -/
theorem Trimmed.mem {mark : Char} (h : Trimmed cs inner) (hmark : isBlank mark = false)
    (hmem : mark ∈ cs) : mark ∈ inner := by
  obtain ⟨before, after, rfl, hbefore, hafter⟩ := h.around
  rw [List.mem_append, List.mem_append] at hmem
  rcases hmem with hmem | hmem | hmem
  · rw [hbefore mark hmem] at hmark
    cases hmark
  · exact hmem
  · rw [hafter mark hmem] at hmark
    cases hmark

/-! ## Pieces -/

theorem pieces_eq_splitOn (mark : Char) (cs : List Char) : pieces mark cs = cs.splitOn mark := by
  induction cs with
  | nil => rfl
  | cons c cs ih =>
    obtain ⟨piece, rest, hsplit⟩ := List.exists_cons_of_ne_nil (List.splitOn_ne_nil mark cs)
    rw [pieces, ih, List.splitOn_cons_eq_if_modifyHead, hsplit]
    by_cases hc : c = mark
    · simp [hc]
    · simp [hc]

theorem commaPieces_eq (cs : List Char) :
    commaPieces cs = (((cs.splitOn ',').map trim).filter (· ≠ [])).map String.ofList := by
  have hempty (piece : List Char) : (String.ofList piece).isEmpty = decide (piece = []) := by
    rw [Bool.eq_iff_iff, String.isEmpty_iff, String.ofList_eq_empty_iff, decide_eq_true_iff]
  rw [commaPieces, pieces_eq_splitOn, List.filter_map, List.filter_map, List.map_map]
  simp only [Function.comp_def, hempty, ne_eq, decide_not]

/-- What stands in front of a comma is cut by itself. -/
theorem commaPieces_append (front behind : List Char) :
    commaPieces (front ++ ',' :: behind) = commaPieces front ++ commaPieces behind := by
  simp only [commaPieces_eq, List.splitOn_append_cons_self, List.map_append, List.filter_append]

end RemoteCalls.Text
