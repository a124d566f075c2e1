/-
Hunks of a unified diff.

A hunk has lines that both sides share, lines of the old side and lines of the new side, and says
where they begin.  To apply it is to find the lines of the old side at their place and to put those
of the new side there.

* `oldSide`, `newSide` — the lines of either side;
* `applyLines_eq_some_iff`, `Hunk.apply_eq_some_iff` — what applying comes to;
* `Hunk.Locates` — the header says where on either side the lines are;
* `commonLength`, `exists_common` — two lists with the front and the end that they share.
-/
import Mathlib.Data.List.Basic

variable {α : Type*}

/-! ### Lines of a hunk -/

inductive HunkLine (α : Type*) where
  | context (line : α)
  | removed (line : α)
  | added (line : α)
deriving DecidableEq

namespace HunkLine

/-- The lines that are there before. -/
def oldSide : List (HunkLine α) → List α
  | [] => []
  | context line :: rest | removed line :: rest => line :: oldSide rest
  | added _ :: rest => oldSide rest

/-- The lines that are there afterwards. -/
def newSide : List (HunkLine α) → List α
  | [] => []
  | context line :: rest | added line :: rest => line :: newSide rest
  | removed _ :: rest => newSide rest

theorem oldSide_append (body body' : List (HunkLine α)) :
    oldSide (body ++ body') = oldSide body ++ oldSide body' := by
  induction body with
  | nil => rfl
  | cons line rest ih => cases line <;> simp [oldSide, ih]

theorem newSide_append (body body' : List (HunkLine α)) :
    newSide (body ++ body') = newSide body ++ newSide body' := by
  induction body with
  | nil => rfl
  | cons line rest ih => cases line <;> simp [newSide, ih]

@[simp] theorem sides_context (lines : List α) :
    oldSide (lines.map context) = lines ∧ newSide (lines.map context) = lines := by
  induction lines with
  | nil => exact ⟨rfl, rfl⟩
  | cons line rest ih => exact ⟨congrArg (line :: ·) ih.1, congrArg (line :: ·) ih.2⟩

@[simp] theorem sides_removed (lines : List α) :
    oldSide (lines.map removed) = lines ∧ newSide (lines.map removed) = [] := by
  induction lines with
  | nil => exact ⟨rfl, rfl⟩
  | cons line rest ih => exact ⟨congrArg (line :: ·) ih.1, ih.2⟩

@[simp] theorem sides_added (lines : List α) :
    oldSide (lines.map added) = [] ∧ newSide (lines.map added) = lines := by
  induction lines with
  | nil => exact ⟨rfl, rfl⟩
  | cons line rest ih => exact ⟨ih.1, congrArg (line :: ·) ih.2⟩

variable [DecidableEq α]

/-- The lines of a hunk against those from its place on. -/
def applyLines : List (HunkLine α) → List α → Option (List α)
  | [], lines => some lines
  | context line :: rest, first :: lines =>
    if line = first then (applyLines rest lines).map (line :: ·) else none
  | removed line :: rest, first :: lines => if line = first then applyLines rest lines else none
  | added line :: rest, lines => (applyLines rest lines).map (line :: ·)
  | context _ :: _, [] | removed _ :: _, [] => none

/-- The lines of the old side are replaced by those of the new side. -/
theorem applyLines_eq_some_iff {body : List (HunkLine α)} {lines result : List α} :
    applyLines body lines = some result
      ↔ ∃ others, lines = oldSide body ++ others ∧ result = newSide body ++ others := by
  induction body generalizing lines result with
  | nil =>
    constructor
    · intro h
      exact ⟨lines, rfl, (Option.some.inj h).symm⟩
    · rintro ⟨others, rfl, rfl⟩
      rfl
  | cons line rest ih =>
    cases line with
    | context line =>
      cases lines with
      | nil => exact iff_of_false (by simp [applyLines]) (by simp [oldSide])
      | cons first lines =>
        by_cases hsame : line = first
        · subst hsame
          rw [applyLines, if_pos rfl, Option.map_eq_some_iff]
          constructor
          · rintro ⟨result, hresult, rfl⟩
            obtain ⟨others, rfl, rfl⟩ := ih.mp hresult
            exact ⟨others, rfl, rfl⟩
          · rintro ⟨others, hlines, rfl⟩
            exact ⟨newSide rest ++ others, ih.mpr ⟨others, (List.cons.inj hlines).2, rfl⟩, rfl⟩
        · rw [applyLines, if_neg hsame]
          refine iff_of_false (by simp) ?_
          rintro ⟨others, hlines, -⟩
          exact hsame (List.cons.inj hlines).1.symm
    | removed line =>
      cases lines with
      | nil => exact iff_of_false (by simp [applyLines]) (by simp [oldSide])
      | cons first lines =>
        by_cases hsame : line = first
        · subst hsame
          rw [applyLines, if_pos rfl, ih]
          constructor
          · rintro ⟨others, rfl, rfl⟩
            exact ⟨others, rfl, rfl⟩
          · rintro ⟨others, hlines, rfl⟩
            exact ⟨others, (List.cons.inj hlines).2, rfl⟩
        · rw [applyLines, if_neg hsame]
          refine iff_of_false (by simp) ?_
          rintro ⟨others, hlines, -⟩
          exact hsame (List.cons.inj hlines).1.symm
    | added line =>
      rw [applyLines, Option.map_eq_some_iff]
      constructor
      · rintro ⟨result, hresult, rfl⟩
        obtain ⟨others, rfl, rfl⟩ := ih.mp hresult
        exact ⟨others, rfl, rfl⟩
      · rintro ⟨others, rfl, rfl⟩
        exact ⟨newSide rest ++ others, ih.mpr ⟨others, rfl, rfl⟩, rfl⟩

end HunkLine

/-! ### Hunks -/

/-- A hunk with its header. -/
structure Hunk (α : Type*) where
  oldStart : Nat
  oldCount : Nat
  newStart : Nat
  newCount : Nat
  lines : List (HunkLine α)

namespace Hunk

open HunkLine

/-- How many lines are before a range: its start is the number of its first line, or of the line
before it if it is empty. -/
def linesBefore (start count : Nat) : Nat := if count = 0 then start else start - 1

/-- The header counts the lines, and begins both sides behind the same number of lines. -/
structure Agrees (h : Hunk α) : Prop where
  oldCount : h.oldCount = (oldSide h.lines).length
  newCount : h.newCount = (newSide h.lines).length
  starts : linesBefore h.oldStart h.oldCount = linesBefore h.newStart h.newCount

instance (h : Hunk α) : Decidable h.Agrees :=
  decidable_of_iff (h.oldCount = (oldSide h.lines).length ∧ h.newCount = (newSide h.lines).length
      ∧ linesBefore h.oldStart h.oldCount = linesBefore h.newStart h.newCount)
    ⟨fun ⟨hold, hnew, hstarts⟩ => ⟨hold, hnew, hstarts⟩,
      fun hagrees => ⟨hagrees.oldCount, hagrees.newCount, hagrees.starts⟩⟩

/-- The header says where on either side the lines of the hunk are, and counts them. -/
structure Locates (h : Hunk α) (old new : List α) : Prop where
  agrees : h.Agrees
  oldStart : h.oldCount ≠ 0 → 0 < h.oldStart
  newStart : h.newCount ≠ 0 → 0 < h.newStart
  oldLines : (old.drop (linesBefore h.oldStart h.oldCount)).take h.oldCount = oldSide h.lines
  newLines : (new.drop (linesBefore h.newStart h.newCount)).take h.newCount = newSide h.lines

theorem locates_append {h : Hunk α} (hagrees : h.Agrees) (hold : h.oldCount ≠ 0 → 0 < h.oldStart)
    (hnew : h.newCount ≠ 0 → 0 < h.newStart) {before : List α}
    (hbefore : before.length = linesBefore h.oldStart h.oldCount) (others : List α) :
    h.Locates (before ++ oldSide h.lines ++ others) (before ++ newSide h.lines ++ others) := by
  refine ⟨hagrees, hold, hnew, ?_, ?_⟩
  · rw [← hbefore, List.append_assoc, List.drop_left, hagrees.oldCount, List.take_left]
  · rw [← hagrees.starts, ← hbefore, List.append_assoc, List.drop_left, hagrees.newCount,
      List.take_left]

variable [DecidableEq α]

/-- The lines after a hunk, if the header agrees with its lines and they are where it says. -/
def apply (h : Hunk α) (lines : List α) : Option (List α) :=
  let skipped := linesBefore h.oldStart h.oldCount
  if h.Agrees ∧ skipped ≤ lines.length then
    (applyLines h.lines (lines.drop skipped)).map (lines.take skipped ++ ·)
  else
    none

theorem apply_eq_some_iff {h : Hunk α} {lines result : List α} :
    h.apply lines = some result
      ↔ h.Agrees ∧ ∃ before others, before.length = linesBefore h.oldStart h.oldCount
        ∧ lines = before ++ oldSide h.lines ++ others
        ∧ result = before ++ newSide h.lines ++ others := by
  unfold apply
  dsimp only
  by_cases hvalid : h.Agrees ∧ linesBefore h.oldStart h.oldCount ≤ lines.length
  · rw [if_pos hvalid, Option.map_eq_some_iff]
    constructor
    · rintro ⟨later, hlater, rfl⟩
      obtain ⟨others, hdrop, rfl⟩ := applyLines_eq_some_iff.mp hlater
      refine ⟨hvalid.1, _, others, List.length_take_of_le hvalid.2, ?_, ?_⟩
      · rw [List.append_assoc, ← hdrop, List.take_append_drop]
      · rw [List.append_assoc]
    · rintro ⟨-, before, others, hlength, rfl, rfl⟩
      refine ⟨newSide h.lines ++ others, applyLines_eq_some_iff.mpr ⟨others, ?_, rfl⟩, ?_⟩
      · rw [← hlength, List.append_assoc, List.drop_left]
      · rw [← hlength, List.append_assoc, List.take_left, List.append_assoc]
  · rw [if_neg hvalid]
    refine iff_of_false (by simp) ?_
    rintro ⟨hagrees, before, others, hlength, rfl, -⟩
    refine hvalid ⟨hagrees, ?_⟩
    rw [← hlength, List.append_assoc, List.length_append]
    exact Nat.le_add_right _ _

end Hunk

/-! ### What two lists share -/

/-- The last values of a front and the first of an end belong to the middle. -/
theorem append_window (front middle tail : List α) (m n : Nat) :
    front ++ middle ++ tail
      = front.take m ++ (front.drop m ++ middle ++ tail.take n) ++ tail.drop n := by
  have hfront : front.take m ++ (front.drop m ++ middle) = front ++ middle := by
    rw [← List.append_assoc, List.take_append_drop]
  rw [← List.append_assoc _ _ (tail.take n), hfront, List.append_assoc _ (tail.take n),
    List.take_append_drop]

variable [DecidableEq α]

/-- How many values are the same from the left on. -/
def commonLength (xs ys : List α) : Nat :=
  ((xs.zip ys).takeWhile fun pair => decide (pair.1 = pair.2)).length

theorem commonLength_spec (xs ys : List α) :
    commonLength xs ys ≤ xs.length ∧ commonLength xs ys ≤ ys.length
      ∧ xs.take (commonLength xs ys) = ys.take (commonLength xs ys) := by
  induction xs generalizing ys with
  | nil => exact ⟨Nat.le_refl _, Nat.zero_le _, rfl⟩
  | cons x xs ih =>
    cases ys with
    | nil => exact ⟨Nat.zero_le _, Nat.le_refl _, rfl⟩
    | cons y ys =>
      by_cases hsame : x = y
      · subst hsame
        obtain ⟨hleft, hright, htake⟩ := ih ys
        have hlength : commonLength (x :: xs) (x :: ys) = commonLength xs ys + 1 := by
          simp [commonLength]
        rw [hlength]
        refine ⟨Nat.succ_le_succ hleft, Nat.succ_le_succ hright, ?_⟩
        rw [List.take_succ_cons, List.take_succ_cons, htake]
      · have hlength : commonLength (x :: xs) (y :: ys) = 0 := by
          simp [commonLength, hsame]
        rw [hlength]
        exact ⟨Nat.zero_le _, Nat.zero_le _, rfl⟩

/-- Two lists, cut behind their common front and before the common end of what is left. -/
theorem exists_common (xs ys : List α) :
    let front := commonLength xs ys
    let tail := commonLength (xs.drop front).reverse (ys.drop front).reverse
    ∃ shared left right common, xs = shared ++ left ++ common ∧ ys = shared ++ right ++ common
      ∧ shared.length = front ∧ common.length = tail := by
  intro front tail
  obtain ⟨hx, hy, htake⟩ := commonLength_spec xs ys
  obtain ⟨hx', hy', htake'⟩ := commonLength_spec (xs.drop front).reverse (ys.drop front).reverse
  rw [List.length_reverse] at hx' hy'
  have hcommon : (xs.drop front).drop ((xs.drop front).length - tail)
      = (ys.drop front).drop ((ys.drop front).length - tail) := by
    rw [List.take_reverse, List.take_reverse] at htake'
    exact List.reverse_injective htake'
  refine ⟨xs.take front, (xs.drop front).take ((xs.drop front).length - tail),
    (ys.drop front).take ((ys.drop front).length - tail),
    (xs.drop front).drop ((xs.drop front).length - tail), ?_, ?_, ?_, ?_⟩
  · rw [List.append_assoc, List.take_append_drop, List.take_append_drop]
  · rw [List.append_assoc, hcommon, List.take_append_drop, htake, List.take_append_drop]
  · exact List.length_take_of_le hx
  · rw [List.length_drop]
    omega
