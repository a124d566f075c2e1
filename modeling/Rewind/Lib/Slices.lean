/-
Slices and differences that are checked.

An access that is out of range and a difference below zero have no result, where the program would
stop.

* `sliceFrom`, `sliceBetween`, `checkedSub` — the checked operations;
* `drop_of_getElem?` — the list from a value on.
-/
import Mathlib.Data.List.Basic

variable {α : Type*}

/-- `&values[start..]`. -/
def sliceFrom (values : List α) (start : Nat) : Option (List α) :=
  if start ≤ values.length then some (values.drop start) else none

/-- `&values[start..stop]`. -/
def sliceBetween (values : List α) (start stop : Nat) : Option (List α) :=
  if start ≤ stop ∧ stop ≤ values.length then some ((values.drop start).take (stop - start))
  else none

/-- `left - right`. -/
def checkedSub (left right : Nat) : Option Nat := if right ≤ left then some (left - right) else none

theorem drop_of_getElem? {values : List α} {index : Nat} {value : α}
    (h : values[index]? = some value) : values.drop index = value :: values.drop (index + 1) := by
  obtain ⟨hindex, hvalue⟩ := List.getElem?_eq_some_iff.mp h
  rw [List.drop_eq_getElem_cons hindex, hvalue]

/-- The slice between two parts of a list. -/
theorem sliceBetween_append (before middle after : List α) :
    sliceBetween (before ++ middle ++ after) before.length (before.length + middle.length)
      = some middle := by
  rw [sliceBetween, if_pos, List.append_assoc, List.drop_left, Nat.add_sub_cancel_left,
    List.take_left]
  rw [List.length_append, List.length_append]
  omega
