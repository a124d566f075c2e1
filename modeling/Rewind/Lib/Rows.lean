/-
Matching by rows.

A row tells, for each prefix of a text, whether the prefix is a word of a language.  A matcher that
reads a pattern from the left has one row at a time: that of the language of what it has read.

* `IsRow` — a row of a language, from a prefix on;
* `concat_mem_mul_singleton`, `concat_mem_mul_letters` — the recurrences of a letter of its own and
  of a repeated class of letters;
* `IsRow.getLastD` — the last value is that of the whole text.
-/
import Mathlib.Computability.Language

namespace Rows

variable {α : Type*} {L : Language α}

/-- The words with letters of one class. -/
def letters (p : α → Prop) : Language α := {word | ∀ a ∈ word, p a}

/-- The row of a language, for the prefixes from `done` to `done ++ text`. -/
def IsRow (L : Language α) : List α → List α → List Bool → Prop
  | done, [], row => ∃ last, row = [last] ∧ (last = true ↔ done ∈ L)
  | done, a :: text, row =>
    ∃ first rest, row = first :: rest ∧ (first = true ↔ done ∈ L) ∧ IsRow L (done ++ [a]) text rest

/-- Every row has a first value. -/
theorem IsRow.exists_cons {done text : List α} {row : List Bool} (h : IsRow L done text row) :
    ∃ first rest, row = first :: rest ∧ (first = true ↔ done ∈ L) := by
  cases text with
  | nil =>
    obtain ⟨last, rfl, hlast⟩ := h
    exact ⟨last, [], rfl, hlast⟩
  | cons a text =>
    obtain ⟨first, rest, rfl, hfirst, -⟩ := h
    exact ⟨first, rest, rfl, hfirst⟩

theorem IsRow.getLastD {done text : List α} {row : List Bool} (h : IsRow L done text row) :
    row.getLastD false = true ↔ done ++ text ∈ L := by
  induction text generalizing done row with
  | nil =>
    obtain ⟨last, rfl, hlast⟩ := h
    rw [List.append_nil]
    exact hlast
  | cons a text ih =>
    obtain ⟨first, rest, rfl, -, hrest⟩ := h
    have hlater := ih hrest
    obtain ⟨second, others, rfl, -⟩ := hrest.exists_cons
    rw [List.append_assoc] at hlater
    exact hlater

/-- The row of the language of the empty word. -/
theorem isRow_one (text : List α) : IsRow 1 [] text (true :: List.replicate text.length false) := by
  have hlater : ∀ (done text : List α), done ≠ [] →
      IsRow 1 done text (List.replicate (text.length + 1) false) := by
    intro done text hdone
    induction text generalizing done with
    | nil => exact ⟨false, rfl, iff_of_false (by simp) hdone⟩
    | cons a text ih =>
      refine ⟨false, List.replicate (text.length + 1) false, rfl, iff_of_false (by simp) hdone, ?_⟩
      exact ih (done ++ [a]) (List.concat_ne_nil _ _)
  cases text with
  | nil => exact ⟨true, rfl, iff_of_true rfl rfl⟩
  | cons a text =>
    refine ⟨true, _, rfl, iff_of_true rfl rfl, ?_⟩
    exact hlater [a] text (List.cons_ne_nil _ _)

/-! ### A letter of its own -/

theorem nil_not_mem_mul_singleton (a : α) : [] ∉ L * {[a]} := by
  rintro ⟨x, -, y, hy, happend⟩
  rw [Set.mem_singleton_iff.mp hy] at happend
  exact List.concat_ne_nil _ _ happend

theorem concat_mem_mul_singleton {a b : α} {word : List α} :
    word ++ [b] ∈ L * {[a]} ↔ word ∈ L ∧ a = b := by
  constructor
  · rintro ⟨x, hx, y, hy, happend⟩
    rw [Set.mem_singleton_iff.mp hy] at happend
    obtain ⟨rfl, hlast⟩ := List.append_inj' happend rfl
    exact ⟨hx, List.singleton_inj.mp hlast⟩
  · rintro ⟨hword, rfl⟩
    exact Language.append_mem_mul hword rfl

/-! ### Letters of a class -/

variable {p : α → Prop}

theorem nil_mem_mul_letters : [] ∈ L * letters p ↔ [] ∈ L := by
  constructor
  · rintro ⟨x, hx, y, -, happend⟩
    rwa [(List.append_eq_nil_iff.mp happend).1] at hx
  · intro hnil
    exact ⟨[], hnil, [], fun _ h => absurd h List.not_mem_nil, rfl⟩

/-- A word ends before the repetition, or in it. -/
theorem concat_mem_mul_letters {b : α} {word : List α} :
    word ++ [b] ∈ L * letters p ↔ word ++ [b] ∈ L ∨ (word ∈ L * letters p ∧ p b) := by
  constructor
  · intro hword
    obtain ⟨x, hx, y, hy, happend⟩ := Language.mem_mul.mp hword
    rcases List.eq_nil_or_concat' y with rfl | ⟨y, c, rfl⟩
    · left
      rwa [← happend, List.append_nil]
    · right
      have hwords : (x ++ y) ++ [c] = word ++ [b] := by rw [List.append_assoc, happend]
      obtain ⟨rfl, hlast⟩ := List.append_inj' hwords rfl
      obtain rfl := List.singleton_inj.mp hlast
      refine ⟨Language.append_mem_mul hx ?_, hy c (List.mem_append_right _ List.mem_cons_self)⟩
      exact fun a ha => hy a (List.mem_append_left _ ha)
  · rintro (hword | ⟨⟨x, hx, y, hy, rfl⟩, hb⟩)
    · exact ⟨word ++ [b], hword, [], fun _ h => absurd h List.not_mem_nil, List.append_nil _⟩
    · refine ⟨x, hx, y ++ [b], ?_, (List.append_assoc _ _ _).symm⟩
      intro a ha
      rcases List.mem_append.mp ha with ha | ha
      · exact hy a ha
      · rw [List.mem_singleton.mp ha]
        exact hb

end Rows
