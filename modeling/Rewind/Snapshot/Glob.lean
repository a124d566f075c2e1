/-
Globs of ignored paths.

The matcher goes through a pattern once, with one row of values for the prefixes of the path.  What
a pattern means is stated without rows: a way to split the path along the pattern.

* `GlobMatches` — the meaning of a pattern;
* `isRow_globRows` — the rows are those of the part of the pattern that has been read;
* **`glob_exact`** — the matcher accepts exactly the paths that the pattern means.
-/
import Rewind.Lib.Rows
import Rewind.Snapshot.Scan

namespace Rewind

open Rows

namespace Scan

/-- A path splits along a pattern.  Stars are read from the left: two of them in a row are one
wildcard, and only a star without another behind it keeps to one component. -/
inductive GlobMatches : Bytes → Bytes → Prop
  | nil : GlobMatches [] []
  | recursive {pattern any path : Bytes} :
    GlobMatches pattern path → GlobMatches (star :: star :: pattern) (any ++ path)
  | component {pattern any path : Bytes} :
    pattern.head? ≠ some star → slash ∉ any → GlobMatches pattern path →
    GlobMatches (star :: pattern) (any ++ path)
  | byte {a : UInt8} {pattern path : Bytes} :
    a ≠ star → GlobMatches pattern path → GlobMatches (a :: pattern) (a :: path)

/-- The paths that a pattern means. -/
def globLanguage (pattern : Bytes) : Language UInt8 := {path | GlobMatches pattern path}

/-- What a wildcard stands for. -/
def wildcard (recursive : Bool) : Language UInt8 := letters fun b => recursive = true ∨ b ≠ slash

theorem globLanguage_nil : globLanguage [] = 1 := by
  ext path
  constructor
  · rintro ⟨⟩
    rfl
  · intro hpath
    rw [(Language.mem_one path).mp hpath]
    exact .nil

theorem globLanguage_recursive (pattern : Bytes) :
    globLanguage (star :: star :: pattern) = wildcard true * globLanguage pattern := by
  ext path
  constructor
  · intro hmatch
    cases hmatch with
    | recursive hrest => exact Language.append_mem_mul (fun _ _ => Or.inl rfl) hrest
    | component hhead => exact absurd rfl hhead
    | byte hstar => exact absurd rfl hstar
  · rintro ⟨any, -, path, hpath, rfl⟩
    exact .recursive hpath

theorem globLanguage_component {pattern : Bytes} (h : pattern.head? ≠ some star) :
    globLanguage (star :: pattern) = wildcard false * globLanguage pattern := by
  ext path
  constructor
  · intro hmatch
    cases hmatch with
    | recursive => exact absurd rfl h
    | component _ hany hrest =>
      refine Language.append_mem_mul (fun b hb => Or.inr ?_) hrest
      rintro rfl
      exact hany hb
    | byte hstar => exact absurd rfl hstar
  · rintro ⟨any, hany, path, hpath, rfl⟩
    refine .component h (fun hslash => ?_) hpath
    rcases hany slash hslash with hfalse | hne
    · exact Bool.noConfusion hfalse
    · exact hne rfl

theorem globLanguage_byte {a : UInt8} (h : a ≠ star) (pattern : Bytes) :
    globLanguage (a :: pattern) = {[a]} * globLanguage pattern := by
  ext path
  constructor
  · intro hmatch
    cases hmatch with
    | recursive => exact absurd rfl h
    | component => exact absurd rfl h
    | byte _ hrest => exact ⟨[a], rfl, _, hrest, rfl⟩
  · rintro ⟨word, hword, path, hpath, rfl⟩
    rw [Set.mem_singleton_iff.mp hword]
    exact .byte h hpath

/-! ### Rows -/

section Steps

variable {L : Language UInt8}

theorem isRow_byteRow (a : UInt8) {path : Bytes} {row : List Bool} (h : IsRow L [] path row) :
    IsRow (L * {[a]}) [] path (byteRow a path row) := by
  have hlater : ∀ (done path : Bytes) (row : List Bool) (first : Bool), IsRow L done path row →
      (first = true ↔ done ∈ L * {[a]}) →
      IsRow (L * {[a]}) done path
        (first :: List.zipWith (fun previous b => previous && a = b) row path) := by
    intro done path
    induction path generalizing done with
    | nil =>
      rintro _ first ⟨last, rfl, -⟩ hfirst
      exact ⟨first, rfl, hfirst⟩
    | cons b path ih =>
      rintro _ first ⟨previous, rest, rfl, hprevious, hrest⟩ hfirst
      refine ⟨first, _, rfl, hfirst, ih (done ++ [b]) rest (previous && a = b) hrest ?_⟩
      rw [concat_mem_mul_singleton, Bool.and_eq_true, hprevious, decide_eq_true_iff]
  exact hlater [] path row false h (iff_of_false (by simp) (nil_not_mem_mul_singleton a))

theorem isRow_starRow (recursive : Bool) {path : Bytes} {row : List Bool}
    (h : IsRow L [] path row) :
    IsRow (L * wildcard recursive) [] path (starRow recursive path row) := by
  have hlater : ∀ (done path : Bytes) (first : Bool) (rest : List Bool) (last : Bool),
      IsRow L done path (first :: rest) → (last = true ↔ done ∈ L * wildcard recursive) →
      IsRow (L * wildcard recursive) done path
        (last :: wildcardRow recursive last rest path) := by
    intro done path
    induction path generalizing done with
    | nil =>
      rintro first rest last ⟨_, heq, -⟩ hlast
      obtain ⟨rfl, rfl⟩ := List.cons.inj heq
      exact ⟨last, rfl, hlast⟩
    | cons b path ih =>
      rintro first rest last ⟨_, _, heq, -, hrest⟩ hlast
      obtain ⟨rfl, rfl⟩ := List.cons.inj heq
      obtain ⟨previous, others, rfl, hprevious⟩ := hrest.exists_cons
      refine ⟨last, _, rfl, hlast, ih (done ++ [b]) previous others _ hrest ?_⟩
      -- a value is that of the row above, or goes on from the left
      rw [wildcard, concat_mem_mul_letters, ← wildcard, ← hprevious, ← hlast]
      simp
  obtain ⟨first, rest, rfl, hfirst⟩ := h.exists_cons
  exact hlater [] path first rest first h (hfirst.trans nil_mem_mul_letters.symm)

end Steps

/-- The last row is that of the language so far, with the rest of the pattern. -/
theorem isRow_globRows {path pattern : Bytes} {L : Language UInt8} {row : List Bool}
    (h : IsRow L [] path row) :
    IsRow (L * globLanguage pattern) [] path (globRows path pattern row) := by
  induction pattern, row using globRows.induct path generalizing L with
  | case1 row =>
    rw [globLanguage_nil, mul_one, globRows]
    exact h
  | case2 row =>
    have hlast : ([] : Bytes).head? ≠ some star := by simp
    rw [globLanguage_component hlast, globLanguage_nil, mul_one, globRows, if_pos rfl]
    exact isRow_starRow false h
  | case3 a row hstar =>
    rw [globLanguage_byte hstar, globLanguage_nil, mul_one, globRows, if_neg hstar]
    exact isRow_byteRow a h
  | case4 a b rest row hstars ih =>
    obtain ⟨rfl, rfl⟩ := hstars
    rw [globLanguage_recursive, ← mul_assoc, globRows, if_pos ⟨rfl, rfl⟩]
    exact ih (isRow_starRow true h)
  | case5 b rest row hstars ih =>
    have hhead : (b :: rest).head? ≠ some star := fun hb => hstars ⟨rfl, Option.some.inj hb⟩
    rw [globLanguage_component hhead, ← mul_assoc, globRows, if_neg hstars, if_pos rfl]
    exact ih (isRow_starRow false h)
  | case6 a b rest row hstars hstar ih =>
    rw [globLanguage_byte hstar, ← mul_assoc, globRows, if_neg hstars, if_neg hstar]
    exact ih (isRow_byteRow a h)

/-- **Globs.**  The matcher accepts a path exactly if the path splits along the pattern. -/
theorem glob_exact (pattern path : Bytes) :
    globMatches pattern path = true ↔ GlobMatches pattern path := by
  have hrow : IsRow (1 * globLanguage pattern) [] path
      (globRows path pattern (true :: List.replicate path.length false)) :=
    isRow_globRows (isRow_one path)
  rw [one_mul] at hrow
  exact hrow.getLastD

/-- Three stars are a pair and a single one. -/
example : globMatches (utf8 "***.log") (utf8 "nested/root.log") = true := by decide

end Scan

end Rewind
