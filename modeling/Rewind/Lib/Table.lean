/-
Tables of rows.

A table is the list of its rows in the order they were inserted.

* `Table.find` — the row with a given key; `find_update` and `find_append` say
  what an update and an insertion do to it;
* `Table.maxBy` — `ORDER BY m DESC LIMIT 1`;
* `insert_nodup` — an insertion under a fresh key keeps the keys unique.
-/
import Mathlib.Data.List.Nodup

namespace Table

variable {ρ κ : Type}

section Keys

variable [DecidableEq κ] (key : ρ → κ)

/-- The row whose key is `k`. -/
def find (rows : List ρ) (k : κ) : Option ρ := rows.find? fun row => decide (key row = k)

/-- Every row that `p` selects is replaced by `f`. -/
def update (p : ρ → Bool) (f : ρ → ρ) (rows : List ρ) : List ρ :=
  rows.map fun row => if p row then f row else row

@[simp] theorem find_nil (k : κ) : find key [] k = none := rfl

theorem find_cons (row : ρ) (rows : List ρ) (k : κ) :
    find key (row :: rows) k = if key row = k then some row else find key rows k := by
  by_cases h : key row = k
  · simp [find, h]
  · simp [find, h]

theorem find_append (rows rows' : List ρ) (k : κ) :
    find key (rows ++ rows') k = (find key rows k).or (find key rows' k) :=
  List.find?_append

theorem find_some_key {rows : List ρ} {k : κ} {row : ρ} (h : find key rows k = some row) :
    key row = k := by
  have hdec := List.find?_some h
  exact of_decide_eq_true hdec

theorem mem_of_find {rows : List ρ} {k : κ} {row : ρ} (h : find key rows k = some row) :
    row ∈ rows := List.mem_of_find?_eq_some h

theorem find_eq_none_iff {rows : List ρ} {k : κ} :
    find key rows k = none ↔ k ∉ rows.map key := by
  simp [find]

theorem find_isSome_iff {rows : List ρ} {k : κ} :
    (find key rows k).isSome ↔ k ∈ rows.map key := by
  rw [← Option.ne_none_iff_isSome, ne_eq, find_eq_none_iff, not_not]

/-- With unique keys, a row of the table is the row its key finds. -/
theorem find_of_mem {rows : List ρ} (hnodup : (rows.map key).Nodup) {row : ρ}
    (hrow : row ∈ rows) : find key rows (key row) = some row := by
  induction rows with
  | nil => exact absurd hrow List.not_mem_nil
  | cons first rest ih =>
    rw [List.map_cons, List.nodup_cons] at hnodup
    rw [find_cons]
    rcases List.mem_cons.mp hrow with rfl | hrest
    · rw [if_pos rfl]
    · have hne : key first ≠ key row := by
        intro heq
        exact hnodup.1 (heq ▸ List.mem_map_of_mem hrest)
      rw [if_neg hne]
      exact ih hnodup.2 hrest

/-- An update that keeps keys acts on the row a key finds. -/
theorem find_update {p : ρ → Bool} {f : ρ → ρ} (hkey : ∀ row, key (f row) = key row)
    (rows : List ρ) (k : κ) :
    find key (update p f rows) k = (find key rows k).map fun row =>
      if p row then f row else row := by
  induction rows with
  | nil => rfl
  | cons row rows ih =>
    have hsame : key (if p row then f row else row) = key row := by
      cases hp : p row
      · rfl
      · exact hkey row
    rw [update, List.map_cons, find_cons, find_cons, hsame]
    by_cases h : key row = k
    · rw [if_pos h, if_pos h]
      rfl
    · rw [if_neg h, if_neg h]
      exact ih

omit [DecidableEq κ] in
theorem map_key_update {p : ρ → Bool} {f : ρ → ρ} (hkey : ∀ row, key (f row) = key row)
    (rows : List ρ) : (update p f rows).map key = rows.map key := by
  rw [update, List.map_map]
  refine List.map_congr_left fun row _ => ?_
  show key (if p row then f row else row) = key row
  cases hp : p row
  · rfl
  · exact hkey row

/-- Two updates by the same `f` are one, where the second selects nothing the first changed. -/
theorem update_update {p q : ρ → Bool} {f : ρ → ρ} (rows : List ρ)
    (hq : ∀ row ∈ rows, p row = true → q (f row) = false) :
    update q f (update p f rows) = update (fun row => p row || q row) f rows := by
  rw [update, update, update, List.map_map]
  refine List.map_congr_left fun row hrow => ?_
  rw [Function.comp_apply]
  cases hp : p row
  · simp
  · simp [hq row hrow hp]

theorem update_congr {p q : ρ → Bool} {f g : ρ → ρ} {rows : List ρ}
    (h : ∀ row ∈ rows, p row = q row ∧ (p row = true → f row = g row)) :
    update p f rows = update q g rows := by
  refine List.map_congr_left fun row hrow => ?_
  obtain ⟨hpq, hfg⟩ := h row hrow
  rw [← hpq]
  cases hp : p row
  · rfl
  · exact hfg hp

omit [DecidableEq κ] in
theorem insert_nodup {rows : List ρ} {row : ρ} (hnodup : (rows.map key).Nodup)
    (hfresh : key row ∉ rows.map key) : ((rows ++ [row]).map key).Nodup := by
  rw [List.map_append, List.nodup_append]
  refine ⟨hnodup, by simp, ?_⟩
  intro k hk k' hk' heq
  rw [List.map_cons, List.map_nil, List.mem_singleton] at hk'
  exact hfresh (hk' ▸ heq ▸ hk)

end Keys

/-- Distinct rows of which no two are mapped alike are mapped to distinct values. -/
theorem nodup_filterMap {β : Type} {f : ρ → Option β} {l : List ρ} (hl : l.Nodup)
    (hf : ∀ a ∈ l, ∀ a' ∈ l, ∀ b, f a = some b → f a' = some b → a = a') :
    (l.filterMap f).Nodup := by
  induction l with
  | nil => exact List.nodup_nil
  | cons a rest ih =>
    obtain ⟨hnew, hrest⟩ := List.nodup_cons.mp hl
    have hih := ih hrest fun x hx y hy =>
      hf x (List.mem_cons_of_mem _ hx) y (List.mem_cons_of_mem _ hy)
    rw [List.filterMap_cons]
    rcases hfa : f a with _ | b
    · exact hih
    · refine List.nodup_cons.mpr ⟨fun hb => ?_, hih⟩
      obtain ⟨a', ha', hfa'⟩ := List.mem_filterMap.mp hb
      have heq := hf a List.mem_cons_self a' (List.mem_cons_of_mem _ ha') b hfa hfa'
      exact hnew (heq ▸ ha')

/-! ### The largest row -/

/-- The row with the largest `m`, the earliest of several. -/
def maxBy (m : ρ → Nat) : List ρ → Option ρ
  | [] => none
  | row :: rest =>
    match maxBy m rest with
    | none => some row
    | some best => if m row < m best then some best else some row

theorem maxBy_eq_none_iff {m : ρ → Nat} {rows : List ρ} : maxBy m rows = none ↔ rows = [] := by
  cases rows with
  | nil => simp [maxBy]
  | cons row rest =>
    rw [maxBy]
    rcases maxBy m rest with _ | best
    · simp
    · by_cases h : m row < m best <;> simp [h]

theorem maxBy_spec {m : ρ → Nat} {rows : List ρ} {best : ρ} (h : maxBy m rows = some best) :
    best ∈ rows ∧ ∀ row ∈ rows, m row ≤ m best := by
  induction rows generalizing best with
  | nil => exact absurd h (by simp [maxBy])
  | cons row rest ih =>
    rw [maxBy] at h
    rcases hrest : maxBy m rest with _ | best'
    · rw [hrest] at h
      obtain rfl := Option.some.inj h
      obtain rfl := maxBy_eq_none_iff.mp hrest
      simp
    · rw [hrest] at h
      obtain ⟨hmem, hmax⟩ := ih hrest
      dsimp only at h
      by_cases hlt : m row < m best'
      · rw [if_pos hlt] at h
        obtain rfl := Option.some.inj h
        refine ⟨List.mem_cons_of_mem _ hmem, ?_⟩
        intro r hr
        rcases List.mem_cons.mp hr with rfl | hr
        · exact Nat.le_of_lt hlt
        · exact hmax r hr
      · rw [if_neg hlt] at h
        obtain rfl := Option.some.inj h
        refine ⟨List.mem_cons_self, ?_⟩
        intro r hr
        rcases List.mem_cons.mp hr with rfl | hr
        · exact Nat.le_refl _
        · exact Nat.le_trans (hmax r hr) (Nat.not_lt.mp hlt)

/-- The largest `m`, or `0` where there is no row. -/
theorem maxBy_getD (m : ρ → Nat) (rows : List ρ) :
    ((maxBy m rows).map m).getD 0 = (rows.map m).foldr max 0 := by
  induction rows with
  | nil => rfl
  | cons row rest ih =>
    rw [List.map_cons, List.foldr_cons, ← ih, maxBy]
    rcases maxBy m rest with _ | best
    · exact (Nat.max_zero (m row)).symm
    · by_cases h : m row < m best
      · simp [h, Nat.max_eq_right (Nat.le_of_lt h)]
      · simp [h, Nat.max_eq_left (Nat.not_lt.mp h)]

/-- Where `m` climbs along the rows, the largest row is the last one. -/
theorem maxBy_eq_getLast? {m : ρ → Nat} {rows : List ρ}
    (hm : rows.Pairwise fun r r' => m r < m r') : maxBy m rows = rows.getLast? := by
  induction rows with
  | nil => rfl
  | cons row rest ih =>
    rw [List.pairwise_cons] at hm
    rw [maxBy, ih hm.2]
    rcases hlast : rest.getLast? with _ | last
    · obtain rfl := List.getLast?_eq_none_iff.mp hlast
      rfl
    · have hmem : last ∈ rest := List.mem_of_getLast? hlast
      dsimp only
      rw [if_pos (hm.1 last hmem), List.getLast?_cons, hlast]
      rfl

end Table
