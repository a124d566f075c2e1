/-
Append-only journals of numbered, clocked entries.

`Continues n t batch` says that `batch` can follow a journal whose last entry is
numbered `n` and carries the clock reading `t`: its entries are numbered
`n + 1`, `n + 2`, … and no clock reading falls below the one before it.  A journal
is well formed when it continues the empty one.

* `continues_append` — a batch is accepted in one piece exactly when it is in two;
* `Journal.extend` — the extension of a journal by a batch that continues it.
-/
import Mathlib.Data.List.Basic
import Mathlib.Data.List.Nodup

variable {α : Type} (seq clock : α → Nat)

/-- `batch` can follow an entry numbered `n` with the clock reading `t`. -/
def Continues : Nat → Nat → List α → Prop
  | _, _, [] => True
  | n, t, entry :: rest => seq entry = n + 1 ∧ t ≤ clock entry
      ∧ Continues (n + 1) (clock entry) rest

/-- The clock reading after `entries`, started at `t`. -/
def clockAfter (t : Nat) (entries : List α) : Nat := (entries.getLast?.map clock).getD t

@[simp] theorem continues_nil (n t : Nat) : Continues seq clock n t [] := trivial

@[simp] theorem continues_cons (n t : Nat) (entry : α) (rest : List α) :
    Continues seq clock n t (entry :: rest) ↔
      seq entry = n + 1 ∧ t ≤ clock entry ∧ Continues seq clock (n + 1) (clock entry) rest :=
  Iff.rfl

@[simp] theorem clockAfter_nil (t : Nat) : clockAfter clock t [] = t := rfl

theorem clockAfter_cons (t : Nat) (entry : α) (rest : List α) :
    clockAfter clock t (entry :: rest) = clockAfter clock (clock entry) rest := by
  unfold clockAfter
  rw [List.getLast?_cons]
  rcases rest.getLast? with _ | last <;> rfl

@[simp] theorem clockAfter_concat (t : Nat) (entries : List α) (entry : α) :
    clockAfter clock t (entries ++ [entry]) = clock entry := by
  simp [clockAfter]

instance decidableContinues : ∀ (n t : Nat) (batch : List α),
    Decidable (Continues seq clock n t batch)
  | _, _, [] => .isTrue trivial
  | n, t, entry :: rest =>
    have := decidableContinues (n + 1) (clock entry) rest
    inferInstanceAs (Decidable (seq entry = n + 1 ∧ t ≤ clock entry ∧ _))

variable {seq clock}

theorem clockAfter_append (t : Nat) (xs ys : List α) :
    clockAfter clock t (xs ++ ys) = clockAfter clock (clockAfter clock t xs) ys := by
  induction xs generalizing t with
  | nil => rfl
  | cons x xs ih => rw [List.cons_append, clockAfter_cons, clockAfter_cons, ih]

theorem continues_append (n t : Nat) (xs ys : List α) :
    Continues seq clock n t (xs ++ ys) ↔
      Continues seq clock n t xs
        ∧ Continues seq clock (n + xs.length) (clockAfter clock t xs) ys := by
  induction xs generalizing n t with
  | nil => simp
  | cons x xs ih =>
    have hlength : n + (x :: xs).length = n + 1 + xs.length := by
      rw [List.length_cons]
      omega
    rw [List.cons_append, continues_cons, continues_cons, ih, clockAfter_cons, hlength]
    simp only [and_assoc]

theorem continues_concat (n t : Nat) (xs : List α) (x : α) :
    Continues seq clock n t (xs ++ [x]) ↔
      Continues seq clock n t xs ∧ seq x = n + xs.length + 1 ∧ clockAfter clock t xs ≤ clock x := by
  rw [continues_append]
  simp

theorem Continues.map_seq {n t : Nat} {batch : List α} (h : Continues seq clock n t batch) :
    batch.map seq = List.range' (n + 1) batch.length := by
  induction batch generalizing n t with
  | nil => rfl
  | cons entry rest ih =>
    rw [List.map_cons, List.length_cons, List.range'_succ, h.1, ih h.2.2]

theorem Continues.le_clock {n t : Nat} {batch : List α} (h : Continues seq clock n t batch)
    {entry : α} (hentry : entry ∈ batch) : t ≤ clock entry := by
  induction batch generalizing n t with
  | nil => exact absurd hentry List.not_mem_nil
  | cons first rest ih =>
    rcases List.mem_cons.mp hentry with rfl | hrest
    · exact h.2.1
    · exact Nat.le_trans h.2.1 (ih h.2.2 hrest)

theorem Continues.pairwise_clock {n t : Nat} {batch : List α} (h : Continues seq clock n t batch) :
    batch.Pairwise fun x y => clock x ≤ clock y := by
  induction batch generalizing n t with
  | nil => exact List.Pairwise.nil
  | cons entry rest ih =>
    rw [List.pairwise_cons]
    exact ⟨fun y hy => h.2.2.le_clock hy, ih h.2.2⟩

theorem Continues.pairwise_seq {n t : Nat} {batch : List α} (h : Continues seq clock n t batch) :
    batch.Pairwise fun x y => seq x < seq y := by
  have hrange : (batch.map seq).Pairwise (· < ·) := by
    rw [h.map_seq]
    exact List.pairwise_lt_range'
  exact List.pairwise_map.mp hrange

/-- The numbers of a batch come after the one it continues. -/
theorem Continues.lt_seq {n t : Nat} {batch : List α} (h : Continues seq clock n t batch)
    {entry : α} (hentry : entry ∈ batch) : n < seq entry := by
  have hmem : seq entry ∈ batch.map seq := List.mem_map_of_mem hentry
  rw [h.map_seq, List.mem_range'_1] at hmem
  omega

/-- Later in the numbering means no earlier on the clock. -/
theorem Continues.clock_mono {n t : Nat} {batch : List α} (h : Continues seq clock n t batch)
    {x y : α} (hx : x ∈ batch) (hy : y ∈ batch) (hle : seq x ≤ seq y) : clock x ≤ clock y := by
  have hforward : batch.Pairwise fun x y => seq x ≤ seq y → clock x ≤ clock y := by
    refine h.pairwise_clock.imp ?_
    intro x y hclock _
    exact hclock
  have hbackward : batch.Pairwise fun x y => seq y ≤ seq x → clock y ≤ clock x := by
    refine h.pairwise_seq.imp ?_
    intro x y hseq hback
    exact absurd hseq (Nat.not_lt.mpr hback)
  exact List.Pairwise.forall_of_forall_of_flip (fun _ _ _ => Nat.le_refl _) hforward hbackward
    hx hy hle

/-- The number of the last entry counts the batch. -/
theorem Continues.seq_getLast {n t : Nat} {batch : List α} (h : Continues seq clock n t batch) :
    (batch.getLast?.map seq).getD n = n + batch.length := by
  rcases List.eq_nil_or_concat batch with rfl | ⟨init, last, rfl⟩
  · rfl
  · rw [List.concat_eq_append, continues_concat] at h
    rw [List.concat_eq_append, List.getLast?_append, List.getLast?_singleton, List.length_append]
    simpa [Nat.add_assoc] using h.2.1

/-! ### Journals -/

/-- A journal: entries that carry the proof of their numbering. -/
structure Journal (seq clock : α → Nat) where
  entries : List α
  wellFormed : Continues seq clock 0 0 entries

namespace Journal

/-- The number of the last entry. -/
def last (j : Journal seq clock) : Nat := j.entries.length

/-- The clock reading of the last entry. -/
def time (j : Journal seq clock) : Nat := clockAfter clock 0 j.entries

/-- The journal with nothing in it. -/
def empty : Journal seq clock := ⟨[], trivial⟩

/-- The journal followed by a batch that continues it. -/
def extend (j : Journal seq clock) (batch : List α)
    (h : Continues seq clock j.last j.time batch) : Journal seq clock where
  entries := j.entries ++ batch
  wellFormed := by
    rw [continues_append, Nat.zero_add]
    exact ⟨j.wellFormed, h⟩

end Journal
