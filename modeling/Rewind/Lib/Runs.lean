/-
Runs of a machine that takes one input after the other.

A machine is its step function `step : σ → α → σ`; a run is a list of inputs.
Four rules carry the results about runs:

* `run_invariant` — what each step keeps, every run keeps;
* `Meets.mono` — a condition on the steps of a run implies another one, given
  an invariant that the first condition keeps;
* `run_rel` — a preorder that holds across each step holds across a whole run;
* `run_notes_invariant` — the same for a state and what has been noted on the way to it.

`Leads` says that a machine comes to a state whatever its inputs are.
-/
import Mathlib.Data.List.Basic
import Mathlib.Order.Defs.PartialOrder

namespace Machine

variable {σ α : Type*} {step : σ → α → σ}

/-- The state after the inputs `as`, taken from the left. -/
def run (step : σ → α → σ) : σ → List α → σ
  | s, [] => s
  | s, a :: as => run step (step s a) as

@[simp] theorem run_nil (s : σ) : run step s [] = s := rfl

@[simp] theorem run_cons (s : σ) (a : α) (as : List α) :
    run step s (a :: as) = run step (step s a) as := rfl

theorem run_append (s : σ) (as bs : List α) :
    run step s (as ++ bs) = run step (run step s as) bs := by
  induction as generalizing s with
  | nil => rfl
  | cons a as ih => exact ih (step s a)

/-- Inputs that no state tells apart make the same run. -/
theorem run_congr {as bs : List α} (h : List.Forall₂ (fun a b => ∀ s, step s a = step s b) as bs)
    (s : σ) : run step s as = run step s bs := by
  induction h generalizing s with
  | nil => rfl
  | cons hab _ ih =>
    rw [run_cons, run_cons, hab s]
    exact ih _

/-- Every input of the run meets `ok` at the state it is taken in. -/
def Meets (step : σ → α → σ) (ok : σ → α → Prop) : σ → List α → Prop
  | _, [] => True
  | s, a :: as => ok s a ∧ Meets step ok (step s a) as

@[simp] theorem meets_nil {ok : σ → α → Prop} (s : σ) : Meets step ok s [] := trivial

@[simp] theorem meets_cons {ok : σ → α → Prop} (s : σ) (a : α) (as : List α) :
    Meets step ok s (a :: as) ↔ ok s a ∧ Meets step ok (step s a) as := Iff.rfl

theorem meets_append {ok : σ → α → Prop} {s : σ} {as bs : List α} :
    Meets step ok s (as ++ bs) ↔ Meets step ok s as ∧ Meets step ok (run step s as) bs := by
  induction as generalizing s with
  | nil => exact ⟨fun h => ⟨trivial, h⟩, fun h => h.2⟩
  | cons a as ih =>
    rw [List.cons_append, meets_cons, meets_cons, run_cons, ih, and_assoc]

instance decidableMeets {ok : σ → α → Prop} [∀ s a, Decidable (ok s a)] :
    ∀ s as, Decidable (Meets step ok s as)
  | _, [] => .isTrue trivial
  | s, a :: as =>
    have : Decidable (Meets step ok (step s a) as) := decidableMeets (step s a) as
    inferInstanceAs (Decidable (ok s a ∧ Meets step ok (step s a) as))

/-- What each step that meets `ok` keeps, every run whose steps meet `ok` keeps. -/
theorem run_invariant_of_meets {ok : σ → α → Prop} {I : σ → Prop}
    (hstep : ∀ s a, I s → ok s a → I (step s a)) {s : σ} {as : List α}
    (hs : I s) (hok : Meets step ok s as) : I (run step s as) := by
  induction as generalizing s with
  | nil => exact hs
  | cons a as ih => exact ih (hstep s a hs hok.1) hok.2

/-- The same in every state that a run of legal inputs reaches. -/
theorem prefix_invariant_of_meets {ok : σ → α → Prop} {L : α → Prop} {I : σ → Prop}
    (hstep : ∀ s a, L a → I s → ok s a → I (step s a)) {s : σ} {as : List α}
    (hlegal : ∀ a ∈ as, L a) (hs : I s) (hok : Meets step ok s as) :
    ∀ pre, pre <+: as → I (run step s pre) := by
  induction as generalizing s with
  | nil =>
    intro pre hpre
    rw [List.prefix_nil.mp hpre]
    exact hs
  | cons a as ih =>
    obtain ⟨ha, hrest⟩ := List.forall_mem_cons.mp hlegal
    intro pre hpre
    rcases pre with _ | ⟨b, pre⟩
    · exact hs
    · obtain ⟨rfl, htail⟩ := List.cons_prefix_cons.mp hpre
      exact ih hrest (hstep s b ha hs hok.1) hok.2 pre htail

/-- What each step keeps, every run keeps. -/
theorem run_invariant {I : σ → Prop} (hstep : ∀ s a, I s → I (step s a))
    {s : σ} (hs : I s) (as : List α) : I (run step s as) := by
  induction as generalizing s with
  | nil => exact hs
  | cons a as ih => exact ih (hstep s a hs)

/-- What each legal step keeps, every run of legal inputs keeps. -/
theorem run_invariant_of_legal {L : α → Prop} {I : σ → Prop}
    (hstep : ∀ s a, L a → I s → I (step s a)) {s : σ} {as : List α}
    (hlegal : ∀ a ∈ as, L a) (hs : I s) : I (run step s as) := by
  induction as generalizing s with
  | nil => exact hs
  | cons a as ih =>
    obtain ⟨ha, hrest⟩ := List.forall_mem_cons.mp hlegal
    exact ih hrest (hstep s a ha hs)

theorem Meets.imp {ok law : σ → α → Prop} (h : ∀ s a, ok s a → law s a) {s : σ} {as : List α}
    (hok : Meets step ok s as) : Meets step law s as := by
  induction as generalizing s with
  | nil => trivial
  | cons a as ih => exact ⟨h s a hok.1, ih hok.2⟩

/-- Where each step that starts in `P` ends in `P` exactly if it meets `ok`, a run stays in `P`
exactly if its steps meet `ok`. -/
theorem forall_prefix_iff_meets {ok : σ → α → Prop} {L : α → Prop} {I P : σ → Prop}
    (hinv : ∀ s a, I s → P s → I (step s a))
    (hiff : ∀ s a, L a → I s → P s → (P (step s a) ↔ ok s a)) {s : σ} {as : List α}
    (hlegal : ∀ a ∈ as, L a) (hs : I s) (hP : P s) :
    (∀ pre, pre <+: as → P (run step s pre)) ↔ Meets step ok s as := by
  induction as generalizing s with
  | nil =>
    refine ⟨fun _ => trivial, fun _ pre hpre => ?_⟩
    rw [List.prefix_nil.mp hpre]
    exact hP
  | cons a as ih =>
    obtain ⟨ha, hrest⟩ := List.forall_mem_cons.mp hlegal
    have hstep := hiff s a ha hs hP
    constructor
    · intro hall
      have hnext : P (step s a) := hall [a] (List.cons_prefix_cons.mpr ⟨rfl, List.nil_prefix⟩)
      refine ⟨hstep.mp hnext, (ih hrest (hinv s a hs hP) hnext).mp fun pre hpre => ?_⟩
      exact hall (a :: pre) (List.cons_prefix_cons.mpr ⟨rfl, hpre⟩)
    · rintro ⟨hok, hmeets⟩ pre hpre
      have hnext := hstep.mpr hok
      rcases pre with _ | ⟨b, pre⟩
      · exact hP
      · obtain ⟨rfl, htail⟩ := List.cons_prefix_cons.mp hpre
        exact (ih hrest (hinv s b hs hP) hnext).mpr hmeets pre htail

/-- A preorder across each step is one across every run. -/
theorem run_rel {R : σ → σ → Prop} (hrefl : ∀ s, R s s)
    (htrans : ∀ s t u, R s t → R t u → R s u) (hstep : ∀ s a, R s (step s a))
    (s : σ) (as : List α) : R s (run step s as) := by
  induction as generalizing s with
  | nil => exact hrefl s
  | cons a as ih => exact htrans _ _ _ (hstep s a) (ih (step s a))

/-! ### Notes of a run -/

/-- What is noted at the steps of a run, each in the state it starts from. -/
def notes {β : Type*} (step : σ → α → σ) (note : σ → α → List β) : σ → List α → List β
  | _, [] => []
  | s, a :: as => note s a ++ notes step note (step s a) as

/-- What each step keeps of a state and of the notes up to it, every run keeps. -/
theorem run_notes_invariant {β : Type*} {note : σ → α → List β} {I : σ → List β → Prop}
    {L : α → Prop} (hstep : ∀ s bs a, L a → I s bs → I (step s a) (bs ++ note s a))
    {s : σ} {bs : List β} {as : List α} (hlegal : ∀ a ∈ as, L a) (hs : I s bs) :
    I (run step s as) (bs ++ notes step note s as) := by
  induction as generalizing s bs with
  | nil => exact (List.append_nil bs).symm ▸ hs
  | cons a as ih =>
    obtain ⟨ha, hrest⟩ := List.forall_mem_cons.mp hlegal
    rw [notes, ← List.append_assoc]
    exact ih hrest (hstep s bs a ha hs)

/-! ### States that a machine comes to -/

/-- Whatever legal inputs are taken, a state in `P` comes about. -/
inductive Leads (step : σ → α → σ) (L : α → Prop) (P : σ → Prop) : σ → Prop where
  | here {s : σ} (h : P s) : Leads step L P s
  | next {s : σ} (h : ∀ a, L a → Leads step L P (step s a)) : Leads step L P s

/-- Along every sequence of legal inputs. -/
theorem Leads.exists_run {L : α → Prop} {P : σ → Prop} {s : σ} (h : Leads step L P s)
    (inputs : ℕ → α) (hlegal : ∀ i, L (inputs i)) :
    ∃ n, P (run step s ((List.range n).map inputs)) := by
  induction h generalizing inputs with
  | here h => exact ⟨0, h⟩
  | next _ ih =>
    obtain ⟨n, hn⟩ := ih (inputs 0) (hlegal 0) (fun i => inputs (i + 1)) fun i => hlegal (i + 1)
    refine ⟨n + 1, ?_⟩
    rw [List.range_succ_eq_map, List.map_cons, run_cons, List.map_map]
    exact hn

end Machine
