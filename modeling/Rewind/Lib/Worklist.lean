/-
The search of a graph with a queue.

A node is taken from the front of the queue; if it is new it is selected and its successors go to
the end of the queue.  The queue may hold a node more than once.

* `Worklist.step`, `Worklist.search` — one turn, and the search within a number of turns;
* `Worklist.Covers` — what holds after every turn;
* `Worklist.remaining_step` — each turn leaves less to do;
* `Worklist.search_of_closed` — the search ends with the nodes that can be reached.
-/
import Rewind.Lib.SortedMap
import Mathlib.Algebra.Order.BigOperators.Group.List
import Mathlib.Algebra.Order.Ring.Nat
import Mathlib.Logic.Relation

/-- A search: the nodes to visit, and those that were visited. -/
structure Worklist (α : Type) [LinearOrder α] where
  queue : List α
  selected : SortedSet α

namespace Worklist

variable {α : Type} [LinearOrder α] (next : α → List α)

/-- One turn of the loop, or `none` at its end. -/
def step (w : Worklist α) : Option (Worklist α) :=
  match w.queue with
  | [] => none
  | a :: rest =>
    if a ∈ w.selected.toList then some ⟨rest, w.selected⟩
    else some ⟨rest ++ next a, w.selected.add a⟩

/-- What is selected at the end of the loop, if it ends within so many turns. -/
def search : Nat → Worklist α → Option (SortedSet α)
  | 0, w => if w.queue = [] then some w.selected else none
  | fuel + 1, w =>
    match w.step next with
    | none => some w.selected
    | some w' => search fuel w'

/-- The nodes that lead on from a node. -/
def Reaches : α → α → Prop := Relation.ReflTransGen fun a b => b ∈ next a

/-- The search of what `root` reaches: nothing else is found, and every successor of a selected
node is selected or queued. -/
structure Covers (root : α) (w : Worklist α) : Prop where
  sound : ∀ a, a ∈ w.selected.toList ∨ a ∈ w.queue → Reaches next root a
  start : root ∈ w.selected.toList ∨ root ∈ w.queue
  closed : ∀ a ∈ w.selected.toList, ∀ b ∈ next a, b ∈ w.selected.toList ∨ b ∈ w.queue

/-- How much there is to do: the queue, and each node of `nodes` that is not selected with its
successors. -/
def remaining (nodes : List α) (w : Worklist α) : Nat :=
  ((nodes.filter fun a => a ∉ w.selected.toList).map fun a => 1 + (next a).length).sum
    + w.queue.length

variable {next}

/-- A turn takes the first node off the queue. -/
theorem step_cases {w w' : Worklist α} (h : w.step next = some w') :
    ∃ a rest, w.queue = a :: rest
      ∧ ((a ∈ w.selected.toList ∧ w' = ⟨rest, w.selected⟩)
        ∨ (a ∉ w.selected.toList ∧ w' = ⟨rest ++ next a, w.selected.add a⟩)) := by
  obtain ⟨queue, selected⟩ := w
  cases queue with
  | nil => exact absurd h (by simp [step])
  | cons a rest =>
    refine ⟨a, rest, rfl, ?_⟩
    by_cases ha : a ∈ selected.toList
    · simp only [step, ha, if_true, Option.some.injEq] at h
      exact Or.inl ⟨ha, h.symm⟩
    · simp only [step, ha, if_false, Option.some.injEq] at h
      exact Or.inr ⟨ha, h.symm⟩

theorem queue_of_step_none {w : Worklist α} (h : w.step next = none) : w.queue = [] := by
  obtain ⟨queue, selected⟩ := w
  cases queue with
  | nil => rfl
  | cons a rest =>
    simp only [step] at h
    split at h
    · exact absurd h (by simp)
    · exact absurd h (by simp)

theorem covers_start (root : α) : Covers next root ⟨[root], SortedMap.empty⟩ where
  sound a := by
    rintro (ha | ha)
    · exact absurd ha List.not_mem_nil
    · obtain rfl := List.mem_singleton.mp ha
      exact Relation.ReflTransGen.refl
  start := Or.inr List.mem_cons_self
  closed a ha := absurd ha List.not_mem_nil

/-- A turn loses nothing and finds what can be reached. -/
theorem Covers.step {root : α} {w w' : Worklist α} (h : Covers next root w)
    (hstep : w.step next = some w') : Covers next root w' := by
  obtain ⟨a, rest, hqueue, ⟨ha, rfl⟩ | ⟨ha, rfl⟩⟩ := step_cases hstep
  · -- the node was selected before
    have hkept : ∀ b, b ∈ w.selected.toList ∨ b ∈ w.queue → b ∈ w.selected.toList ∨ b ∈ rest := by
      rintro b (hb | hb)
      · exact Or.inl hb
      · rw [hqueue] at hb
        rcases List.mem_cons.mp hb with rfl | hlater
        · exact Or.inl ha
        · exact Or.inr hlater
    refine ⟨fun b hb => h.sound b ?_, hkept root h.start, fun b hb c hc => ?_⟩
    · rw [hqueue]
      exact hb.imp id (List.mem_cons_of_mem a)
    · exact hkept c (h.closed b hb c hc)
  · have hkept : ∀ b, b ∈ w.selected.toList ∨ b ∈ w.queue →
        b ∈ (w.selected.add a).toList ∨ b ∈ rest ++ next a := by
      rintro b (hb | hb)
      · exact Or.inl (SortedSet.mem_add.mpr (Or.inr hb))
      · rw [hqueue] at hb
        rcases List.mem_cons.mp hb with rfl | hlater
        · exact Or.inl (SortedSet.mem_add.mpr (Or.inl rfl))
        · exact Or.inr (List.mem_append_left _ hlater)
    have hreached : Reaches next root a := by
      refine h.sound a (Or.inr ?_)
      rw [hqueue]
      exact List.mem_cons_self
    refine ⟨?_, hkept root h.start, ?_⟩
    · rintro b (hb | hb)
      · rcases SortedSet.mem_add.mp hb with rfl | hbefore
        · exact hreached
        · exact h.sound b (Or.inl hbefore)
      · rcases List.mem_append.mp hb with hlater | hnew
        · refine h.sound b (Or.inr ?_)
          rw [hqueue]
          exact List.mem_cons_of_mem a hlater
        · exact hreached.tail hnew
    · intro b hb c hc
      rcases SortedSet.mem_add.mp hb with rfl | hbefore
      · exact Or.inr (List.mem_append_right _ hc)
      · exact hkept c (h.closed b hbefore c hc)

/-- When the queue is empty, the selected nodes are those that can be reached. -/
theorem Covers.mem_iff {root : α} {w : Worklist α} (h : Covers next root w) (hend : w.queue = [])
    (a : α) : a ∈ w.selected.toList ↔ Reaches next root a := by
  have hselected : ∀ b, b ∈ w.selected.toList ∨ b ∈ w.queue → b ∈ w.selected.toList := by
    rintro b (hb | hb)
    · exact hb
    · rw [hend] at hb
      exact absurd hb List.not_mem_nil
  constructor
  · exact fun ha => h.sound a (Or.inl ha)
  · intro hreach
    induction hreach with
    | refl => exact hselected root h.start
    | tail _ hedge ih => exact hselected _ (h.closed _ ih _ hedge)

/-! ### Termination -/

/-- Taking one member out of a sum. -/
theorem sum_filter_ne_add_le {nodes : List α} {p : α → Bool} {f : α → Nat} {a : α}
    (ha : a ∈ nodes) (hp : p a = true) :
    ((nodes.filter fun b => p b && decide (b ≠ a)).map f).sum + f a
      ≤ ((nodes.filter p).map f).sum := by
  induction nodes with
  | nil => exact absurd ha List.not_mem_nil
  | cons b rest ih =>
    by_cases hb : b = a
    · subst hb
      have hrest : ((rest.filter fun c => p c && decide (c ≠ b)).map f).sum
          ≤ ((rest.filter p).map f).sum := by
        refine List.Sublist.sum_le_sum (List.Sublist.map f ?_) fun _ _ => Nat.zero_le _
        exact List.monotone_filter_right rest fun c hc => (Bool.and_eq_true _ _ ▸ hc).1
      rw [List.filter_cons_of_neg (by simp), List.filter_cons_of_pos hp, List.map_cons,
        List.sum_cons]
      omega
    · have hin : a ∈ rest := (List.mem_cons.mp ha).resolve_left (Ne.symm hb)
      have hih := ih hin
      by_cases hpb : p b = true
      · rw [List.filter_cons_of_pos (by simp [hpb, hb]), List.filter_cons_of_pos hpb,
          List.map_cons, List.sum_cons, List.map_cons, List.sum_cons]
        omega
      · rw [List.filter_cons_of_neg (by simp [hpb]), List.filter_cons_of_neg hpb]
        exact hih

/-- Every turn leaves less to do. -/
theorem remaining_step {nodes : List α} {w w' : Worklist α} (hqueue : ∀ a ∈ w.queue, a ∈ nodes)
    (h : w.step next = some w') : remaining next nodes w' < remaining next nodes w := by
  obtain ⟨a, rest, hfirst, ⟨-, rfl⟩ | ⟨ha, rfl⟩⟩ := step_cases h
  · have hshorter : rest.length < w.queue.length := by
      rw [hfirst, List.length_cons]
      omega
    exact Nat.add_lt_add_left hshorter _
  · have hnode : a ∈ nodes := hqueue a (hfirst ▸ List.mem_cons_self)
    have hsame : (nodes.filter fun b => b ∉ (w.selected.add a).toList)
        = nodes.filter fun b => decide (b ∉ w.selected.toList) && decide (b ≠ a) := by
      refine List.filter_congr fun b _ => ?_
      rw [← Bool.decide_and, decide_eq_decide, SortedSet.mem_add, not_or, and_comm]
    have hsum := sum_filter_ne_add_le (p := fun b => decide (b ∉ w.selected.toList))
      (f := fun b => 1 + (next b).length) hnode (decide_eq_true ha)
    rw [remaining, remaining, hsame, hfirst, List.length_append, List.length_cons]
    omega

/-- The search of a graph whose nodes are all in a list ends, and it ends with the nodes that the
root reaches. -/
theorem search_of_closed {nodes : List α} (hnodes : ∀ a ∈ nodes, ∀ b ∈ next a, b ∈ nodes)
    {root : α} {fuel : Nat} {w : Worklist α} (hqueue : ∀ a ∈ w.queue, a ∈ nodes)
    (hcovers : Covers next root w) (hfuel : remaining next nodes w ≤ fuel) :
    ∃ selected, search next fuel w = some selected
      ∧ ∀ a, a ∈ selected.toList ↔ Reaches next root a := by
  induction fuel generalizing w with
  | zero =>
    have hend : w.queue = [] := by
      rw [remaining] at hfuel
      exact List.length_eq_zero_iff.mp (by omega)
    exact ⟨w.selected, by rw [search, if_pos hend], hcovers.mem_iff hend⟩
  | succ fuel ih =>
    cases hstep : w.step next with
    | none =>
      refine ⟨w.selected, ?_, hcovers.mem_iff (queue_of_step_none hstep)⟩
      rw [search, hstep]
    | some w' =>
      have hless := remaining_step hqueue hstep
      have hqueue' : ∀ a ∈ w'.queue, a ∈ nodes := by
        obtain ⟨a, rest, hfirst, ⟨-, rfl⟩ | ⟨-, rfl⟩⟩ := step_cases hstep
        · exact fun b hb => hqueue b (hfirst ▸ List.mem_cons_of_mem a hb)
        · intro b hb
          rcases List.mem_append.mp hb with hlater | hnew
          · exact hqueue b (hfirst ▸ List.mem_cons_of_mem a hlater)
          · exact hnodes a (hqueue a (hfirst ▸ List.mem_cons_self)) b hnew
      obtain ⟨selected, hsearch, hmem⟩ := ih hqueue' (hcovers.step hstep) (by omega)
      refine ⟨selected, ?_, hmem⟩
      rw [search, hstep]
      exact hsearch

end Worklist
