/-
The processes under supervision.

The platform lists all processes with their parents, while processes come and go; the links need
not make a tree.  The supervised ones are found by a search from the child along the links to its
children.

* `ProcessTable` — a list of processes by their number;
* `supervisedProcesses` — the search;
* `supervisedProcesses_reachable` — it ends, with the processes that the child leads to.
-/
import Rewind.Capture.Input
import Rewind.Lib.Worklist

namespace Rewind

namespace Supervision

instance instLinearOrderUInt32 : LinearOrder UInt32 where
  le_refl a := UInt32.le_refl a
  le_trans _ _ _ hab hbc := UInt32.le_trans hab hbc
  le_antisymm _ _ hab hba := UInt32.le_antisymm hab hba
  le_total a b := UInt32.le_total a b
  lt_iff_le_not_ge a b := by
    rw [UInt32.le_iff_toNat_le, UInt32.le_iff_toNat_le, UInt32.lt_iff_toNat_lt]
    exact lt_iff_le_not_ge
  toDecidableLE := inferInstance
  toDecidableEq := inferInstance
  toDecidableLT := inferInstance

/-- All processes at an instant, each under its own number. -/
structure ProcessTable where
  processes : SortedMap UInt32 ProcessInfo
  keyed : ∀ e ∈ processes.entries, e.2.pid = e.1

namespace ProcessTable

def empty : ProcessTable := ⟨SortedMap.empty, fun _ h => absurd h List.not_mem_nil⟩

/-- `processes.insert(pid, info)`, as `all_processes` fills the table. -/
def insert (all : ProcessTable) (process : ProcessInfo) : ProcessTable where
  processes := all.processes.insert process.pid process
  keyed e he := by
    rcases SortedMap.mem_insert.mp he with rfl | ⟨hbefore, -⟩
    · rfl
    · exact all.keyed e hbefore

/-- `all.values()`. -/
def values (all : ProcessTable) : List ProcessInfo := all.processes.entries.map Prod.snd

/-- The body of the loop over the table. -/
def addChild (children : SortedMap UInt32 (List UInt32)) (process : ProcessInfo) :
    SortedMap UInt32 (List UInt32) :=
  match process.parentPid with
  | none => children
  | some parent => children.insert parent ((children.get? parent).getD [] ++ [process.pid])

/-- The children of each process that has any. -/
def children (all : ProcessTable) : SortedMap UInt32 (List UInt32) :=
  all.values.foldl addChild SortedMap.empty

/-- Where a link from a parent leads. -/
def childrenOf (all : ProcessTable) (pid : UInt32) : List UInt32 :=
  (all.children.get? pid).getD []

end ProcessTable

/-- `supervised_processes` of the table that `all_processes` returns, within so many turns of its
loop. -/
def supervisedProcesses {ε : Type} (fuel : Nat) (allProcesses : Except ε ProcessTable)
    (rootPid : UInt32) : Except ε (Option (List ProcessInfo)) := do
  let all ← allProcesses
  let selected := Worklist.search all.childrenOf fuel ⟨[rootPid], SortedMap.empty⟩
  return selected.map fun selected => selected.toList.filterMap all.processes.get?

namespace ProcessTable

/-- A link from a parent to a child: a process of the table that names the parent. -/
def Link (all : ProcessTable) (parent child : UInt32) : Prop :=
  ∃ process ∈ all.values, process.parentPid = some parent ∧ process.pid = child

theorem mem_foldl_addChild {processes : List ProcessInfo}
    {children : SortedMap UInt32 (List UInt32)} {parent child : UInt32} :
    child ∈ ((processes.foldl addChild children).get? parent).getD []
      ↔ child ∈ (children.get? parent).getD []
        ∨ ∃ process ∈ processes, process.parentPid = some parent ∧ process.pid = child := by
  induction processes generalizing children with
  | nil => simp
  | cons process rest ih =>
    have hstep : child ∈ ((addChild children process).get? parent).getD []
        ↔ child ∈ (children.get? parent).getD []
          ∨ (process.parentPid = some parent ∧ process.pid = child) := by
      rw [addChild]
      cases hparent : process.parentPid with
      | none => simp
      | some named =>
        by_cases hsame : parent = named
        · subst hsame
          simp only [SortedMap.get?_insert_self, Option.getD_some, List.mem_append,
            List.mem_singleton, true_and]
          exact or_congr_right eq_comm
        · rw [SortedMap.get?_insert_of_ne children _ hsame]
          have hother : named ≠ parent := Ne.symm hsame
          simp [hother]
    rw [List.foldl_cons, ih, hstep, or_assoc, List.exists_mem_cons_iff]

/-- The search follows the links of the table. -/
theorem mem_childrenOf_iff {all : ProcessTable} {parent child : UInt32} :
    child ∈ all.childrenOf parent ↔ all.Link parent child := by
  rw [childrenOf, children, mem_foldl_addChild]
  simp [Link, SortedMap.get?, SortedMap.empty]

/-- What the table has under a number is the process of that number. -/
theorem get?_eq_some_iff {all : ProcessTable} {pid : UInt32} {process : ProcessInfo} :
    all.processes.get? pid = some process ↔ process ∈ all.values ∧ process.pid = pid := by
  rw [SortedMap.get?_eq_some_iff, values, List.mem_map]
  constructor
  · intro hmem
    exact ⟨⟨_, hmem, rfl⟩, all.keyed _ hmem⟩
  · rintro ⟨⟨e, hmem, rfl⟩, rfl⟩
    rw [all.keyed e hmem]
    exact hmem

end ProcessTable

/-- **The supervised processes are those that the root leads to.**  Whatever the links of the
table, the search ends; it returns the processes of the table that can be reached from the root,
each once and in the order of their numbers. -/
theorem supervisedProcesses_reachable {ε : Type} (all : ProcessTable) (rootPid : UInt32) :
    ∃ turns processes,
      (∀ fuel, turns ≤ fuel →
        supervisedProcesses fuel (.ok all : Except ε ProcessTable) rootPid = .ok (some processes))
      ∧ (∀ process, process ∈ processes ↔ process ∈ all.values
        ∧ Relation.ReflTransGen all.Link rootPid process.pid)
      ∧ processes.Pairwise fun process later => process.pid < later.pid := by
  have hlink : (fun a b => b ∈ all.childrenOf a) = all.Link := by
    funext a b
    exact propext ProcessTable.mem_childrenOf_iff
  -- the root and the processes of the table are all that the search can meet
  have hnodes : ∀ a ∈ rootPid :: all.values.map (·.pid), ∀ b ∈ all.childrenOf a,
      b ∈ rootPid :: all.values.map (·.pid) := by
    intro a _ b hb
    obtain ⟨process, hmem, -, rfl⟩ := ProcessTable.mem_childrenOf_iff.mp hb
    exact List.mem_cons_of_mem _ (List.mem_map_of_mem hmem)
  have hqueue : ∀ a ∈ [rootPid], a ∈ rootPid :: all.values.map (·.pid) := by
    intro a ha
    obtain rfl := List.mem_singleton.mp ha
    exact List.mem_cons_self
  have hsearch := fun fuel => @Worklist.search_of_closed _ _ all.childrenOf _ hnodes rootPid fuel
    ⟨[rootPid], SortedMap.empty⟩ hqueue (Worklist.covers_start rootPid)
  obtain ⟨selected, -, hselected⟩ := hsearch _ le_rfl
  refine ⟨Worklist.remaining all.childrenOf (rootPid :: all.values.map (·.pid))
    ⟨[rootPid], SortedMap.empty⟩, selected.toList.filterMap all.processes.get?,
    fun fuel hfuel => ?_, ?_, ?_⟩
  · obtain ⟨found, hfound, hmem⟩ := hsearch fuel hfuel
    have hsame : found.toList = selected.toList :=
      SortedSet.toList_eq selected.toList_pairwise fun a => (hmem a).trans (hselected a).symm
    show Except.ok ((Worklist.search _ fuel _).map _) = _
    rw [hfound, Option.map_some, hsame]
  · intro process
    rw [List.mem_filterMap]
    simp only [ProcessTable.get?_eq_some_iff, hselected, Worklist.Reaches, hlink]
    constructor
    · rintro ⟨pid, hreach, hmem, rfl⟩
      exact ⟨hmem, hreach⟩
    · rintro ⟨hmem, hreach⟩
      exact ⟨process.pid, hreach, hmem, rfl⟩
  · refine List.Pairwise.filterMap _ (fun a b hlt process hprocess later hlater => ?_)
      selected.toList_pairwise
    rw [(ProcessTable.get?_eq_some_iff.mp hprocess).2, (ProcessTable.get?_eq_some_iff.mp hlater).2]
    exact hlt

end Supervision

end Rewind
