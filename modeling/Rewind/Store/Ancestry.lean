/-
The ancestry of runs.

A forked run has one edge in `run_parents`, to the run and the checkpoint it was forked from.  The
edge is inserted with the run itself, and by no other statement, so that a child's edge is always
younger than the edges of its ancestors.

* `Db.Ancestral` — what every reachable `run_parents` satisfies;
* `KeepsAncestry` — what a statement does to it: an edge stays as it is;
* **`ancestry_forest`** — the parents form a forest, in every database the writer reaches.
-/
import Rewind.Lib.Forest
import Rewind.Store.Timeline

namespace Rewind

/-- `parent` is the parent of `child`. -/
abbrev Db.ParentEdge (db : Db) : RunId → RunId → Prop :=
  Forest.Up (·.childRunId) (·.parentRunId) db.runParents

/-- The parent of a run. -/
def Db.parent? (db : Db) (id : RunId) : Option RunId :=
  (Table.find (·.childRunId) db.runParents id).map (·.parentRunId)

/-- The edges have grown with the runs, and lead to checkpoints of the parents. -/
structure Db.Ancestral (db : Db) : Prop where
  known : ∀ row ∈ db.runParents,
    row.childRunId ∈ db.runs.map (·.id) ∧ row.parentRunId ∈ db.runs.map (·.id)
  single : (db.runParents.map (·.childRunId)).Nodup
  grown : Forest.Grown (·.childRunId) (·.parentRunId) db.runParents
  backed : ∀ row ∈ db.runParents,
    ∃ c ∈ db.checkpoints, c.id = row.checkpointId ∧ c.runId = row.parentRunId

theorem ancestral_empty : Db.empty.Ancestral where
  known := fun _ h => absurd h List.not_mem_nil
  single := List.nodup_nil
  grown := Forest.Grown.nil
  backed := fun _ h => absurd h List.not_mem_nil

/-! ### Statements -/

/-- What a statement may do to the edges: it keeps those there are. -/
def KeepsAncestry (db db' : Db) : Prop :=
  db.Ancestral → db'.Ancestral ∧ db.runParents <+: db'.runParents

/-- A statement that leaves the edges alone, and removes no run and no checkpoint. -/
theorem KeepsAncestry.of_eq {db db' : Db} (hparents : db'.runParents = db.runParents)
    (hruns : db.runs.map (·.id) ⊆ db'.runs.map (·.id))
    (hcheckpoints : db.checkpoints ⊆ db'.checkpoints) : KeepsAncestry db db' := by
  intro hdb
  refine ⟨⟨?_, ?_, ?_, ?_⟩, ?_⟩
  · intro row hrow
    rw [hparents] at hrow
    obtain ⟨hchild, hparent⟩ := hdb.known row hrow
    exact ⟨hruns hchild, hruns hparent⟩
  · rw [hparents]
    exact hdb.single
  · rw [hparents]
    exact hdb.grown
  · intro row hrow
    rw [hparents] at hrow
    obtain ⟨c, hc, hbacked⟩ := hdb.backed row hrow
    exact ⟨c, hcheckpoints hc, hbacked⟩
  · rw [hparents]

/-- A statement that updates the runs under their identifiers. -/
theorem KeepsAncestry.of_update {db db' : Db} {p : RunRow → Bool} {f : RunRow → RunRow}
    (hparents : db'.runParents = db.runParents) (hcheckpoints : db.checkpoints ⊆ db'.checkpoints)
    (hruns : db'.runs = Table.update p f db.runs) (hid : ∀ row, (f row).id = row.id) :
    KeepsAncestry db db' := by
  refine KeepsAncestry.of_eq hparents ?_ hcheckpoints
  rw [hruns, Table.map_key_update _ hid]
  exact List.Subset.refl _

/-- A creation adds an edge for its own run, which is the parent of no edge there is. -/
theorem keepsAncestry_createRun {db db' : Db} {run : Run} (h : createRun db run = .ok db') :
    KeepsAncestry db db' := by
  obtain ⟨-, -, hfresh, -, hparent⟩ := createRun_statements h
  have hruns : db.runs.map (·.id) ⊆ (db.runs ++ [runRow run]).map (·.id) := by
    rw [List.map_append]
    exact List.subset_append_left _ _
  rcases insertParent_ok hparent with
    ⟨-, rfl⟩ | ⟨parent, -, hproper, hknown, ⟨c, hc, hrun, hid⟩, hsingle, rfl⟩
  · exact KeepsAncestry.of_eq rfl hruns (List.Subset.refl _)
  · intro hdb
    have hadded : run.id ∈ (db.runs ++ [runRow run]).map (·.id) := by
      rw [List.map_append]
      exact List.mem_append_right _ (List.mem_singleton_self run.id)
    refine ⟨⟨?_, ?_, ?_, ?_⟩, List.prefix_append _ _⟩
    · intro row' hrow'
      rcases List.mem_append.mp hrow' with hold | hnew
      · obtain ⟨hchild', hparent'⟩ := hdb.known row' hold
        exact ⟨hruns hchild', hruns hparent'⟩
      · obtain rfl := List.mem_singleton.mp hnew
        exact ⟨hadded, Table.find_isSome_iff _ |>.mp hknown⟩
    · exact Table.insert_nodup _ hdb.single hsingle
    · refine hdb.grown.append hproper fun row' hrow' heq => ?_
      have hknown' := (hdb.known row' hrow').2
      rw [heq] at hknown'
      exact hfresh hknown'
    · intro row' hrow'
      rcases List.mem_append.mp hrow' with hold | hnew
      · exact hdb.backed row' hold
      · obtain rfl := List.mem_singleton.mp hnew
        exact ⟨c, hc, hid, hrun⟩

theorem statements_keepAncestry (codecs : Codecs) : StatementsRelate codecs KeepsAncestry where
  refl _ hdb := ⟨hdb, List.prefix_rfl⟩
  trans h₁₂ h₂₃ hdb := by
    obtain ⟨hdb₂, hinitial⟩ := h₁₂ hdb
    obtain ⟨hdb₃, hinitial'⟩ := h₂₃ hdb₂
    exact ⟨hdb₃, hinitial.trans hinitial'⟩
  createRun := keepsAncestry_createRun
  markRunRunning h := by
    obtain ⟨-, rfl⟩ := markRunRunning_ok h
    exact KeepsAncestry.of_update rfl (List.Subset.refl _) rfl fun _ => rfl
  append h := by
    obtain ⟨rfl, -⟩ := appendEventBatchIn_ok h
    exact KeepsAncestry.of_eq rfl (List.Subset.refl _) (List.Subset.refl _)
  storeSnapshot h := by
    obtain ⟨snapshots, snapshotEntries, rfl⟩ := storeSnapshotIn_frame h
    exact KeepsAncestry.of_eq rfl (List.Subset.refl _) (List.Subset.refl _)
  checkpoint {_ _ checkpoint _} h := by
    obtain ⟨db₁, hstore, -, -, -, rfl⟩ := commitCheckpointIn_ok h
    obtain ⟨snapshots, snapshotEntries, rfl⟩ := storeSnapshotIn_frame hstore
    obtain ⟨p, f, hlinked, hf⟩ := linkedRuns_eq_update checkpoint _
    refine KeepsAncestry.of_update rfl (List.subset_append_left _ _) hlinked fun row => ?_
    obtain ⟨_, _, hrow⟩ := hf row
    rw [hrow]
  finish h := by
    obtain ⟨-, -, rfl⟩ := finishRunIn_ok h
    exact KeepsAncestry.of_update rfl (List.Subset.refl _) rfl fun _ => rfl
  recover h := by
    obtain ⟨-, warnings, rfl⟩ := markInterruptedRuns_ok h
    exact KeepsAncestry.of_update rfl (List.Subset.refl _) rfl fun _ => rfl
  recordObject h := by
    obtain ⟨row, -, -, -, rfl, -⟩ := recordObject_ok h
    obtain ⟨rows, -, hdb⟩ := Db.insertObject_frame _ row
    rw [hdb]
    exact KeepsAncestry.of_eq rfl (List.Subset.refl _) (List.Subset.refl _)
  deleteObject h := by
    obtain ⟨-, rfl⟩ := deleteObjectRow_ok h
    exact KeepsAncestry.of_eq rfl (List.Subset.refl _) (List.Subset.refl _)

/-! ### Walks -/

/-- The ancestors are a walk along `parent?`. -/
theorem ancestors_eq_climb (db : Db) (fuel : Nat) (id : RunId) :
    ancestors db fuel id = Forest.climb db.parent? fuel id := by
  induction fuel generalizing id with
  | zero => rfl
  | succ fuel ih =>
    rcases hrow : Table.find (·.childRunId) db.runParents id with _ | row
    · rw [ancestors, Forest.climb, Db.parent?, hrow]
      rfl
    · rw [ancestors, Forest.climb, Db.parent?, hrow]
      exact congrArg (id :: ·) (ih row.parentRunId)

theorem parentEdge_of_parent? {db : Db} {id parent : RunId} (h : db.parent? id = some parent) :
    db.ParentEdge id parent := by
  obtain ⟨row, hrow, rfl⟩ := Option.map_eq_some_iff.mp h
  exact ⟨row, Table.mem_of_find _ hrow, Table.find_some_key _ hrow, rfl⟩

/-- **Ancestry.**  In every database the writer reaches, no run is its own ancestor, no walk along
parents goes on for ever, and the walk from any run ends at a run without a parent.  A child has one
edge, between two runs of the table and to a checkpoint of the parent, and whatever the writer does
next, the edge stays as it is. -/
theorem ancestry_forest (codecs : Codecs) (requests more : List Request) :
    let db := Machine.run (step codecs) Db.empty requests
    let db' := Machine.run (step codecs) db more
    (∀ id, ¬ Relation.TransGen db.ParentEdge id id)
      ∧ (∀ walk : Nat → RunId, ¬ ∀ n, db.ParentEdge (walk n) (walk (n + 1)))
      ∧ (∀ id, ∃ root, (ancestors db db.runParents.length id).getLast? = some root
          ∧ root ∉ db.runParents.map (·.childRunId))
      ∧ (∀ row ∈ db.runParents,
          (db.run? row.childRunId).isSome ∧ (db.run? row.parentRunId).isSome
            ∧ ∃ c ∈ db.checkpoints, c.id = row.checkpointId ∧ c.runId = row.parentRunId)
      ∧ db.runParents <+: db'.runParents
      ∧ (db'.runParents.map (·.childRunId)).Nodup := by
  intro db db'
  have hdb : db.Ancestral :=
    ((statements_keepAncestry codecs).run Db.empty requests ancestral_empty).1
  obtain ⟨hdb', hkept⟩ := (statements_keepAncestry codecs).run db more hdb
  obtain ⟨rank, hfalls, hbound⟩ := hdb.grown.exists_rank
  refine ⟨Forest.not_transGen hfalls, Forest.not_forall_up hfalls, fun id => ?_, fun row hrow => ?_,
    hkept, hdb'.single⟩
  · obtain ⟨root, hlast, hroot⟩ := Forest.climb_ends
      (fun a b hup => hfalls a b (parentEdge_of_parent? hup)) (hbound id)
    refine ⟨root, ?_, ?_⟩
    · rw [ancestors_eq_climb]
      exact hlast
    · exact (Table.find_eq_none_iff _).mp (Option.map_eq_none_iff.mp hroot)
  · obtain ⟨hchild, hparent⟩ := hdb.known row hrow
    have hbacked := hdb.backed row hrow
    exact ⟨(Table.find_isSome_iff _).mpr hchild, (Table.find_isSome_iff _).mpr hparent, hbacked⟩

end Rewind
