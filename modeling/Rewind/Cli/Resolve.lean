/-
Selectors of runs and checkpoints.

A selector is `<run>@<checkpoint>`.  A run is named by a prefix of its identifier; a checkpoint by
its reason, if the text is one of two reserved words, and otherwise by a prefix of its identifier or
by its label.

* `resolveRun`, `resolveCheckpoint`, `resolveSelector` — what a selector stands for;
* `checkpointed_run` — the checkpoints of any run of the writer are read back, each under an
  identifier of its own;
* `resolveSelector_eq_ok_iff` — a selector is resolved part by part;
* **`selectors_exact`** — a checkpoint is resolved if it is the only one that is selected, and the
  text of an identifier selects its checkpoint and those that carry it as their label.
-/
import Rewind.Store.Evidence

namespace Rewind

/-! ### Resolution -/

inductive ResolveError where
  | invalidSelector
  | runNotFound (value : String)
  | ambiguousRun (text found : String)
  | checkpointNotFound (run : RunId) (checkpoint : String)
  | ambiguousCheckpoint (run : RunId) (checkpoint found : String)
  | store (source : StoreError)
deriving DecidableEq

/-- `str::starts_with`. -/
def startsWith (text value : String) : Bool := value.toList.isPrefixOf text.toList

/-- `str::split_once`. -/
def splitOnce (separator : Char) (text : String) : Option (String × String) :=
  match text.toList.span (· ≠ separator) with
  | (_, []) => none
  | (before, _ :: after) => some (String.ofList before, String.ofList after)

/-- `resolve_run`. -/
def resolveRun (db : Db) (value : String) : Except ResolveError Run := do
  if value = "" then throw (.runNotFound value)
  let runs ← (listRuns db).mapError .store
  match runs.filter fun run => startsWith (toString run.id) value with
  | [] => throw (.runNotFound value)
  | [run] => return run
  | run :: second :: _ => throw (.ambiguousRun value s!"{run.id}, {second.id}")

/-- `checkpoint_matches`. -/
def checkpointMatches (checkpoint : Checkpoint) (value : String) : Bool :=
  startsWith (toString checkpoint.id) value || checkpoint.label = some value

/-- The checkpoints that a text selects. -/
def selected (checkpoints : List Checkpoint) (value : String) : List Checkpoint :=
  if value = "initial" ∨ value = "final" then
    let reason : CheckpointReason := if value = "initial" then .initial else .final
    checkpoints.filter fun checkpoint => checkpoint.reason = reason
  else
    checkpoints.filter fun checkpoint => checkpointMatches checkpoint value

/-- The checkpoints that the message of an ambiguity names. -/
def namedMatches (found : List Checkpoint) : String :=
  ", ".intercalate ((found.take 4).map fun checkpoint => toString checkpoint.id)

/-- The last `match` of `resolve_checkpoint`. -/
def soleMatch (runId : RunId) (value : String) : List Checkpoint → Except ResolveError Checkpoint
  | [] => .error (.checkpointNotFound runId value)
  | [checkpoint] => .ok checkpoint
  | found => .error (.ambiguousCheckpoint runId value (namedMatches found))

/-- `resolve_checkpoint`. -/
def resolveCheckpoint (db : Db) (run : Run) (value : String) : Except ResolveError Checkpoint := do
  let checkpoints ← (loadCheckpoints db run.id).mapError .store
  soleMatch run.id value (selected checkpoints value)

/-- `resolve_selector`. -/
def resolveSelector (db : Db) (selector : String) : Except ResolveError (Run × Checkpoint) := do
  let (run, checkpoint) ←
    ((splitOnce '@' selector).filter fun (run, checkpoint) =>
      run ≠ "" ∧ checkpoint ≠ "" ∧ '@' ∉ checkpoint.toList).elim (.error .invalidSelector) .ok
  let run ← resolveRun db run
  let checkpoint ← resolveCheckpoint db run checkpoint
  return (run, checkpoint)

/-- What a text says of the checkpoint it selects. -/
def Selects (value : String) (checkpoint : Checkpoint) : Prop :=
  (value = "initial" ∧ checkpoint.reason = .initial)
    ∨ (value = "final" ∧ checkpoint.reason = .final)
    ∨ (value ≠ "initial" ∧ value ≠ "final"
        ∧ (value.toList <+: (toString checkpoint.id).toList ∨ checkpoint.label = some value))

/-! ### Stored checkpoints are read back -/

/-- The identifiers are a key, and every row is that of a valid checkpoint. -/
structure Db.Checkpointed (db : Db) : Prop where
  readable : db.RunsReadable
  keys : (db.checkpoints.map (·.id)).Nodup
  rows : ∀ row ∈ db.checkpoints, ∃ checkpoint : Checkpoint,
    checkpoint.validate = .ok () ∧ checkpointRow checkpoint = row

theorem decodeCheckpoint_checkpointRow {checkpoint : Checkpoint}
    (h : checkpoint.validate = .ok ()) :
    decodeCheckpoint (checkpointRow checkpoint) = .ok checkpoint := by
  have hsequence : (UInt64.ofNat checkpoint.sequence.get).toNat = checkpoint.sequence.get :=
    UInt64.toNat_ofNat_of_lt checkpoint.sequence.lt
  have hnew : EventSequence.new (UInt64.ofNat checkpoint.sequence.get)
      = some checkpoint.sequence := by
    have hpos : 0 < (UInt64.ofNat checkpoint.sequence.get).toNat := by
      rw [hsequence]
      exact checkpoint.sequence.pos
    rw [EventSequence.new, dif_pos hpos]
    exact congrArg some (EventSequence.get_injective hsequence)
  refine Except.bind_eq_ok_iff.mpr ⟨_, decodeU64_eq_ok_iff.mpr hsequence, ?_⟩
  refine Except.bind_eq_ok_iff.mpr ⟨checkpoint.sequence, by rw [hnew]; rfl, ?_⟩
  refine Except.bind_eq_ok_iff.mpr ⟨checkpoint.monotonicOffset.nanoseconds,
    decodeU64_eq_ok_iff.mpr rfl, ?_⟩
  exact Except.bind_eq_ok_iff.mpr ⟨(), Except.mapError_eq_ok_iff.mpr h, rfl⟩

/-- A checkpoint is committed if it is valid and its identifier is new. -/
theorem Op.committed_checkpoints {codecs : Codecs} {db db' : Db} {op : Op}
    (h : op.exec codecs db = .ok db') : ∀ checkpoint ∈ op.checkpoints,
      checkpoint.validate = .ok () ∧ checkpoint.id ∉ db.checkpoints.map (·.id) := by
  intro checkpoint hcheckpoint
  cases op with
  | commitCheckpoint committed snapshot =>
    obtain rfl := List.mem_singleton.mp hcheckpoint
    obtain ⟨_, hvalid, hcommit⟩ := Except.bind_eq_ok_iff.mp h
    obtain ⟨_, hlabel, -⟩ := Except.bind_eq_ok_iff.mp hvalid
    obtain ⟨_, -, -, -, hfresh, -⟩ := commitCheckpointIn_ok hcommit
    exact ⟨Except.mapError_eq_ok_iff.mp hlabel, hfresh⟩
  | commitCheckpointWithEvent committed snapshot event =>
    obtain rfl := List.mem_singleton.mp hcheckpoint
    obtain ⟨_, hvalid, -⟩ := Except.bind_eq_ok_iff.mp h
    obtain ⟨_, hlabel, -⟩ := Except.bind_eq_ok_iff.mp hvalid
    obtain ⟨-, -, _, hcommit, -⟩ := commitCheckpointWithEvent_ok h
    obtain ⟨_, -, -, -, hfresh, -⟩ := commitCheckpointIn_ok hcommit
    exact ⟨Except.mapError_eq_ok_iff.mp hlabel, hfresh⟩
  | createRun | markRunRunning | appendEventBatch | storeSnapshot | finishRun | finishRunWithEvents
  | markInterruptedRuns | recordObject | deleteObject => exact absurd hcheckpoint List.not_mem_nil

theorem checkpointed_step {codecs : Codecs} {db : Db} (request : Request) (hdb : db.Checkpointed) :
    (step codecs db request).Checkpointed := by
  have hreadable : (step codecs db request).RunsReadable :=
    (statements_keepReadable codecs).step db request hdb.readable
  rcases step_cases codecs db request with hsame | ⟨-, hexec⟩
  · rw [hsame]
    exact hdb
  · have hnew := Op.committed_checkpoints hexec
    have hwrites := (exec_writes hdb.readable hexec).checkpoints
    -- an operation commits one checkpoint or none
    have hfew : request.op.checkpoints = [] ∨ ∃ c, request.op.checkpoints = [c] := by
      cases request.op with
      | commitCheckpoint c | commitCheckpointWithEvent c => exact Or.inr ⟨c, rfl⟩
      | createRun | markRunRunning | appendEventBatch | storeSnapshot | finishRun
      | finishRunWithEvents | markInterruptedRuns | recordObject | deleteObject =>
        exact Or.inl rfl
    refine ⟨hreadable, ?_, ?_⟩
    · rw [hwrites, List.map_append]
      rcases hfew with hnone | ⟨c, hone⟩
      · rw [hnone, List.map_nil, List.map_nil, List.append_nil]
        exact hdb.keys
      · rw [hone]
        have hfresh := (hnew c (hone ▸ List.mem_singleton_self c)).2
        exact List.nodup_append_comm.mp (List.nodup_cons.mpr ⟨hfresh, hdb.keys⟩)
    · intro row hrow
      rw [hwrites, List.mem_append] at hrow
      rcases hrow with hrow | hrow
      · exact hdb.rows row hrow
      · obtain ⟨c, hc, rfl⟩ := List.mem_map.mp hrow
        exact ⟨c, (hnew c hc).1, rfl⟩

/-- The checkpoints in any database the writer reaches. -/
theorem checkpointed_run (codecs : Codecs) (requests : List Request) :
    (Machine.run (step codecs) Db.empty requests).Checkpointed :=
  Machine.run_invariant (fun _ request hdb => checkpointed_step request hdb)
    ⟨runsReadable_empty, List.nodup_nil, fun _ h => absurd h List.not_mem_nil⟩ requests

/-- The checkpoints of a run are loaded, all of them and no others. -/
theorem Db.Checkpointed.loadCheckpoints {db : Db} (hdb : db.Checkpointed) (runId : RunId) :
    ∃ checkpoints, Rewind.loadCheckpoints db runId = .ok checkpoints
      ∧ (checkpoints.map (·.id)).Nodup
      ∧ ∀ checkpoint, checkpoint ∈ checkpoints
        ↔ checkpoint.runId = runId ∧ checkpointRow checkpoint ∈ db.checkpoints := by
  set rows := (db.checkpoints.filter fun row => row.runId = runId).insertionSort
    fun row row' => row.sequence ≤ row'.sequence with hrows
  have hperm : rows.Perm (db.checkpoints.filter fun row => row.runId = runId) :=
    List.perm_insertionSort _ _
  have hmem : ∀ row, row ∈ rows ↔ row ∈ db.checkpoints ∧ row.runId = runId := by
    intro row
    rw [hperm.mem_iff, List.mem_filter, decide_eq_true_iff]
  have hload : ∀ l : List CheckpointRow, (∀ row ∈ l, row ∈ db.checkpoints) →
      ∃ checkpoints, l.mapM decodeCheckpoint = .ok checkpoints
        ∧ checkpoints.map checkpointRow = l
        ∧ ∀ checkpoint ∈ checkpoints, checkpoint.validate = .ok () := by
    intro l hl
    induction l with
    | nil => exact ⟨[], rfl, rfl, fun _ h => absurd h List.not_mem_nil⟩
    | cons row rest ih =>
      obtain ⟨checkpoint, hvalid, rfl⟩ := hdb.rows row (hl row List.mem_cons_self)
      obtain ⟨checkpoints, hmap, hback, hall⟩ := ih fun r hr => hl r (List.mem_cons_of_mem _ hr)
      refine ⟨checkpoint :: checkpoints, ?_, by rw [List.map_cons, hback], ?_⟩
      · rw [List.mapM_cons, decodeCheckpoint_checkpointRow hvalid, hmap]
        rfl
      · exact List.forall_mem_cons.mpr ⟨hvalid, hall⟩
  obtain ⟨checkpoints, hmap, hback, hvalid⟩ := hload rows fun row hrow => ((hmem row).mp hrow).1
  refine ⟨checkpoints, hmap, ?_, ?_⟩
  · have hids : checkpoints.map (·.id) = rows.map (·.id) := by
      rw [← hback, List.map_map]
      rfl
    rw [hids, (hperm.map _).nodup_iff]
    exact hdb.keys.sublist ((List.filter_sublist).map _)
  · intro checkpoint
    constructor
    · intro hcheckpoint
      have hrow : checkpointRow checkpoint ∈ rows := hback ▸ List.mem_map_of_mem hcheckpoint
      obtain ⟨hrow, hrun⟩ := (hmem _).mp hrow
      exact ⟨hrun, hrow⟩
    · rintro ⟨hrun, hrow⟩
      have hrow : checkpointRow checkpoint ∈ checkpoints.map checkpointRow :=
        hback ▸ (hmem _).mpr ⟨hrow, hrun⟩
      obtain ⟨found, hfound, hsame⟩ := List.mem_map.mp hrow
      -- both rows decode, to the same checkpoint
      have hvalid' : checkpoint.validate = .ok () := by
        have hlabel : found.label = checkpoint.label := congrArg CheckpointRow.label hsame
        have hok := hvalid found hfound
        rwa [Checkpoint.validate, hlabel] at hok
      have hdecode := decodeCheckpoint_checkpointRow (hvalid found hfound)
      rw [hsame, decodeCheckpoint_checkpointRow hvalid'] at hdecode
      rw [Except.ok.inj hdecode]
      exact hfound

/-! ### What a text selects -/

section Selection

variable {checkpoints : List Checkpoint} {value : String}

theorem startsWith_eq_true_iff {text value : String} :
    startsWith text value = true ↔ value.toList <+: text.toList := List.isPrefixOf_iff_prefix

theorem mem_selected {checkpoint : Checkpoint} :
    checkpoint ∈ selected checkpoints value
      ↔ checkpoint ∈ checkpoints ∧ Selects value checkpoint := by
  unfold selected Selects
  by_cases hinitial : value = "initial"
  · subst hinitial
    simp
  · by_cases hfinal : value = "final"
    · subst hfinal
      simp
    · simp [hinitial, hfinal, checkpointMatches, startsWith_eq_true_iff]

theorem nodup_selected (h : checkpoints.Nodup) : (selected checkpoints value).Nodup := by
  unfold selected
  split
  · exact h.filter _
  · exact h.filter _

/-- No identifier is a reserved word, or a part of another identifier. -/
theorem selects_id_iff {checkpoint other : Checkpoint} :
    Selects (toString checkpoint.id) other
      ↔ other.id = checkpoint.id ∨ other.label = some (toString checkpoint.id) := by
  have hlength : ∀ id : CheckpointId, (toString id).toList.length = 36 := fun id =>
    id.uuid.length_hyphenated
  have hword : ∀ word : String, word.toList.length ≠ 36 → toString checkpoint.id ≠ word := by
    rintro word hword rfl
    exact hword (hlength checkpoint.id)
  have hinitial := hword "initial" (by decide)
  have hfinal := hword "final" (by decide)
  have hprefix : (toString checkpoint.id).toList <+: (toString other.id).toList
      ↔ other.id = checkpoint.id := by
    constructor
    · intro hprefix
      have htext := hprefix.eq_of_length (by rw [hlength, hlength])
      exact (CheckpointId.toString_injective (String.toList_inj.mp htext)).symm
    · intro hid
      rw [hid]
  rw [Selects, hprefix]
  constructor
  · rintro (⟨hword, -⟩ | ⟨hword, -⟩ | ⟨-, -, hselects⟩)
    · exact absurd hword hinitial
    · exact absurd hword hfinal
    · exact hselects
  · intro hselects
    exact Or.inr (Or.inr ⟨hinitial, hfinal, hselects⟩)

end Selection

/-! ### Outcomes -/

section Outcomes

variable {db : Db} {run : Run} {checkpoints : List Checkpoint} {value : String}

theorem resolveCheckpoint_of_load (hload : loadCheckpoints db run.id = .ok checkpoints) :
    resolveCheckpoint db run value = soleMatch run.id value (selected checkpoints value) := by
  rw [resolveCheckpoint, hload]
  rfl

/-- A checkpoint is returned if it alone is selected. -/
theorem resolveCheckpoint_eq_ok_iff (hload : loadCheckpoints db run.id = .ok checkpoints)
    (hnodup : checkpoints.Nodup) {checkpoint : Checkpoint} :
    resolveCheckpoint db run value = .ok checkpoint
      ↔ checkpoint ∈ checkpoints ∧ Selects value checkpoint
        ∧ ∀ other ∈ checkpoints, Selects value other → other = checkpoint := by
  have halone : resolveCheckpoint db run value = .ok checkpoint
      ↔ selected checkpoints value = [checkpoint] := by
    rw [resolveCheckpoint_of_load hload]
    rcases selected checkpoints value with _ | ⟨first, _ | ⟨second, rest⟩⟩
    · exact iff_of_false (by simp [soleMatch]) (by simp)
    · constructor
      · intro hok
        rw [Except.ok.inj hok]
      · intro hone
        rw [hone]
        rfl
    · exact iff_of_false (by simp [soleMatch]) (by simp)
  rw [halone]
  constructor
  · intro hone
    have hmem := mem_selected.mp (hone ▸ List.mem_singleton_self checkpoint)
    refine ⟨hmem.1, hmem.2, fun other hother hselects => ?_⟩
    have hfound : other ∈ selected checkpoints value := mem_selected.mpr ⟨hother, hselects⟩
    exact List.mem_singleton.mp (hone ▸ hfound)
  · rintro ⟨hmem, hselects, hall⟩
    have hperm : (selected checkpoints value).Perm [checkpoint] := by
      refine (List.perm_ext_iff_of_nodup (nodup_selected hnodup) (List.nodup_singleton _)).mpr ?_
      intro other
      rw [mem_selected, List.mem_singleton]
      constructor
      · rintro ⟨hother, hselects⟩
        exact hall other hother hselects
      · rintro rfl
        exact ⟨hmem, hselects⟩
    exact List.perm_singleton.mp hperm

theorem resolveCheckpoint_of_none (hload : loadCheckpoints db run.id = .ok checkpoints)
    (hnone : ∀ checkpoint ∈ checkpoints, ¬ Selects value checkpoint) :
    resolveCheckpoint db run value = .error (.checkpointNotFound run.id value) := by
  have hselected : selected checkpoints value = [] := by
    rw [List.eq_nil_iff_forall_not_mem]
    intro checkpoint hcheckpoint
    obtain ⟨hmem, hselects⟩ := mem_selected.mp hcheckpoint
    exact hnone checkpoint hmem hselects
  rw [resolveCheckpoint_of_load hload, hselected]
  rfl

theorem resolveCheckpoint_of_several (hload : loadCheckpoints db run.id = .ok checkpoints)
    {checkpoint other : Checkpoint} (hmem : checkpoint ∈ checkpoints) (hother : other ∈ checkpoints)
    (hne : checkpoint ≠ other) (hselects : Selects value checkpoint)
    (hselects' : Selects value other) :
    resolveCheckpoint db run value
      = .error (.ambiguousCheckpoint run.id value (namedMatches (selected checkpoints value))) := by
  have hfirst : checkpoint ∈ selected checkpoints value := mem_selected.mpr ⟨hmem, hselects⟩
  have hsecond : other ∈ selected checkpoints value := mem_selected.mpr ⟨hother, hselects'⟩
  rw [resolveCheckpoint_of_load hload]
  rcases hfound : selected checkpoints value with _ | ⟨a, _ | ⟨b, rest⟩⟩
  · rw [hfound] at hfirst
    exact absurd hfirst List.not_mem_nil
  · rw [hfound] at hfirst hsecond
    exact absurd ((List.mem_singleton.mp hfirst).trans (List.mem_singleton.mp hsecond).symm) hne
  · rfl

end Outcomes

/-! ### Selectors -/

theorem splitOnce_eq_some_iff {separator : Char} {text before after : String} :
    splitOnce separator text = some (before, after)
      ↔ text.toList = before.toList ++ separator :: after.toList
        ∧ separator ∉ before.toList := by
  unfold splitOnce
  rw [List.span_eq_takeWhile_dropWhile]
  have hwhole := @List.takeWhile_append_dropWhile _ (fun c => decide (c ≠ separator)) text.toList
  have hbefore : separator ∉ text.toList.takeWhile fun c => decide (c ≠ separator) := by
    intro hmem
    exact absurd rfl (of_decide_eq_true (List.all_eq_true.mp List.all_takeWhile separator hmem))
  constructor
  · intro hsplit
    rcases hrest : text.toList.dropWhile (fun c => decide (c ≠ separator)) with _ | ⟨c, rest⟩
    · rw [hrest] at hsplit
      exact absurd hsplit (by simp)
    · rw [hrest] at hsplit hwhole
      obtain ⟨rfl, rfl⟩ := Prod.mk.inj (Option.some.inj hsplit)
      -- the rest begins with the first character that is not passed over
      have hhead : c = separator := by
        have hnot := List.head?_dropWhile_not (fun c => decide (c ≠ separator)) text.toList
        rw [hrest] at hnot
        exact of_not_not (of_decide_eq_false hnot)
      rw [hhead] at hwhole
      rw [String.toList_ofList, String.toList_ofList]
      exact ⟨hwhole.symm, hbefore⟩
  · rintro ⟨htext, hnot⟩
    have hall : ∀ c ∈ before.toList, decide (c ≠ separator) = true := by
      intro c hc
      refine decide_eq_true ?_
      rintro rfl
      exact hnot hc
    have htake : (before.toList ++ separator :: after.toList).takeWhile
        (fun c => decide (c ≠ separator)) = before.toList := by
      rw [List.takeWhile_append_of_pos hall]
      simp
    have hdrop : (before.toList ++ separator :: after.toList).dropWhile
        (fun c => decide (c ≠ separator)) = separator :: after.toList := by
      rw [List.dropWhile_append_of_pos hall]
      simp
    rw [htext, htake, hdrop]
    simp

/-- A selector is resolved part by part. -/
theorem resolveSelector_eq_ok_iff {db : Db} {selector : String} {run : Run}
    {checkpoint : Checkpoint} :
    resolveSelector db selector = .ok (run, checkpoint)
      ↔ ∃ left right : String, selector.toList = left.toList ++ '@' :: right.toList
        ∧ '@' ∉ left.toList ∧ '@' ∉ right.toList ∧ left ≠ "" ∧ right ≠ ""
        ∧ resolveRun db left = .ok run ∧ resolveCheckpoint db run right = .ok checkpoint := by
  have helim : ∀ (found : Option (String × String)) (pair : String × String),
      found.elim (Except.error ResolveError.invalidSelector) .ok = .ok pair
        ↔ found = some pair := by
    intro found pair
    cases found with
    | none => simp
    | some other => simp
  rw [resolveSelector]
  simp only [Except.bind_eq_ok_iff, helim, Option.filter_eq_some_iff, decide_eq_true_eq,
    Except.pure_eq_ok_iff, Prod.exists, Prod.mk.injEq, splitOnce_eq_some_iff]
  constructor
  · rintro ⟨left, right, ⟨⟨htext, hleft⟩, hleft', hright', hright⟩, found, hfound, checkpoint,
      hcheckpoint, rfl, rfl⟩
    exact ⟨left, right, htext, hleft, hright, hleft', hright', hfound, hcheckpoint⟩
  · rintro ⟨left, right, htext, hleft, hright, hleft', hright', hfound, hcheckpoint⟩
    exact ⟨left, right, ⟨⟨htext, hleft⟩, hleft', hright', hright⟩, run, hfound, checkpoint,
      hcheckpoint, rfl, rfl⟩

/-! ### Exactness -/

/-- **Selectors.**  Of the checkpoints of a run, in any database the writer reaches, one is resolved
if and only if it alone is selected; no match and several matches are errors of their own.  The text
of an identifier is resolved to its checkpoint, unless it is the label of another. -/
theorem selectors_exact (codecs : Codecs) (requests : List Request) (run : Run) :
    let db := Machine.run (step codecs) Db.empty requests
    ∃ checkpoints, loadCheckpoints db run.id = .ok checkpoints
      ∧ (∀ checkpoint, checkpoint ∈ checkpoints
        ↔ checkpoint.runId = run.id ∧ checkpointRow checkpoint ∈ db.checkpoints)
      ∧ (∀ checkpoint ∈ checkpoints,
        ((∀ other ∈ checkpoints, other ≠ checkpoint →
            other.label ≠ some (toString checkpoint.id)) →
          resolveCheckpoint db run (toString checkpoint.id) = .ok checkpoint)
        ∧ ((∃ other ∈ checkpoints, other ≠ checkpoint
              ∧ other.label = some (toString checkpoint.id)) →
          resolveCheckpoint db run (toString checkpoint.id)
            = .error (.ambiguousCheckpoint run.id (toString checkpoint.id)
                (namedMatches (selected checkpoints (toString checkpoint.id))))))
      ∧ (∀ value checkpoint, resolveCheckpoint db run value = .ok checkpoint
        ↔ checkpoint ∈ checkpoints ∧ Selects value checkpoint
          ∧ ∀ other ∈ checkpoints, Selects value other → other = checkpoint)
      ∧ (∀ value, (∀ checkpoint ∈ checkpoints, ¬ Selects value checkpoint) →
        resolveCheckpoint db run value = .error (.checkpointNotFound run.id value))
      ∧ (∀ value, (∃ checkpoint ∈ checkpoints, ∃ other ∈ checkpoints, checkpoint ≠ other
            ∧ Selects value checkpoint ∧ Selects value other) →
        resolveCheckpoint db run value = .error (.ambiguousCheckpoint run.id value
          (namedMatches (selected checkpoints value))))
      ∧ ∀ selector found checkpoint, resolveSelector db selector = .ok (found, checkpoint)
        ↔ ∃ left right : String, selector.toList = left.toList ++ '@' :: right.toList
          ∧ '@' ∉ left.toList ∧ '@' ∉ right.toList ∧ left ≠ "" ∧ right ≠ ""
          ∧ resolveRun db left = .ok found ∧ resolveCheckpoint db found right = .ok checkpoint := by
  intro db
  have hdb : db.Checkpointed := checkpointed_run codecs requests
  obtain ⟨checkpoints, hload, hids, hmem⟩ := hdb.loadCheckpoints run.id
  have hnodup : checkpoints.Nodup := hids.of_map _
  have hsame : ∀ checkpoint ∈ checkpoints, ∀ other ∈ checkpoints,
      other.id = checkpoint.id → other = checkpoint := by
    intro checkpoint hcheckpoint other hother hid
    exact List.inj_on_of_nodup_map hids hother hcheckpoint hid
  refine ⟨checkpoints, hload, hmem, ?_, ?_, ?_, ?_, ?_⟩
  · intro checkpoint hcheckpoint
    have hself : Selects (toString checkpoint.id) checkpoint := selects_id_iff.mpr (Or.inl rfl)
    constructor
    · intro hlabels
      refine (resolveCheckpoint_eq_ok_iff hload hnodup).mpr ⟨hcheckpoint, hself, ?_⟩
      intro other hother hselects
      by_contra hne
      rcases selects_id_iff.mp hselects with hid | hlabel
      · exact hne (hsame checkpoint hcheckpoint other hother hid)
      · exact hlabels other hother hne hlabel
    · rintro ⟨other, hother, hne, hlabel⟩
      exact resolveCheckpoint_of_several hload hcheckpoint hother hne.symm hself
        (selects_id_iff.mpr (Or.inr hlabel))
  · intro value checkpoint
    exact resolveCheckpoint_eq_ok_iff hload hnodup
  · intro value hnone
    exact resolveCheckpoint_of_none hload hnone
  · rintro value ⟨checkpoint, hcheckpoint, other, hother, hne, hselects, hselects'⟩
    exact resolveCheckpoint_of_several hload hcheckpoint hother hne hselects hselects'
  · intro selector found checkpoint
    exact resolveSelector_eq_ok_iff

namespace Sample

/-- A checkpoint labelled with the identifier of another one. -/
def borrowed : Checkpoint :=
  { checkpoint 1 .manual with label := some (toString (checkpoint 0 .initial).id) }

def collision : Db :=
  Machine.run (step codecs) Db.empty
    [⟨.createRun run, false⟩, ⟨.commitCheckpoint (checkpoint 0 .initial) emptySnapshot, false⟩,
      ⟨.commitCheckpoint borrowed emptySnapshot, false⟩]

theorem load_collision :
    loadCheckpoints collision runId = .ok [checkpoint 0 .initial, borrowed] := by
  decide +kernel

end Sample

/-- **An identifier that is a label elsewhere is ambiguous.** -/
theorem selector_collides :
    Sample.checkpoint 0 .initial ∈ [Sample.checkpoint 0 .initial, Sample.borrowed]
      ∧ loadCheckpoints Sample.collision Sample.runId
        = .ok [Sample.checkpoint 0 .initial, Sample.borrowed]
      ∧ resolveCheckpoint Sample.collision Sample.run
          (toString (Sample.checkpoint 0 .initial).id)
        = .error (.ambiguousCheckpoint Sample.runId (toString (Sample.checkpoint 0 .initial).id)
            (namedMatches [Sample.checkpoint 0 .initial, Sample.borrowed])) := by
  refine ⟨List.mem_cons_self, Sample.load_collision, ?_⟩
  have hselected : selected [Sample.checkpoint 0 .initial, Sample.borrowed]
      (toString (Sample.checkpoint 0 .initial).id)
      = [Sample.checkpoint 0 .initial, Sample.borrowed] := by decide +kernel
  have hresolved : resolveCheckpoint Sample.collision Sample.run
      (toString (Sample.checkpoint 0 .initial).id) = soleMatch Sample.runId
        (toString (Sample.checkpoint 0 .initial).id) (selected _ _) :=
    resolveCheckpoint_of_load Sample.load_collision
  rw [hresolved, hselected]
  rfl

end Rewind
