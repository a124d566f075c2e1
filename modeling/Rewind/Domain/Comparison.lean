/-
Comparison reports.

A `ComparisonResult` carries the proof that `ComparisonResult::from_canonical_parts` accepts its
changes and its evaluation.  `ComparisonResult.mirror` is the same report with the two sides
exchanged.

* `FileChangeKind.validate`, `ComparisonResult.new` — the checks of the source;
* `ComparisonResult.new_eq_ok` — changes that ascend and pass their own check make a report.
-/
import Rewind.Domain.Run
import Rewind.Domain.Snapshot

namespace Rewind

/-- The structural relationship found between two runs. -/
inductive RunRelationship where
  | sameRun
  | leftParentOfRight (forkCheckpoint : CheckpointId)
  | rightParentOfLeft (forkCheckpoint : CheckpointId)
  | commonAncestor (runId : RunId)
  | unrelated
deriving DecidableEq

/-- The relationship of the same runs, the right one first. -/
def RunRelationship.mirror : RunRelationship → RunRelationship
  | .sameRun => .sameRun
  | .leftParentOfRight forkCheckpoint => .rightParentOfLeft forkCheckpoint
  | .rightParentOfLeft forkCheckpoint => .leftParentOfRight forkCheckpoint
  | .commonAncestor runId => .commonAncestor runId
  | .unrelated => .unrelated

/-- Starting or final snapshot identities for the compared sides. -/
structure SnapshotComparison where
  left : Option SnapshotId
  right : Option SnapshotId
deriving DecidableEq

def SnapshotComparison.mirror (snapshots : SnapshotComparison) : SnapshotComparison where
  left := snapshots.right
  right := snapshots.left

/-- Evidence about one side of a run comparison. -/
structure RunComparisonSummary where
  runId : RunId
  status : RunStatus
  exitStatus : Option ProcessExitStatus
  duration : Option MonotonicDuration
  terminalOutputBytes : UInt64
  checkpointCount : UInt64
  warningCount : UInt64
deriving DecidableEq

/-! ### Changes -/

/-- The filesystem entry type used in a concise diff. -/
inductive SnapshotEntryType where
  | directory
  | file
  | symlink
deriving DecidableEq

/-- A before-and-after pair with no implied preference. -/
structure ValueChange (α : Type) where
  left : α
  right : α
deriving DecidableEq

def ValueChange.mirror {α : Type} (value : ValueChange α) : ValueChange α where
  left := value.right
  right := value.left

/-- Evidence describing one changed workspace path. -/
inductive FileChangeKind where
  | added (entryType : SnapshotEntryType) (executable : Option Bool)
  | deleted (entryType : SnapshotEntryType) (executable : Option Bool)
  | modified (contentChanged : Bool) (entryType : Option (ValueChange SnapshotEntryType))
      (executable : Option (ValueChange Bool)) (permissions : Option (ValueChange UnixPermissions))
deriving DecidableEq

/-- Added and deleted exchanged, and both sides of every value. -/
def FileChangeKind.mirror : FileChangeKind → FileChangeKind
  | .added entryType executable => .deleted entryType executable
  | .deleted entryType executable => .added entryType executable
  | .modified contentChanged entryType executable permissions =>
    .modified contentChanged (entryType.map (·.mirror)) (executable.map (·.mirror))
      (permissions.map (·.mirror))

/-- One changed normalized workspace path. -/
structure FileChange where
  path : SnapshotPath
  change : FileChangeKind
deriving DecidableEq

def FileChange.mirror (change : FileChange) : FileChange where
  path := change.path
  change := change.change.mirror

/-- The evidence produced by one optional isolated evaluation command. -/
structure EvaluationResult where
  command : String
  exitStatus : ProcessExitStatus
  duration : MonotonicDuration
deriving DecidableEq

/-- Evaluation evidence from independently materialized final snapshots. -/
structure EvaluationComparison where
  left : EvaluationResult
  right : EvaluationResult
deriving DecidableEq

def EvaluationComparison.mirror (evaluation : EvaluationComparison) : EvaluationComparison where
  left := evaluation.right
  right := evaluation.left

/-! ### Checks -/

inductive ComparisonValidationError where
  | emptyModification
  | invalidExecutableEvidence
  | duplicatePath (path : SnapshotPath)
  | nonCanonicalOrder (index : Nat)
  | invalidEvaluationCommands
deriving DecidableEq

instance : ToString ComparisonValidationError where
  toString
    | .emptyModification => "modified path contains no change evidence"
    | .invalidExecutableEvidence =>
      "executable evidence must be present exactly for regular files"
    | .duplicatePath path => s!"duplicate comparison path {path.display}"
    | .nonCanonicalOrder index =>
      s!"comparison paths are not in canonical order at index {index}"
    | .invalidEvaluationCommands => "comparison evaluations must use the same nonempty command"

/-- `FileChangeKind::validate`. -/
def FileChangeKind.validate : FileChangeKind → Except ComparisonValidationError Unit
  | .modified false none none none => .error .emptyModification
  | .added entryType executable | .deleted entryType executable =>
    if (entryType = .file ↔ executable.isSome = true) then
      .ok ()
    else
      .error .invalidExecutableEvidence
  | .modified _ _ _ _ => .ok ()

/-- The checks `from_canonical_parts` makes on the change at `index` and its predecessor. -/
def ComparisonResult.checkChange (previous : Option FileChange) (index : Nat)
    (change : FileChange) : Except ComparisonValidationError Unit := do
  change.change.validate
  match previous with
  | none => .ok ()
  | some previous =>
    if previous.path = change.path then
      .error (.duplicatePath change.path)
    else if change.path < previous.path then
      .error (.nonCanonicalOrder index)
    else
      .ok ()

/-- The loop of `from_canonical_parts`. -/
def ComparisonResult.checkChanges :
    Option FileChange → Nat → List FileChange → Except ComparisonValidationError Unit
  | _, _, [] => .ok ()
  | previous, index, change :: rest => do
    ComparisonResult.checkChange previous index change
    ComparisonResult.checkChanges (some change) (index + 1) rest

/-- What `from_canonical_parts` checks of an evaluation. -/
def EvaluationComparison.checkCommands (evaluation : EvaluationComparison) :
    Except ComparisonValidationError Unit :=
  if evaluation.left.command.isEmpty || evaluation.right.command.isEmpty
      || evaluation.left.command ≠ evaluation.right.command then
    .error .invalidEvaluationCommands
  else
    .ok ()

/-- A deterministic evidence report with no synthetic winner or quality score. -/
structure ComparisonResult where
  left : RunComparisonSummary
  right : RunComparisonSummary
  relationship : RunRelationship
  startingSnapshots : SnapshotComparison
  finalSnapshots : SnapshotComparison
  fileChanges : List FileChange
  evaluation : Option EvaluationComparison
  canonical : ComparisonResult.checkChanges none 0 fileChanges = .ok ()
  commands : ∀ comparison ∈ evaluation, comparison.checkCommands = .ok ()

namespace ComparisonResult

/-- `ComparisonResult::from_canonical_parts`. -/
def fromCanonicalParts (left right : RunComparisonSummary) (relationship : RunRelationship)
    (startingSnapshots finalSnapshots : SnapshotComparison) (fileChanges : List FileChange)
    (evaluation : Option EvaluationComparison) :
    Except ComparisonValidationError ComparisonResult :=
  match hchanges : checkChanges none 0 fileChanges with
  | .error error => .error error
  | .ok () =>
    match evaluation with
    | none =>
      .ok ⟨left, right, relationship, startingSnapshots, finalSnapshots, fileChanges, none,
        hchanges, by simp⟩
    | some comparison =>
      match hcommands : comparison.checkCommands with
      | .error error => .error error
      | .ok () =>
        .ok ⟨left, right, relationship, startingSnapshots, finalSnapshots, fileChanges,
          some comparison, hchanges, by simpa using hcommands⟩

/-- `ComparisonResult::new`: the changes in the order of their paths. -/
def new (left right : RunComparisonSummary) (relationship : RunRelationship)
    (startingSnapshots finalSnapshots : SnapshotComparison) (fileChanges : List FileChange)
    (evaluation : Option EvaluationComparison) :
    Except ComparisonValidationError ComparisonResult :=
  fromCanonicalParts left right relationship startingSnapshots finalSnapshots
    (fileChanges.insertionSort fun left right => left.path.text ≤ right.path.text) evaluation

end ComparisonResult

/-! ### Reports -/

/-- Changes of ascending paths, each with valid evidence. -/
structure CanonicalChanges (changes : List FileChange) : Prop where
  valid : ∀ change ∈ changes, change.change.validate = .ok ()
  ascending : changes.Pairwise fun change change' => change.path.text < change'.path.text

variable {changes : List FileChange}

theorem CanonicalChanges.tail {change : FileChange} (h : CanonicalChanges (change :: changes)) :
    CanonicalChanges changes where
  valid later hlater := h.valid later (List.mem_cons_of_mem _ hlater)
  ascending := (List.pairwise_cons.mp h.ascending).2

theorem ComparisonResult.checkChange_ok {previous : Option FileChange} {index : Nat}
    {change : FileChange} (hvalid : change.change.validate = .ok ())
    (hafter : ∀ p ∈ previous, p.path.text < change.path.text) :
    ComparisonResult.checkChange previous index change = .ok () := by
  unfold ComparisonResult.checkChange
  rw [hvalid]
  cases previous with
  | none => rfl
  | some previous =>
    have hlt : previous.path.text < change.path.text := hafter previous rfl
    have hne : previous.path ≠ change.path := by
      intro heq
      rw [heq] at hlt
      exact lt_irrefl _ hlt
    have hnot : ¬ change.path < previous.path := lt_asymm hlt
    show (if previous.path = change.path then _ else if change.path < previous.path then _ else _)
      = _
    rw [if_neg hne, if_neg hnot]

theorem ComparisonResult.checkChanges_ok {previous : Option FileChange} {index : Nat}
    (h : CanonicalChanges changes)
    (hafter : ∀ p ∈ previous, ∀ change ∈ changes, p.path.text < change.path.text) :
    ComparisonResult.checkChanges previous index changes = .ok () := by
  induction changes generalizing previous index with
  | nil => rfl
  | cons change rest ih =>
    have hfirst : ComparisonResult.checkChange previous index change = .ok () :=
      ComparisonResult.checkChange_ok (h.valid change (List.mem_cons_self ..))
        fun p hp => hafter p hp change (List.mem_cons_self ..)
    rw [ComparisonResult.checkChanges, hfirst]
    refine ih h.tail fun p hp => ?_
    obtain rfl : change = p := Option.some.inj hp
    exact (List.pairwise_cons.mp h.ascending).1

/-- Accepted changes are canonical. -/
theorem ComparisonResult.canonical_of_checkChanges {previous : Option FileChange} {index : Nat}
    (h : ComparisonResult.checkChanges previous index changes = .ok ()) :
    CanonicalChanges changes
      ∧ ∀ p ∈ previous, ∀ change ∈ changes, p.path.text < change.path.text := by
  induction changes generalizing previous index with
  | nil => exact ⟨⟨by simp, List.Pairwise.nil⟩, by simp⟩
  | cons change rest ih =>
    obtain ⟨_, hfirst, hrest⟩ := Except.bind_eq_ok_iff.mp h
    obtain ⟨hcanonical, hlater⟩ := ih hrest
    obtain ⟨_, hvalid, horder⟩ := Except.bind_eq_ok_iff.mp hfirst
    have hlater := hlater change rfl
    refine ⟨⟨List.forall_mem_cons.mpr ⟨hvalid, hcanonical.valid⟩,
      List.pairwise_cons.mpr ⟨hlater, hcanonical.ascending⟩⟩, ?_⟩
    rintro p hp
    obtain rfl : previous = some p := hp
    have hlt : p.path.text < change.path.text := by
      dsimp only at horder
      by_cases hsame : p.path = change.path
      · rw [if_pos hsame] at horder
        exact absurd horder (by simp)
      · by_cases hafter : change.path < p.path
        · rw [if_neg hsame, if_pos hafter] at horder
          exact absurd horder (by simp)
        · have hle : p.path.text ≤ change.path.text := not_lt.mp hafter
          exact lt_of_le_of_ne hle fun htext => hsame (SnapshotPath.text_injective htext)
    exact List.forall_mem_cons.mpr ⟨hlt, fun later hmem => lt_trans hlt (hlater later hmem)⟩

/-- A change seen from the other side keeps its validity. -/
theorem FileChangeKind.validate_mirror (kind : FileChangeKind) :
    kind.mirror.validate = kind.validate := by
  cases kind with
  | added entryType executable => rfl
  | deleted entryType executable => rfl
  | modified contentChanged entryType executable permissions =>
    cases contentChanged <;> cases entryType <;> cases executable <;> cases permissions <;> rfl

theorem CanonicalChanges.mirror (h : CanonicalChanges changes) :
    CanonicalChanges (changes.map (·.mirror)) where
  valid := by
    refine List.forall_mem_map.mpr fun change hchange => ?_
    show change.change.mirror.validate = .ok ()
    rw [FileChangeKind.validate_mirror]
    exact h.valid change hchange
  ascending := List.pairwise_map.mpr h.ascending

theorem EvaluationComparison.checkCommands_mirror {evaluation : EvaluationComparison}
    (h : evaluation.checkCommands = .ok ()) : evaluation.mirror.checkCommands = .ok () := by
  unfold EvaluationComparison.checkCommands EvaluationComparison.mirror at *
  by_cases hbad : evaluation.left.command.isEmpty || evaluation.right.command.isEmpty
      || evaluation.left.command ≠ evaluation.right.command
  · rw [if_pos hbad] at h
    exact absurd h (by simp)
  · refine if_neg fun hmirror => hbad ?_
    simp only [Bool.or_eq_true, decide_eq_true_eq] at hmirror ⊢
    tauto

namespace ComparisonResult

/-- The report of the same comparison with the two sides exchanged. -/
def mirror (report : ComparisonResult) : ComparisonResult where
  left := report.right
  right := report.left
  relationship := report.relationship.mirror
  startingSnapshots := report.startingSnapshots.mirror
  finalSnapshots := report.finalSnapshots.mirror
  fileChanges := report.fileChanges.map (·.mirror)
  evaluation := report.evaluation.map (·.mirror)
  canonical := checkChanges_ok (canonical_of_checkChanges report.canonical).1.mirror (by simp)
  commands := by
    intro comparison hcomparison
    obtain ⟨original, horiginal, rfl⟩ := Option.map_eq_some_iff.mp hcomparison
    exact EvaluationComparison.checkCommands_mirror (report.commands original horiginal)

variable {left right : RunComparisonSummary} {relationship : RunRelationship}
  {startingSnapshots finalSnapshots : SnapshotComparison}

/-- Canonical changes make a report, and it has these changes. -/
theorem new_eq_ok (h : CanonicalChanges changes) :
    new left right relationship startingSnapshots finalSnapshots changes none
      = .ok ⟨left, right, relationship, startingSnapshots, finalSnapshots, changes, none,
          checkChanges_ok h (by simp), by simp⟩ := by
  have hsorted : changes.insertionSort (fun left right => left.path.text ≤ right.path.text)
      = changes :=
    (h.ascending.imp fun hlt => le_of_lt hlt).insertionSort_eq
  have hchecked : checkChanges none 0 changes = .ok () := checkChanges_ok h (by simp)
  rw [new, hsorted, fromCanonicalParts]
  split
  · rename_i error herror
    rw [hchecked] at herror
    exact absurd herror (by simp)
  · rfl

end ComparisonResult

end Rewind
