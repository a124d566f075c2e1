/-
Databases of reachable stores.

An operation on the disk changes the database in one transaction at most, and by a statement of the
writer.  So what the statements establish holds over every run of the store, whatever fails and
wherever it crashes.

* **`StatementsRelate.diskRun`** — the rule;
* `wellFormed_reachable` — the timelines of a reachable store are journals.
-/
import Rewind.Store.Disk
import Rewind.Store.Timeline

namespace Rewind

open Call

/-- A property of the database of a disk. -/
def OnDb (I : Db → Prop) (d : Disk) : Prop := I d.db

section Keeps

variable {codecs : Codecs} {plan : FaultPlan} {I : Db → Prop}

theorem keepsDb_inspect {α : Type} {operation : String} {f : Disk → StoreResult α} :
    Keeps (OnDb I) (DiskCall.inspect plan operation f) :=
  spec_inspect (fun _ hd => hd) fun _ _ hd _ => hd

theorem keepsDb_ofResult {α : Type} {result : StoreResult α} :
    Keeps (OnDb I) (DiskCall.ofResult result) :=
  spec_ofResult (fun _ hd => hd) fun _ _ hd _ => hd

theorem keepsDb_onFiles {operation : String} {f : Files → StoreResult Files} :
    Keeps (OnDb I) (DiskCall.onFiles plan operation f) :=
  spec_onFiles (fun _ hd => hd) fun _ _ hd _ => hd

theorem keepsDb_commit {operation : String} {f : Db → StoreResult Db}
    (hf : ∀ db db', I db → f db = .ok db' → I db') :
    Keeps (OnDb I) (DiskCall.commit plan operation f) :=
  spec_commit (fun _ hd => hd) fun d db hd h => hf d.db db hd h

theorem keepsDb_createTemp (directory : Bytes) :
    Keeps (OnDb I) (createTemp plan directory) := by
  refine spec_step (fun _ hd => hd) fun d path db files hd h => ?_
  split at h
  · obtain ⟨-, rfl, -⟩ := by simpa using h
    exact hd
  · exact nomatch h

theorem keepsDb_writeTemp (path : ObjectPath) (envelope : Bytes) :
    Keeps (OnDb I) (writeTemp plan path envelope) := by
  intro d hd
  unfold writeTemp
  rw [exec_ofFun]
  cases plan.fault d.tick <;> exact hd

theorem keepsDb_hardLink (existing new : ObjectPath) :
    Keeps (OnDb I) (hardLink plan existing new) := by
  refine spec_step (fun _ hd => hd) fun d linked db files hd h => ?_
  split at h
  · split at h
    · obtain ⟨-, rfl, -⟩ := by simpa using h
      exact hd
    · obtain ⟨-, rfl, -⟩ := by simpa using h
      exact hd
  · exact nomatch h

theorem keepsDb_rescue {α : Type} {m : DiskCall α} (h : Keeps (OnDb I) m) :
    Keeps (OnDb I) (DiskCall.rescue m) :=
  spec_rescue (h.imp (fun _ hd => hd) (fun _ _ hd => hd) fun _ hd => ⟨hd, fun _ => hd⟩)

theorem keepsDb_verifyExisting (id : ObjectId) (bytes : Bytes) :
    Keeps (OnDb I) (verifyExisting plan codecs id bytes) := by
  refine keeps_bind keepsDb_inspect fun content => ?_
  refine keeps_bind keepsDb_ofResult fun payload => ?_
  exact keeps_bind keepsDb_ofResult fun _ => keeps_pure _

/-- A publication leaves the database alone. -/
theorem keepsDb_putVerified (expected : ObjectId) (bytes : Bytes) :
    Keeps (OnDb I) (putVerified plan codecs expected bytes) := by
  refine keeps_bind keepsDb_ofResult fun _ => ?_
  refine keeps_bind keepsDb_onFiles fun _ => ?_
  refine keeps_bind keepsDb_inspect fun present => ?_
  refine spec_ite (fun _ => keepsDb_verifyExisting expected bytes) fun _ => ?_
  refine keeps_bind keepsDb_ofResult fun envelope => ?_
  refine keeps_bind (keepsDb_createTemp _) fun temp => ?_
  refine keeps_bind (keepsDb_rescue ?_) fun install => ?_
  · refine keeps_bind (keepsDb_writeTemp temp envelope) fun _ => ?_
    refine keeps_bind keepsDb_onFiles fun _ => ?_
    refine keeps_bind (keepsDb_hardLink temp _) fun linked => ?_
    refine spec_ite (fun _ => keepsDb_onFiles) fun _ => ?_
    exact keeps_bind (keepsDb_verifyExisting expected bytes) fun _ => keeps_pure _
  · refine keeps_bind (keepsDb_rescue keepsDb_onFiles) fun cleanup => ?_
    rcases install with error | _
    · exact keeps_throw _
    · rcases cleanup with error | _
      · exact keeps_throw _
      · exact keeps_pure _

theorem keepsDb_importObject
    (hrecord : ∀ db db' stored createdUnixMs, I db →
      Rewind.recordObject db stored createdUnixMs = .ok db' → I db')
    (expected : ObjectId) (bytes : Bytes) (createdUnixMs : Int64) :
    Keeps (OnDb I) (importObject plan codecs expected bytes createdUnixMs) := by
  refine keeps_bind (keepsDb_putVerified expected bytes) fun stored => ?_
  exact keeps_bind (keepsDb_commit fun db db' => hrecord db db' stored createdUnixMs)
    fun _ => keeps_pure _

/-- The row goes by the statement that was checked before the file went. -/
theorem keepsDb_deleteObject
    (hdelete : ∀ db db' id, I db → deleteObjectRow db id = .ok db' → I db') (id : ObjectId) :
    Keeps (OnDb I) (deleteObject plan id) := by
  refine spec_bind (Q := fun storedSize => OnDb fun db => I db
    ∧ checkDeletable db id = .ok storedSize)
    (spec_inspect (fun _ hd => hd) fun _ _ hd hcheck => ⟨hd, hcheck⟩) fun storedSize => ?_
  refine spec_bind (Q := fun _ => OnDb fun db => I db ∧ checkDeletable db id = .ok storedSize)
    (spec_onFiles (fun _ hd => hd.1) fun _ _ hd _ => hd) fun _ => ?_
  refine spec_bind (Q := fun _ => OnDb I) ?_ fun _ => keeps_pure _
  refine spec_commit (fun _ hd => hd.1) fun d db hd h => hdelete d.db db id hd.1 ?_
  exact Except.bind_eq_ok_iff.mpr ⟨storedSize, hd.2, h⟩

end Keeps

/-! ### Runs of the store -/

variable {codecs : Codecs} {R : Db → Db → Prop}

/-- What the statements establish, every operation on the disk establishes. -/
theorem StatementsRelate.diskStep (hR : StatementsRelate codecs R) (plan : FaultPlan) (d : Disk)
    (op : StoreOp) : R d.db (diskStep plan codecs d op).db := by
  have hrecord : ∀ db db' stored createdUnixMs, R d.db db →
      Rewind.recordObject db stored createdUnixMs = .ok db' → R d.db db' :=
    fun db db' stored createdUnixMs hdb h => hR.trans hdb (hR.recordObject h)
  have hkeeps : Keeps (OnDb (R d.db)) (op.exec plan codecs) := by
    cases op with
    | transaction op hop => exact keepsDb_commit fun db db' hdb h => hR.trans hdb (hR.exec h)
    | putObject bytes createdUnixMs =>
      exact keeps_bind (keepsDb_importObject hrecord _ bytes createdUnixMs) fun _ => keeps_pure _
    | importObject expected bytes createdUnixMs =>
      exact keeps_bind (keepsDb_importObject hrecord expected bytes createdUnixMs)
        fun _ => keeps_pure _
    | deleteObject id =>
      refine keeps_bind (keepsDb_deleteObject ?_ id) fun _ => keeps_pure _
      exact fun db db' id hdb h => hR.trans hdb (hR.deleteObject h)
    | deletePhysicalOrphan orphan =>
      refine keeps_bind (keeps_bind keepsDb_inspect fun _ => ?_) fun _ => keeps_pure _
      refine keeps_bind keepsDb_ofResult fun _ => ?_
      exact keeps_bind keepsDb_onFiles fun _ => keeps_pure _
  exact hkeeps.state (hR.refl d.db)

/-- **What the statements establish** holds over every run of the store. -/
theorem StatementsRelate.diskRun (hR : StatementsRelate codecs R) (plan : FaultPlan) (d : Disk)
    (ops : List StoreOp) : R d.db (Machine.run (Rewind.diskStep plan codecs) d ops).db :=
  Machine.run_rel (R := fun d d' => R d.db d'.db) (fun d => hR.refl d.db)
    (fun _ _ _ => hR.trans) (hR.diskStep plan) d ops

/-- Some run of the store, with some faults and crashes, ends in this disk. -/
def Disk.Reachable (codecs : Codecs) (d : Disk) : Prop :=
  ∃ plan ops, d = Machine.run (Rewind.diskStep plan codecs) Disk.empty ops

/-- The database of a reachable store is well formed. -/
theorem wellFormed_reachable {d : Disk} (h : d.Reachable codecs) : d.db.WellFormed := by
  obtain ⟨plan, ops, rfl⟩ := h
  exact ((statements_keepTimelines codecs).diskRun plan Disk.empty ops wellFormed_empty).1

end Rewind
