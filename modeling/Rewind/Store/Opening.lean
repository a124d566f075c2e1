/-
Opening a store.

Any number of calls of `Store::open` and `Store::inspect_writer_lock` run beside each other, in any
processes, each one system call at a time.  A call that opens a store takes the kernel lock on
`writer.lock`, describes itself there, brings the schema up to date, interrupts the runs that an
earlier writer left, and then writes until it is dropped or its process ends.

* `Phase` — where a call stands; `World` — the lock file, the database and the calls;
* `World.turn` — what the next system call of a call does, with the moves it makes on the database;
* `World.Coherent` — the kernel lock belongs to the call that stands between taking and dropping it.
-/
import Mathlib.Logic.Function.Basic
import Rewind.Lib.Exclusive
import Rewind.Store.LockInfo
import Rewind.Store.Migration

namespace Rewind

namespace Opening

open Exclusive

/-! ### Calls -/

/-- Why an open or an inspection fails. -/
inductive OpenError where
  | io (operation : String) (source : Bytes)
  | lock (error : LockError)
  | locked (owner : LockInfo)
  | database (operation : String)
  | newerSchema (found supported : Nat)
  | migration (version : Nat)
  | schema (rejection : SchemaRejection)
  | recovery (error : StoreError)

/-- What `open_at` does between the lock and the migrations. -/
inductive Setup where
  | objects
  | inspecting
  | connecting (existed : Bool)
  | restricting
  | configuring
  | version

/-- How a call ends: an open store is dropped or its process dies, or the call returns. -/
inductive Outcome where
  | dropped
  | failed (error : OpenError)
  | notHeld
  | held (info : LockInfo)

/-- Where a call stands; `create` tells `Store::open` from an inspection. -/
inductive Phase where
  | idle
  | creating
  | opening (create : Bool)
  | opened (create : Bool)
  | locked
  | restricted
  | stamping (written : Nat)
  | preparing (setup : Setup)
  | migrating (pending : List Migration)
  | recovering
  | ready
  | probing
  | contended (create : Bool)
  | reading (create : Bool) (raw : Bytes)
  | finished (outcome : Outcome)

/-- Where a call stands towards the lock: it has not taken it, holds it on the way to an open store,
holds it with an open store, or is over. -/
inductive Standing where
  | outside
  | preparing
  | writing
  | ended
deriving DecidableEq

def Phase.standing : Phase → Standing
  | .locked | .restricted | .stamping _ | .preparing _ | .migrating _ | .recovering
  | .probing => .preparing
  | .ready => .writing
  | .finished _ => .ended
  | _ => .outside

theorem standing_eq_ended {phase : Phase} (h : phase.standing = .ended) :
    ∃ outcome, phase = .finished outcome := by
  cases phase with
  | finished outcome => exact ⟨outcome, rfl⟩
  | _ => exact absurd h (by simp [Phase.standing])

def Standing.holds (standing : Standing) : Bool :=
  decide (standing = .preparing ∨ standing = .writing)

/-! ### The shared state -/

/-- What stands at `writer.lock`: nothing, a regular file with its kernel lock, or something that
opening it as a lock refuses. -/
inductive LockNode (H : Type) where
  | missing
  | file (content : Bytes) (mode : UInt32) (owner : Option H)
  | other (refusal : Bytes)

def LockNode.owner {H : Type} : LockNode H → Option H
  | .file _ _ owner => owner
  | _ => none

def LockNode.content {H : Type} : LockNode H → Bytes
  | .file content _ _ => content
  | _ => []

def LockNode.setOwner {H : Type} (owner : Option H) : LockNode H → LockNode H
  | .file content mode _ => .file content mode owner
  | node => node

def LockNode.setContent {H : Type} (content : Bytes) : LockNode H → LockNode H
  | .file _ mode owner => .file content mode owner
  | node => node

def LockNode.setMode {H : Type} (mode : UInt32) : LockNode H → LockNode H
  | .file content _ owner => .file content mode owner
  | node => node

@[simp] theorem owner_setOwner_none (node : LockNode H) : (node.setOwner none).owner = none := by
  cases node <;> rfl

@[simp] theorem owner_setContent (node : LockNode H) (content : Bytes) :
    (node.setContent content).owner = node.owner := by
  cases node <;> rfl

@[simp] theorem owner_setMode (node : LockNode H) (mode : UInt32) :
    (node.setMode mode).owner = node.owner := by
  cases node <;> rfl

/-- The lock file, the metadata database and the calls. -/
structure World (H : Type) where
  node : LockNode H
  metadata : Option MetadataFile
  phase : H → Phase

/-- What the calls are made with. -/
structure Setting (H : Type) where
  codecs : Codecs
  lockPath : Bytes
  stamp : H → LockStamp
  nowUnixMs : H → Int64

/-- A transaction on the metadata database. -/
inductive Statement where
  | migrate (migration : Migration) (nowUnixMs : Int64)
  | request (request : Request)

/-- The database after a transaction; one that fails has changed nothing. -/
def effect (codecs : Codecs) (file : MetadataFile) : Statement → MetadataFile
  | .migrate migration nowUnixMs =>
    match migration.apply nowUnixMs file with
    | .ok file' => file'
    | .error _ => file
  | .request request => { file with db := step codecs file.db request }

/-- The database that a connection to the path finds. -/
def World.file {H : Type} (w : World H) : MetadataFile := w.metadata.getD .new

/-- Who holds the kernel lock, and the database. -/
def World.view {H : Type} (w : World H) : Guarded H MetadataFile := ⟨w.node.owner, w.file⟩

def World.standing {H : Type} (w : World H) (h : H) : Standing := (w.phase h).standing

/-- The kernel lock belongs to the call that stands between taking and dropping it. -/
def World.Coherent {H : Type} (w : World H) : Prop :=
  ∀ h, w.node.owner = some h ↔ (w.standing h).holds = true

/-- Two calls never hold the lock together. -/
theorem World.Coherent.exclusive {H : Type} {w : World H} (hw : w.Coherent) {h h' : H}
    (hholds : (w.standing h).holds = true) (hholds' : (w.standing h').holds = true) : h = h' :=
  Option.some.inj (((hw h).mpr hholds).symm.trans ((hw h').mpr hholds'))

/-- The world after a system call, with the moves that it makes. -/
abbrev Turn (H : Type) := World H × List (Move H Statement)

/-! ### System calls -/

section Calls

variable {H : Type} [DecidableEq H]

def World.enter (w : World H) (h : H) (phase : Phase) : Turn H :=
  ({ w with phase := Function.update w.phase h phase }, [])

/-- A call returns and closes its descriptors; the kernel drops a lock that one of them holds. -/
def World.finish (w : World H) (h : H) (outcome : Outcome) : Turn H :=
  if w.node.owner = some h then
    ({ w with
        node := w.node.setOwner none
        phase := Function.update w.phase h (.finished outcome) }, [.release h])
  else
    w.enter h (.finished outcome)

/-- `flock` returns 0. -/
def World.acquire (w : World H) (h : H) (phase : Phase) : Turn H :=
  ({ w with
      node := w.node.setOwner (some h)
      phase := Function.update w.phase h phase }, [.acquire h])

/-- A call changes the lock file. -/
def World.rewrite (w : World H) (h : H) (node : LockNode H) (phase : Phase) : Turn H :=
  ({ w with node, phase := Function.update w.phase h phase }, [])

/-- A transaction commits. -/
def World.perform (codecs : Codecs) (w : World H) (h : H) (statement : Statement)
    (phase : Phase) : Turn H :=
  ({ w with
      metadata := some (effect codecs w.file statement)
      phase := Function.update w.phase h phase }, [.act h statement])

/-- `try_open` and `try_open_existing` by their failures. -/
def lockOperation (create : Bool) : String :=
  if create then "acquire store writer lock" else "inspect store writer lock ownership"

/-- What a contended lock is reported as: an open is refused with the diagnostics or with a note
that there are none, an inspection returns them or fails. -/
def concluded (lockPath : Bytes) (create : Bool) (read : Except LockError LockInfo) : Outcome :=
  match create, read with
  | true, .ok info => .failed (.locked info)
  | true, .error error => .failed (.locked (unreadableLock lockPath error))
  | false, .ok info => .held info
  | false, .error error => .failed (.lock error)

/-- `write_all` at an offset. -/
def writeAt (content : Bytes) (offset : Nat) (chunk : Bytes) : Bytes :=
  content.take offset ++ chunk ++ content.drop (offset + chunk.length)

/-- `open(2)` on the lock file. -/
def World.openLock (w : World H) (h : H) (create : Bool) : Turn H :=
  match w.node with
  | .missing =>
    if create then w.rewrite h (.file [] 0o600 none) (.opened true) else w.finish h .notHeld
  | .file _ _ _ => w.enter h (.opened create)
  | .other refusal => w.finish h (.failed (.lock (.io (lockOperation create) refusal)))

/-- `flock(2)` with `LOCK_EX | LOCK_NB`. -/
def World.flock (w : World H) (h : H) (create : Bool) : Turn H :=
  match w.node with
  | .file _ _ none => w.acquire h (if create then .locked else .probing)
  | .file _ _ (some _) => w.enter h (.contended create)
  | _ => (w, [])

/-- `write_all` of the description, and `sync_all` once all of it is written. -/
def World.stamp (stamp : LockStamp) (w : World H) (h : H) (written count : Nat) : Turn H :=
  if written < (lockBody stamp).length then
    let chunk := ((lockBody stamp).drop written).take (count + 1)
    w.rewrite h (w.node.setContent (writeAt w.node.content written chunk))
      (.stamping (written + chunk.length))
  else
    w.enter h (.preparing .objects)

/-- From `ObjectStore::create` to the version check of `migrate`. -/
def World.prepare (w : World H) (h : H) : Setup → Turn H
  | .objects => w.enter h (.preparing .inspecting)
  | .inspecting => w.enter h (.preparing (.connecting w.metadata.isSome))
  | .connecting existed =>
    ({ w with
        metadata := some w.file
        phase := Function.update w.phase h
          (.preparing (if existed then .configuring else .restricting)) }, [])
  | .restricting => w.enter h (.preparing .configuring)
  | .configuring => w.enter h (.preparing .version)
  | .version =>
    if LATEST_SCHEMA_VERSION < w.file.userVersion then
      w.finish h (.failed (.newerSchema w.file.userVersion LATEST_SCHEMA_VERSION))
    else
      w.enter h (.migrating (pendingMigrations w.file))

/-- One transaction of `migrate`, and `verify` after the last one. -/
def World.migrate (setting : Setting H) (w : World H) (h : H) : List Migration → Turn H
  | [] =>
    match verify w.file with
    | .ok _ => w.enter h .recovering
    | .error rejection => w.finish h (.failed (.schema rejection))
  | migration :: rest =>
    match migration.apply (setting.nowUnixMs h) w.file with
    | .ok _ =>
      w.perform setting.codecs h (.migrate migration (setting.nowUnixMs h)) (.migrating rest)
    | .error _ => w.finish h (.failed (.migration migration.version))

/-- The recovery at the end of `open_at`. -/
def recoverRequest (nowUnixMs : Int64) : Request := ⟨.markInterruptedRuns ⟨nowUnixMs⟩, false⟩

def World.recover (setting : Setting H) (w : World H) (h : H) : Turn H :=
  match markInterruptedRuns w.file.db ⟨setting.nowUnixMs h⟩ with
  | .ok _ => w.perform setting.codecs h (.request (recoverRequest (setting.nowUnixMs h))) .ready
  | .error error => w.finish h (.failed (.recovery error))

/-- `File::open` and the bound on the file's length. -/
def World.measure (lockPath : Bytes) (w : World H) (h : H) (create : Bool) : Turn H :=
  match checkLockSize w.node.content.length with
  | .ok _ => w.enter h (.reading create [])
  | .error error => w.finish h (concluded lockPath create (.error error))

/-- One `read(2)` of `read_to_string`; the one that returns nothing is the last. -/
def World.read (lockPath : Bytes) (w : World H) (h : H) (create : Bool) (raw : Bytes)
    (count : Nat) : Turn H :=
  match (w.node.content.drop raw.length).take (count + 1) with
  | [] => w.finish h (concluded lockPath create (inspectContent raw))
  | chunk => w.enter h (.reading create (raw ++ chunk))

/-- The next system call of a call succeeds; `count` is how much a read or a write moves. -/
def World.advance (setting : Setting H) (w : World H) (h : H) (count : Nat) : Turn H :=
  match w.phase h with
  | .creating => w.enter h (.opening true)
  | .opening create => w.openLock h create
  | .opened create => w.flock h create
  | .locked => w.rewrite h (w.node.setMode 0o600) .restricted
  | .restricted => w.rewrite h (w.node.setContent []) (.stamping 0)
  | .stamping written => w.stamp (setting.stamp h) h written count
  | .preparing setup => w.prepare h setup
  | .migrating pending => w.migrate setting h pending
  | .recovering => w.recover setting h
  | .probing => w.finish h .notHeld
  | .contended create => w.measure setting.lockPath h create
  | .reading create raw => w.read setting.lockPath h create raw count
  | .idle | .ready | .finished _ => (w, [])

/-- How a step of the preparation fails. -/
def Setup.failure (source : Bytes) : Setup → OpenError
  | .objects => .io "create object directory" source
  | .inspecting => .io "inspect metadata database" source
  | .connecting _ => .database "open metadata database"
  | .restricting => .io "restrict metadata database permissions" source
  | .configuring => .database "configure writable database"
  | .version => .database "read schema version"

/-- How a call ends if its next system call fails. -/
def Phase.failure (lockPath source : Bytes) : Phase → Option Outcome
  | .creating => some (.failed (.io "create store directory" source))
  | .opening create | .opened create => some (.failed (.lock (.io (lockOperation create) source)))
  | .locked => some (.failed (.lock (.io (lockOperation true) source)))
  | .restricted | .stamping _ =>
    some (.failed (.lock (.io "persist store writer lock" source)))
  | .preparing setup => some (.failed (setup.failure source))
  | .migrating [] => some (.failed (.schema (.database "verify schema version")))
  | .migrating (migration :: _) => some (.failed (.migration migration.version))
  | .recovering => some (.failed (.database "commit interrupted-run recovery"))
  | .contended create =>
    some (concluded lockPath create (.error (.io "open store writer lock" source)))
  | .reading create _ =>
    some (concluded lockPath create (.error (.io "read store writer lock" source)))
  | .idle | .ready | .probing | .finished _ => none

/-! ### Turns -/

/-- What happens next: a call begins, its next system call succeeds or fails, a writer sends a
transaction, or a call is dropped or dies with its process. -/
inductive Action (H : Type) where
  | openStore (h : H)
  | inspect (h : H)
  | advance (h : H) (count : Nat)
  | fail (h : H) (source : Bytes)
  | request (h : H) (request : Request)
  | close (h : H)

def World.turn (setting : Setting H) (w : World H) : Action H → Turn H
  | .openStore h =>
    match w.phase h with
    | .idle => w.enter h .creating
    | _ => (w, [])
  | .inspect h =>
    match w.phase h with
    | .idle => w.enter h (.opening false)
    | _ => (w, [])
  | .advance h count => w.advance setting h count
  | .fail h source =>
    match (w.phase h).failure setting.lockPath source with
    | some outcome => w.finish h outcome
    | none => (w, [])
  | .request h request =>
    match w.phase h with
    | .ready => w.perform setting.codecs h (.request request) .ready
    | _ => (w, [])
  | .close h =>
    match w.phase h with
    | .idle | .finished _ => (w, [])
    | _ => w.finish h .dropped

def World.next (setting : Setting H) (w : World H) (action : Action H) : World H :=
  (w.turn setting action).1

def World.moves (setting : Setting H) (w : World H) (action : Action H) :
    List (Move H Statement) :=
  (w.turn setting action).2

/-- Before any call, with whatever stands at the lock path. -/
def World.initial (node : LockNode H) (metadata : Option MetadataFile) : World H :=
  ⟨node.setOwner none, metadata, fun _ => .idle⟩

/-! ### What a turn can do -/

/-- What a turn can do to the call it belongs to, to the lock and to the database. -/
inductive TurnCase (setting : Setting H) (w w' : World H) : List (Move H Statement) → Prop where
  | quiet (h : H) (others : ∀ h', h' ≠ h → w'.phase h' = w.phase h')
      (own : w'.standing h = w.standing h ∨ (w.standing h = .outside ∧ w'.standing h = .ended))
      (pending : ∀ pending, w'.phase h = .migrating pending →
        w.phase h = .migrating pending ∨ pending = pendingMigrations w.file)
      (view : w'.view = w.view) : TurnCase setting w w' []
  | acquire (h : H) (others : ∀ h', h' ≠ h → w'.phase h' = w.phase h')
      (free : w.node.owner = none) (before : w.standing h = .outside)
      (after : w'.standing h = .preparing) (pending : ∀ pending, w'.phase h ≠ .migrating pending)
      (view : w'.view = ⟨some h, w.file⟩) : TurnCase setting w w' [.acquire h]
  | release (h : H) (others : ∀ h', h' ≠ h → w'.phase h' = w.phase h')
      (held : w.node.owner = some h) (after : w'.standing h = .ended)
      (view : w'.view = ⟨none, w.file⟩) : TurnCase setting w w' [.release h]
  | migrate (h : H) (migration : Migration) (rest : List Migration)
      (others : ∀ h', h' ≠ h → w'.phase h' = w.phase h')
      (before : w.phase h = .migrating (migration :: rest)) (after : w'.phase h = .migrating rest)
      (view : w'.view = ⟨w.node.owner,
        effect setting.codecs w.file (.migrate migration (setting.nowUnixMs h))⟩) :
      TurnCase setting w w' [.act h (.migrate migration (setting.nowUnixMs h))]
  | recover (h : H) (others : ∀ h', h' ≠ h → w'.phase h' = w.phase h')
      (before : w.standing h = .preparing) (after : w'.standing h = .writing)
      (view : w'.view = ⟨w.node.owner,
        effect setting.codecs w.file (.request (recoverRequest (setting.nowUnixMs h)))⟩) :
      TurnCase setting w w' [.act h (.request (recoverRequest (setting.nowUnixMs h)))]
  | request (h : H) (request : Request) (others : ∀ h', h' ≠ h → w'.phase h' = w.phase h')
      (before : w.standing h = .writing) (after : w'.standing h = .writing)
      (view : w'.view = ⟨w.node.owner, effect setting.codecs w.file (.request request)⟩) :
      TurnCase setting w w' [.act h (.request request)]

variable {setting : Setting H} {w : World H} {h : H}

theorem others_update (phase : Phase) :
    ∀ h', h' ≠ h → Function.update w.phase h phase h' = w.phase h' :=
  fun _ hne => Function.update_of_ne hne phase w.phase

omit [DecidableEq H] in
theorem case_stay (h : H) : TurnCase setting w w [] :=
  .quiet h (fun _ _ => rfl) (Or.inl rfl) (fun _ hsame => Or.inl hsame) rfl

theorem case_rewrite {node : LockNode H} (howner : node.owner = w.node.owner) {phase : Phase}
    (hstanding : phase.standing = w.standing h)
    (hpending : ∀ pending, phase = .migrating pending → pending = pendingMigrations w.file) :
    TurnCase setting w (w.rewrite h node phase).1 (w.rewrite h node phase).2 := by
  refine .quiet h (others_update phase) (Or.inl ?_) (fun pending hphase => Or.inr ?_) ?_
  · show (Function.update w.phase h phase h).standing = _
    rw [Function.update_self, hstanding]
  · have hnew : Function.update w.phase h phase h = .migrating pending := hphase
    rw [Function.update_self] at hnew
    exact hpending pending hnew
  · show (⟨node.owner, w.file⟩ : Guarded H MetadataFile) = w.view
    rw [howner]
    rfl

theorem case_enter {phase : Phase} (hstanding : phase.standing = w.standing h)
    (hpending : ∀ pending, phase = .migrating pending → pending = pendingMigrations w.file) :
    TurnCase setting w (w.enter h phase).1 (w.enter h phase).2 := by
  have hcase : TurnCase setting w (w.rewrite h w.node phase).1 (w.rewrite h w.node phase).2 :=
    case_rewrite rfl hstanding hpending
  exact hcase

theorem case_finish (hw : w.Coherent) (hopen : w.standing h ≠ .ended) (outcome : Outcome) :
    TurnCase setting w (w.finish h outcome).1 (w.finish h outcome).2 := by
  have hended : (Function.update w.phase h (.finished outcome) h).standing = .ended := by
    rw [Function.update_self]
    rfl
  unfold World.finish
  split
  · rename_i howner
    refine .release h (others_update _) howner hended ?_
    show (⟨(w.node.setOwner none).owner, w.file⟩ : Guarded H MetadataFile) = _
    rw [owner_setOwner_none]
  · rename_i howner
    refine .quiet h (others_update _) (Or.inr ⟨?_, hended⟩) (fun pending hphase => ?_) rfl
    · -- who does not hold the lock and is not over has not taken it
      have hnot : (w.standing h).holds ≠ true := fun hholds => howner ((hw h).mpr hholds)
      cases hstanding : w.standing h with
      | outside => rfl
      | preparing => exact absurd rfl (hstanding ▸ hnot)
      | writing => exact absurd rfl (hstanding ▸ hnot)
      | ended => exact absurd hstanding hopen
    · have hnew : Function.update w.phase h (.finished outcome) h = .migrating pending := hphase
      rw [Function.update_self] at hnew
      exact absurd hnew (by simp)

theorem case_acquire {content : Bytes} {mode : UInt32} (hnode : w.node = .file content mode none)
    (hbefore : w.standing h = .outside) {phase : Phase} (hstanding : phase.standing = .preparing)
    (hpending : ∀ pending, phase ≠ .migrating pending) :
    TurnCase setting w (w.acquire h phase).1 (w.acquire h phase).2 := by
  refine .acquire h (others_update phase) (by rw [hnode]; rfl) hbefore ?_
    (fun pending hphase => ?_) ?_
  · show (Function.update w.phase h phase h).standing = _
    rw [Function.update_self, hstanding]
  · have hnew : Function.update w.phase h phase h = .migrating pending := hphase
    rw [Function.update_self] at hnew
    exact hpending pending hnew
  · show (⟨(w.node.setOwner (some h)).owner, w.file⟩ : Guarded H MetadataFile) = _
    rw [hnode]
    rfl

theorem case_openLock (hw : w.Coherent) {create : Bool} (hstanding : w.standing h = .outside) :
    TurnCase setting w (w.openLock h create).1 (w.openLock h create).2 := by
  have hopen : w.standing h ≠ .ended := by rw [hstanding]; decide
  unfold World.openLock
  split
  · rename_i hnode
    split
    · exact case_rewrite (by rw [hnode]; rfl) hstanding.symm nofun
    · exact case_finish hw hopen _
  · exact case_enter hstanding.symm nofun
  · exact case_finish hw hopen _

theorem case_flock {create : Bool} (hstanding : w.standing h = .outside) :
    TurnCase setting w (w.flock h create).1 (w.flock h create).2 := by
  unfold World.flock
  split
  · rename_i hnode
    exact case_acquire hnode hstanding (by cases create <;> rfl) (by cases create <;> simp)
  · exact case_enter hstanding.symm nofun
  · exact case_stay h

theorem case_stamp {stamp : LockStamp} {written count : Nat}
    (hstanding : w.standing h = .preparing) :
    TurnCase setting w (w.stamp stamp h written count).1 (w.stamp stamp h written count).2 := by
  unfold World.stamp
  split
  · exact case_rewrite (owner_setContent _ _) hstanding.symm nofun
  · exact case_enter hstanding.symm nofun

theorem case_prepare (hw : w.Coherent) (hstanding : w.standing h = .preparing) (setup : Setup) :
    TurnCase setting w (w.prepare h setup).1 (w.prepare h setup).2 := by
  cases setup with
  | connecting existed =>
    refine .quiet h (others_update _) (Or.inl ?_) (fun pending hphase => ?_) rfl
    · show (Function.update w.phase h _ h).standing = _
      rw [Function.update_self, hstanding]
      rfl
    · have hnew : Function.update w.phase h _ h = .migrating pending := hphase
      rw [Function.update_self] at hnew
      exact absurd hnew (by simp)
  | version =>
    rw [World.prepare]
    split
    · exact case_finish hw (by rw [hstanding]; decide) _
    · exact case_enter hstanding.symm fun _ hphase => (Phase.migrating.inj hphase).symm
  | objects => exact case_enter hstanding.symm nofun
  | inspecting => exact case_enter hstanding.symm nofun
  | restricting => exact case_enter hstanding.symm nofun
  | configuring => exact case_enter hstanding.symm nofun

theorem case_migrate (hw : w.Coherent) {pending : List Migration}
    (hphase : w.phase h = .migrating pending) :
    TurnCase setting w (w.migrate setting h pending).1 (w.migrate setting h pending).2 := by
  have hstanding : w.standing h = .preparing := by rw [World.standing, hphase]; rfl
  have hopen : w.standing h ≠ .ended := by rw [hstanding]; decide
  unfold World.migrate
  split
  · split
    · exact case_enter hstanding.symm nofun
    · exact case_finish hw hopen _
  · rename_i migration rest
    split
    · refine .migrate h migration rest (others_update _) hphase ?_ rfl
      show Function.update w.phase h _ h = _
      rw [Function.update_self]
    · exact case_finish hw hopen _

theorem case_recover (hw : w.Coherent) (hstanding : w.standing h = .preparing) :
    TurnCase setting w (w.recover setting h).1 (w.recover setting h).2 := by
  unfold World.recover
  split
  · refine .recover h (others_update _) hstanding ?_ rfl
    show (Function.update w.phase h _ h).standing = _
    rw [Function.update_self]
    rfl
  · exact case_finish hw (by rw [hstanding]; decide) _

theorem case_measure (hw : w.Coherent) {create : Bool} (hstanding : w.standing h = .outside) :
    TurnCase setting w (w.measure setting.lockPath h create).1
      (w.measure setting.lockPath h create).2 := by
  unfold World.measure
  split
  · exact case_enter hstanding.symm nofun
  · exact case_finish hw (by rw [hstanding]; decide) _

theorem case_read (hw : w.Coherent) {create : Bool} {raw : Bytes} {count : Nat}
    (hstanding : w.standing h = .outside) :
    TurnCase setting w (w.read setting.lockPath h create raw count).1
      (w.read setting.lockPath h create raw count).2 := by
  unfold World.read
  split
  · exact case_finish hw (by rw [hstanding]; decide) _
  · exact case_enter hstanding.symm nofun

/-- A system call that succeeds. -/
theorem case_advance (hw : w.Coherent) (count : Nat) :
    TurnCase setting w (w.advance setting h count).1 (w.advance setting h count).2 := by
  have hphase : w.standing h = (w.phase h).standing := rfl
  unfold World.advance
  cases hcall : w.phase h <;> rw [hcall] at hphase
  case creating => exact case_enter hphase.symm nofun
  case opening create => exact case_openLock hw hphase
  case opened create => exact case_flock hphase
  case locked => exact case_rewrite (owner_setMode _ _) hphase.symm nofun
  case restricted => exact case_rewrite (owner_setContent _ _) hphase.symm nofun
  case stamping written => exact case_stamp hphase
  case preparing setup => exact case_prepare hw hphase setup
  case migrating pending => exact case_migrate hw hcall
  case recovering => exact case_recover hw hphase
  case probing => exact case_finish hw (by rw [hphase]; decide) _
  case contended create => exact case_measure hw hphase
  case reading create raw => exact case_read hw hphase
  all_goals exact case_stay h

/-- Whatever happens next. -/
theorem case_turn (hw : w.Coherent) (action : Action H) :
    TurnCase setting w (w.next setting action) (w.moves setting action) := by
  unfold World.next World.moves
  cases action with
  | openStore h =>
    rw [World.turn]
    split
    · rename_i hphase
      exact case_enter (by rw [World.standing, hphase]; rfl) nofun
    · exact case_stay h
  | inspect h =>
    rw [World.turn]
    split
    · rename_i hphase
      exact case_enter (by rw [World.standing, hphase]; rfl) nofun
    · exact case_stay h
  | advance h count => exact case_advance hw count
  | fail h source =>
    rw [World.turn]
    split
    · rename_i outcome houtcome
      refine case_finish hw (fun hended => ?_) outcome
      obtain ⟨outcome', hphase⟩ := standing_eq_ended hended
      rw [hphase] at houtcome
      exact absurd houtcome (by simp [Phase.failure])
    · exact case_stay h
  | request h request =>
    rw [World.turn]
    split
    · rename_i hphase
      have hwriting : w.standing h = .writing := by rw [World.standing, hphase]; rfl
      refine .request h request (others_update _) hwriting ?_ rfl
      show (Function.update w.phase h _ h).standing = _
      rw [Function.update_self]
      rfl
    · exact case_stay h
  | close h =>
    rw [World.turn]
    split
    · exact case_stay h
    · exact case_stay h
    · rename_i hrunning
      refine case_finish hw (fun hended => ?_) _
      obtain ⟨outcome', hphase⟩ := standing_eq_ended hended
      exact hrunning outcome' hphase

/-! ### The kernel lock -/

omit [DecidableEq H] in
theorem coherent_initial (node : LockNode H) (metadata : Option MetadataFile) :
    (World.initial node metadata).Coherent := by
  intro h
  simp [World.initial, World.standing, Phase.standing, Standing.holds]

theorem coherent_of_others {w' : World H} (hw : w.Coherent)
    (others : ∀ h', h' ≠ h → w'.phase h' = w.phase h')
    (howner : ∀ h', h' ≠ h → (w'.node.owner = some h' ↔ w.node.owner = some h'))
    (hown : w'.node.owner = some h ↔ (w'.standing h).holds = true) : w'.Coherent := by
  intro h'
  by_cases heq : h' = h
  · rw [heq]
    exact hown
  · rw [howner h' heq, World.standing, others h' heq]
    exact hw h'

/-- A turn leaves the lock with its holder. -/
theorem TurnCase.coherent {w' : World H} {moves : List (Move H Statement)} (hw : w.Coherent)
    (hcase : TurnCase setting w w' moves) : w'.Coherent := by
  have hsame : ∀ {h : H} {file : MetadataFile}, w'.view = ⟨w.node.owner, file⟩ →
      (w'.standing h).holds = (w.standing h).holds →
      (w'.node.owner = some h ↔ (w'.standing h).holds = true) := by
    intro h file view hholds
    rw [show w'.node.owner = w.node.owner from congrArg Guarded.owner view, hholds]
    exact hw h
  have hkept : ∀ {h : H} {file : MetadataFile}, w'.view = ⟨w.node.owner, file⟩ →
      ∀ h', h' ≠ h → (w'.node.owner = some h' ↔ w.node.owner = some h') := by
    intro h file view h' _
    rw [show w'.node.owner = w.node.owner from congrArg Guarded.owner view]
  cases hcase with
  | quiet h others own pending view =>
    refine coherent_of_others hw others (hkept view) (hsame view ?_)
    rcases own with hstay | ⟨hbefore, hafter⟩
    · rw [hstay]
    · rw [hbefore, hafter]
      rfl
  | acquire h others free before after pending view =>
    have howner : w'.node.owner = some h := congrArg Guarded.owner view
    refine coherent_of_others hw others (fun h' hne => ?_) ?_
    · rw [howner, free]
      simp [Ne.symm hne]
    · rw [howner, after]
      simp [Standing.holds]
  | release h others held after view =>
    have howner : w'.node.owner = none := congrArg Guarded.owner view
    refine coherent_of_others hw others (fun h' hne => ?_) ?_
    · rw [howner, held]
      simp [Ne.symm hne]
    · rw [howner, after]
      simp [Standing.holds]
  | migrate h migration rest others before after view =>
    refine coherent_of_others hw others (hkept view) (hsame view ?_)
    rw [World.standing, World.standing, before, after]
    rfl
  | recover h others before after view =>
    exact coherent_of_others hw others (hkept view) (hsame view (by rw [before, after]; rfl))
  | request h request others before after view =>
    exact coherent_of_others hw others (hkept view) (hsame view (by rw [before, after]))

omit [DecidableEq H] in
/-- A turn shows as its moves, and they are legal. -/
theorem TurnCase.refines {w' : World H} {moves : List (Move H Statement)} (hw : w.Coherent)
    (hcase : TurnCase setting w w' moves) :
    w'.view = Machine.run (Exclusive.step (effect setting.codecs)) w.view moves
      ∧ Machine.Meets (Exclusive.step (effect setting.codecs)) Legal w.view moves := by
  have hheld : ∀ {h : H}, w.standing h = .preparing ∨ w.standing h = .writing →
      w.node.owner = some h := by
    intro h hstanding
    refine (hw h).mpr ?_
    exact decide_eq_true hstanding
  cases hcase with
  | quiet h others own pending view => exact ⟨view, trivial⟩
  | acquire h others free before after pending view => exact ⟨view, free, trivial⟩
  | release h others held after view => exact ⟨view, held, trivial⟩
  | migrate h migration rest others before after view =>
    exact ⟨view, hheld (Or.inl (congrArg Phase.standing before)), trivial⟩
  | recover h others before after view => exact ⟨view, hheld (Or.inl before), trivial⟩
  | request h request others before after view => exact ⟨view, hheld (Or.inr before), trivial⟩

end Calls

/-- Two calls of two processes. -/
def Sample.pair : Setting (Fin 2) where
  codecs := Rewind.Sample.codecs
  lockPath := utf8 "/store/writer.lock"
  stamp h := ⟨UInt32.ofNat (h.val + 1), 1000000, 0⟩
  nowUnixMs _ := 1

end Opening

end Rewind
