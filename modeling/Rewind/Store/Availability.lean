/-
A free lock opens.

Whatever earlier calls have left behind, a lock file with the description of a dead process, half a
description, a schema between two migrations or runs that nobody ended, the next call that finds the
kernel lock free comes to an open store.

* `World.Versioned` — the schema is between two migrations, and a call that migrates is about to
  apply those that are left;
* `Inevitable` — from a phase on, a call that does not fail comes to an open store;
* **`open_succeeds`** — an open on a free lock succeeds after any history.
-/
import Rewind.Store.Exclusion

namespace Rewind

namespace Opening

open Exclusive

variable {H : Type} {setting : Setting H}

/-! ### The schema between two turns -/

/-- The schema is between two migrations; who migrates is about to apply the ones that are left. -/
def World.Versioned (w : World H) : Prop :=
  ∃ count, w.file.AtVersion count
    ∧ ∀ h pending, w.phase h = .migrating pending → pending = MIGRATIONS.drop count

theorem versioned_initial (node : LockNode H) : (World.initial node none).Versioned :=
  ⟨0, atVersion_new, fun _ _ hphase => absurd hphase (by simp [World.initial])⟩

section Turns

variable {w w' : World H}

/-- A turn of a call that does not migrate. -/
theorem versioned_of_others {count : Nat} {h : H} (hat : w'.file.AtVersion count)
    (hpending : ∀ h pending, w.phase h = .migrating pending → pending = MIGRATIONS.drop count)
    (others : ∀ h', h' ≠ h → w'.phase h' = w.phase h')
    (hown : ∀ pending, w'.phase h = .migrating pending → pending = MIGRATIONS.drop count) :
    w'.Versioned := by
  refine ⟨count, hat, fun h' pending hphase => ?_⟩
  by_cases heq : h' = h
  · rw [heq] at hphase
    exact hown pending hphase
  · rw [others h' heq] at hphase
    exact hpending h' pending hphase

theorem not_migrating {h : H} {standing : Standing} (hstanding : w.standing h = standing)
    (hne : standing ≠ .preparing) (pending : List Migration) : w.phase h ≠ .migrating pending := by
  intro hphase
  rw [World.standing, hphase] at hstanding
  exact hne hstanding.symm

theorem TurnCase.versioned {moves : List (Move H Statement)} (hw : w.Coherent) (hv : w.Versioned)
    (hcase : TurnCase setting w w' moves) : w'.Versioned := by
  obtain ⟨count, hat, hpending⟩ := hv
  cases hcase with
  | quiet h others own pending view =>
    have hfile : w'.file = w.file := congrArg Guarded.resource view
    refine versioned_of_others (hfile ▸ hat) hpending others fun rest hphase => ?_
    rcases pending rest hphase with hsame | hnew
    · exact hpending h rest hsame
    · rw [hnew, hat.pending]
  | acquire h others free before after pending view =>
    have hfile : w'.file = w.file := congrArg Guarded.resource view
    exact versioned_of_others (hfile ▸ hat) hpending others fun rest hphase =>
      absurd hphase (pending rest)
  | release h others held after view =>
    have hfile : w'.file = w.file := congrArg Guarded.resource view
    exact versioned_of_others (hfile ▸ hat) hpending others fun rest hphase =>
      absurd hphase (not_migrating after (by decide) rest)
  | migrate h migration rest others before after view =>
    have hnext : MIGRATIONS.drop count = migration :: rest := (hpending h _ before).symm
    obtain ⟨file', happly, hat', -⟩ := hat.apply_next hnext (setting.nowUnixMs h)
    have hfile : w'.file = file' := by
      have hresource : w'.file = effect setting.codecs w.file
          (.migrate migration (setting.nowUnixMs h)) := congrArg Guarded.resource view
      rw [hresource, effect, happly]
    refine ⟨count + 1, hfile ▸ hat', fun h' rest' hphase => ?_⟩
    by_cases heq : h' = h
    · rw [heq, after] at hphase
      obtain rfl : rest = rest' := Phase.migrating.inj hphase
      rw [← List.drop_drop, hnext]
      rfl
    · -- two calls that migrate would hold the lock together
      rw [others h' heq] at hphase
      have hholds : (w.standing h').holds = true := by rw [World.standing, hphase]; rfl
      have hheld : (w.standing h).holds = true := by rw [World.standing, before]; rfl
      exact absurd (hw.exclusive hholds hheld) heq
  | recover h others before after view =>
    have hfile : w'.file = _ := congrArg Guarded.resource view
    rw [effect] at hfile
    exact versioned_of_others (hfile ▸ hat.of_db _) hpending others fun rest hphase =>
      absurd hphase (not_migrating after (by decide) rest)
  | request h request others before after view =>
    have hfile : w'.file = _ := congrArg Guarded.resource view
    rw [effect] at hfile
    exact versioned_of_others (hfile ▸ hat.of_db _) hpending others fun rest hphase =>
      absurd hphase (not_migrating after (by decide) rest)

theorem versioned_run [DecidableEq H] (node : LockNode H) (actions : List (Action H)) :
    (Machine.run (World.next setting) (World.initial node none) actions).Versioned := by
  have hstep : ∀ (w : World H) (action : Action H), w.Coherent ∧ w.Versioned →
      (w.next setting action).Coherent ∧ (w.next setting action).Versioned := by
    rintro w action ⟨hw, hv⟩
    have hcase : TurnCase setting w (w.next setting action) (w.moves setting action) :=
      case_turn hw action
    exact ⟨hcase.coherent hw, hcase.versioned hw hv⟩
  exact (Machine.run_invariant hstep
    ⟨coherent_initial node none, versioned_initial node⟩ actions).2

end Turns

/-! ### A call that does not fail -/

section Alone

variable [DecidableEq H] {w : World H} {h : H} {file : MetadataFile}

/-- The call has an open store, at the latest version and recovered from `db`. -/
structure Opened (setting : Setting H) (h : H) (db : Db) (w : World H) : Prop where
  ready : w.phase h = .ready
  verified : verify w.file = .ok ()
  recovered : w.file.db = step setting.codecs db (recoverRequest (setting.nowUnixMs h))

/-- The next system call of `h` succeeds, whatever it moves. -/
def Advances (h : H) (action : Action H) : Prop := ∃ count, action = .advance h count

/-- From a phase on, with this database, the call comes to an open store. -/
def Inevitable (setting : Setting H) (h : H) (file : MetadataFile) (phase : Phase) : Prop :=
  ∀ w : World H, w.phase h = phase → w.file = file →
    Machine.Leads (World.next setting) (Advances h) (Opened setting h file.db) w

theorem leads_of_advance {P : World H → Prop}
    (hnext : ∀ count, Machine.Leads (World.next setting) (Advances h) P
      (w.advance setting h count).1) :
    Machine.Leads (World.next setting) (Advances h) P w := by
  refine .next ?_
  rintro action ⟨count, rfl⟩
  exact hnext count

/-- A phase whose system calls lead to phases with the same database. -/
theorem inevitable_of_next {phase : Phase}
    (hnext : ∀ (w : World H) (count : Nat), w.phase h = phase → w.file = file →
      ∃ phase', Inevitable setting h file phase'
        ∧ (w.advance setting h count).1.phase h = phase'
        ∧ (w.advance setting h count).1.file = file) :
    Inevitable setting h file phase := by
  intro w hphase hfile
  refine leads_of_advance fun count => ?_
  obtain ⟨phase', hinevitable, hphase', hfile'⟩ := hnext w count hphase hfile
  exact hinevitable _ hphase' hfile'

theorem inevitable_recovering (hat : file.AtVersion MIGRATIONS.length)
    (hdb : file.db.Recoverable) : Inevitable setting h file .recovering := by
  rintro w hphase rfl
  refine leads_of_advance fun count => .here ?_
  have hadvance : w.advance setting h count = w.perform setting.codecs h
      (.request (recoverRequest (setting.nowUnixMs h))) .ready := by
    rw [World.advance, hphase]
    show w.recover setting h = _
    rw [World.recover, markInterruptedRuns_eq hdb.readable]
  rw [hadvance]
  refine ⟨Function.update_self .., ?_, rfl⟩
  exact (hat.of_db _).verify_iff.mpr rfl

/-- The migrations that are left apply, one after the other. -/
theorem inevitable_migrating {pending : List Migration} {count : Nat} (hat : file.AtVersion count)
    (hpending : pending = MIGRATIONS.drop count) (hdb : file.db.Recoverable) :
    Inevitable setting h file (.migrating pending) := by
  induction pending generalizing file count with
  | nil =>
    have hcount : count = MIGRATIONS.length :=
      le_antisymm hat.count_le (List.drop_eq_nil_iff.mp hpending.symm)
    refine inevitable_of_next fun w _ hphase hfile => ⟨.recovering,
      inevitable_recovering (hcount ▸ hat) hdb, ?_⟩
    have hverify : verify w.file = .ok () := by
      rw [hfile]
      exact hat.verify_iff.mpr hcount
    rw [World.advance, hphase]
    show (w.migrate setting h []).1.phase h = _ ∧ (w.migrate setting h []).1.file = _
    rw [World.migrate, hverify]
    exact ⟨Function.update_self .., hfile⟩
  | cons migration rest ih =>
    rintro w hphase rfl
    obtain ⟨file', happly, hat', hsame⟩ := hat.apply_next hpending.symm (setting.nowUnixMs h)
    have hrest : rest = MIGRATIONS.drop (count + 1) := by
      rw [← List.drop_drop, ← hpending]
      rfl
    refine leads_of_advance fun moved => ?_
    have hadvance : w.advance setting h moved = w.perform setting.codecs h
        (.migrate migration (setting.nowUnixMs h)) (.migrating rest) := by
      rw [World.advance, hphase]
      show w.migrate setting h (migration :: rest) = _
      rw [World.migrate, happly]
    have hfile : (w.advance setting h moved).1.file = file' := by
      rw [hadvance]
      show effect setting.codecs w.file (.migrate migration (setting.nowUnixMs h)) = file'
      rw [effect, happly]
    have hphase' : (w.advance setting h moved).1.phase h = .migrating rest := by
      rw [hadvance]
      exact Function.update_self ..
    rw [← hsame]
    exact ih hat' hrest (hsame ▸ hdb) _ hphase' hfile

/-- From the objects directory to the version check. -/
theorem inevitable_preparing {count : Nat} (hat : file.AtVersion count)
    (hdb : file.db.Recoverable) (setup : Setup) :
    Inevitable setting h file (.preparing setup) := by
  have hversion : Inevitable setting h file (.preparing .version) := by
    refine inevitable_of_next fun w _ hphase hfile => ⟨.migrating (MIGRATIONS.drop count),
      inevitable_migrating hat rfl hdb, ?_⟩
    have hlatest : ¬ LATEST_SCHEMA_VERSION < w.file.userVersion := by
      rw [hfile]
      exact not_lt.mpr hat.le_latest
    rw [World.advance, hphase]
    show (w.prepare h .version).1.phase h = _ ∧ (w.prepare h .version).1.file = _
    rw [World.prepare, if_neg hlatest, hfile, hat.pending]
    exact ⟨Function.update_self .., hfile⟩
  have henter : ∀ {setup next : Setup}, Inevitable setting h file (.preparing next) →
      (∀ w : World H, w.prepare h setup = w.enter h (.preparing next)) →
      Inevitable setting h file (.preparing setup) := by
    intro setup next hnext hprepare
    refine inevitable_of_next fun w _ hphase hfile => ⟨_, hnext, ?_⟩
    rw [World.advance, hphase]
    show (w.prepare h setup).1.phase h = _ ∧ (w.prepare h setup).1.file = _
    rw [hprepare]
    exact ⟨Function.update_self .., hfile⟩
  have hconfiguring : Inevitable setting h file (.preparing .configuring) :=
    henter hversion fun _ => rfl
  have hrestricting : Inevitable setting h file (.preparing .restricting) :=
    henter hconfiguring fun _ => rfl
  have hconnecting : ∀ existed, Inevitable setting h file (.preparing (.connecting existed)) := by
    intro existed
    refine inevitable_of_next fun w _ hphase hfile =>
      ⟨.preparing (if existed then .configuring else .restricting), ?_, ?_⟩
    · cases existed
      · exact hrestricting
      · exact hconfiguring
    · rw [World.advance, hphase]
      exact ⟨Function.update_self .., hfile⟩
  have hinspecting : Inevitable setting h file (.preparing .inspecting) := by
    refine inevitable_of_next fun w _ hphase hfile =>
      ⟨_, hconnecting w.metadata.isSome, ?_⟩
    rw [World.advance, hphase]
    exact ⟨Function.update_self .., hfile⟩
  cases setup with
  | objects => exact henter hinspecting fun _ => rfl
  | inspecting => exact hinspecting
  | connecting existed => exact hconnecting existed
  | restricting => exact hrestricting
  | configuring => exact hconfiguring
  | version => exact hversion

/-- Every write moves a byte of the description at least. -/
theorem inevitable_stamping {count : Nat} (hat : file.AtVersion count)
    (hdb : file.db.Recoverable) (written : Nat) :
    Inevitable setting h file (.stamping written) := by
  induction hleft : (lockBody (setting.stamp h)).length - written using Nat.strong_induction_on
    generalizing written with
  | _ left ih =>
    refine inevitable_of_next fun w moved hphase hfile => ?_
    rw [World.advance, hphase]
    show ∃ phase', _ ∧ (w.stamp (setting.stamp h) h written moved).1.phase h = _
      ∧ (w.stamp (setting.stamp h) h written moved).1.file = _
    unfold World.stamp
    split
    · -- the induction is on the bytes that are left
      rename_i hmore
      have hchunk : 0 < (((lockBody (setting.stamp h)).drop written).take (moved + 1)).length := by
        rw [List.length_take, List.length_drop]
        omega
      refine ⟨_, ih _ ?_ _ rfl, Function.update_self .., hfile⟩
      omega
    · exact ⟨_, inevitable_preparing hat hdb .objects, Function.update_self .., hfile⟩

/-- From the kernel lock on. -/
theorem inevitable_locked {count : Nat} (hat : file.AtVersion count) (hdb : file.db.Recoverable) :
    Inevitable setting h file .locked := by
  have hrestricted : Inevitable setting h file .restricted := by
    refine inevitable_of_next fun w _ hphase hfile => ⟨_, inevitable_stamping hat hdb 0, ?_⟩
    rw [World.advance, hphase]
    exact ⟨Function.update_self .., hfile⟩
  refine inevitable_of_next fun w _ hphase hfile => ⟨_, hrestricted, ?_⟩
  rw [World.advance, hphase]
  exact ⟨Function.update_self .., hfile⟩

/-- A descriptor on a lock file that nobody has locked. -/
theorem leads_opened {count : Nat} {content : Bytes} {mode : UInt32}
    (hphase : w.phase h = .opened true) (hnode : w.node = .file content mode none)
    (hat : w.file.AtVersion count) (hdb : w.file.db.Recoverable) :
    Machine.Leads (World.next setting) (Advances h) (Opened setting h w.file.db) w := by
  refine leads_of_advance fun moved => ?_
  have hadvance : w.advance setting h moved = w.acquire h .locked := by
    rw [World.advance, hphase]
    show w.flock h true = _
    rw [World.flock, hnode]
    rfl
  rw [hadvance]
  exact inevitable_locked hat hdb _ (Function.update_self ..) rfl

/-- A call that is about to open a lock file that nobody has locked. -/
theorem leads_opening {count : Nat} (hphase : w.phase h = .opening true)
    (hfree : w.node.owner = none) (hregular : ∀ refusal, w.node ≠ .other refusal)
    (hat : w.file.AtVersion count) (hdb : w.file.db.Recoverable) :
    Machine.Leads (World.next setting) (Advances h) (Opened setting h w.file.db) w := by
  refine leads_of_advance fun moved => ?_
  have hadvance : w.advance setting h moved = w.openLock h true := by
    rw [World.advance, hphase]
  rw [hadvance]
  -- whether it was there or not, the lock file has no owner
  have hopened : ∀ content mode, (w.openLock h true).1.phase h = .opened true →
      (w.openLock h true).1.node = .file content mode none → (w.openLock h true).1.file = w.file →
      Machine.Leads (World.next setting) (Advances h) (Opened setting h w.file.db)
        (w.openLock h true).1 := by
    intro content mode hphase' hnode' hfile
    rw [← hfile] at hat hdb ⊢
    exact leads_opened hphase' hnode' hat hdb
  cases hnode : w.node with
  | missing =>
    have hopen : w.openLock h true = w.rewrite h (.file [] 0o600 none) (.opened true) := by
      rw [World.openLock, hnode]
      rfl
    rw [hopen] at hopened ⊢
    exact hopened [] 0o600 (Function.update_self ..) rfl rfl
  | file content mode owner =>
    have hopen : w.openLock h true = w.enter h (.opened true) := by
      rw [World.openLock, hnode]
    rw [hnode] at hfree
    obtain rfl : owner = none := hfree
    rw [hopen] at hopened ⊢
    exact hopened content mode (Function.update_self ..) hnode rfl
  | other refusal => exact absurd hnode (hregular refusal)

end Alone

/-- **A free lock opens.**  After any history on a new store, as long as nobody holds the kernel
lock and a regular file or nothing stands at its path, a call that opens the store, whose system
calls do not fail and beside which nobody acts, comes to an open store, however its writes are
split: at the latest schema version, with no run active and with the rows that a recovery makes of
those it has found. -/
theorem open_succeeds [DecidableEq H] (setting : Setting H) (node : LockNode H)
    (actions : List (Action H)) (h : H) (counts : ℕ → ℕ)
    (hfree : (Machine.run (World.next setting) (World.initial node none) actions).node.owner = none)
    (hregular : ∀ refusal,
      (Machine.run (World.next setting) (World.initial node none) actions).node ≠ .other refusal)
    (hidle : (Machine.run (World.next setting) (World.initial node none) actions).phase h = .idle) :
    let w := Machine.run (World.next setting) (World.initial node none) actions
    ∃ n,
      let w' := Machine.run (World.next setting) w
        (.openStore h :: (List.range n).map fun i => .advance h (counts i))
      w'.phase h = .ready ∧ verify w'.file = .ok () ∧ activeRunIds w'.file.db = []
        ∧ w'.file.db
          = step setting.codecs w.file.db (recoverRequest (setting.nowUnixMs h)) := by
  intro w
  -- what earlier calls have left: a schema between two migrations, and runs a recovery can read
  obtain ⟨count, hat, -⟩ : w.Versioned := versioned_run node actions
  have hdb : w.file.db.Recoverable := recoverable_run node actions
  have hbegin : w.next setting (.openStore h) = (w.enter h .creating).1 := by
    show (w.turn setting (.openStore h)).1 = _
    rw [World.turn, hidle]
  have hleads : Machine.Leads (World.next setting) (Advances h) (Opened setting h w.file.db)
      (w.next setting (.openStore h)) := by
    rw [hbegin]
    refine leads_of_advance fun moved => ?_
    have hadvance : (w.enter h .creating).1.advance setting h moved
        = (w.enter h .creating).1.enter h (.opening true) := by
      have hphase : (w.enter h .creating).1.phase h = .creating := Function.update_self ..
      rw [World.advance, hphase]
    rw [hadvance]
    have hphase : ((w.enter h .creating).1.enter h (.opening true)).1.phase h = .opening true :=
      Function.update_self ..
    exact leads_opening hphase hfree hregular hat hdb
  obtain ⟨n, hn⟩ := hleads.exists_run (fun i => .advance h (counts i)) fun i => ⟨counts i, rfl⟩
  refine ⟨n, hn.ready, hn.verified, ?_, hn.recovered⟩
  show activeRunIds (Machine.run (World.next setting) (w.next setting _) _).file.db = []
  rw [hn.recovered]
  exact active_recovered hdb _

/-- The first call opens the store and creates a run, and dies with the lock. -/
def Sample.killed : List (Action (Fin 2)) :=
  .openStore 0 :: List.replicate 17 (.advance 0 100)
    ++ [.request 0 ⟨.createRun Rewind.Sample.run, false⟩, .close 0]

/-- The run that was left active is not active any more. -/
theorem open_succeeds_killed :
    let w := Machine.run (World.next Sample.pair) (World.initial .missing none) Sample.killed
    activeRunIds w.file.db = [Rewind.Sample.runId] ∧ ∃ n,
      let w' := Machine.run (World.next Sample.pair) w
        (.openStore 1 :: (List.range n).map fun _ => .advance 1 0)
      w'.phase 1 = .ready ∧ verify w'.file = .ok () ∧ activeRunIds w'.file.db = []
        ∧ w'.file.db = step Rewind.Sample.codecs w.file.db (recoverRequest 1) := by
  have hcontent : (Machine.run (World.next Sample.pair) (World.initial .missing none)
      Sample.killed).node.content ≠ [] := by decide +kernel
  refine ⟨by decide +kernel, open_succeeds Sample.pair .missing Sample.killed 1 (fun _ => 0)
    (by decide +kernel) (fun refusal hnode => ?_) rfl⟩
  rw [hnode] at hcontent
  exact hcontent rfl

end Opening

end Rewind
