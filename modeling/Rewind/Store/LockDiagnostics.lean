/-
The diagnostics of a taken lock.

A call that finds the kernel lock taken reports what the lock file says of its holder.  The file
changes under its eyes: a holder empties it and writes its description a few bytes at a time, and
the reader reads a few bytes at a time.  Beside an open store nothing of that is left to see.

* `Phase.described` — how much of its description a holder has written;
* `World.Described` — that much stands in the lock file;
* `NodeCase` — what a turn does to the lock file and to the phase of its call;
* **`contention_names_writer`** — a call beside an open store returns, and names its process.
-/
import Rewind.Store.Opening

namespace Rewind

namespace Opening

variable {H : Type} {setting : Setting H}

/-! ### What stands in the lock file -/

/-- What a call has written of its description `body`. -/
def Phase.described (body : Bytes) : Phase → Option Bytes
  | .stamping written => some (body.take written)
  | .preparing _ | .migrating _ | .recovering | .ready => some body
  | _ => none

/-- What a call has written of its description stands in the lock file. -/
def World.Described (setting : Setting H) (w : World H) : Prop :=
  ∀ h content, (w.phase h).described (lockBody (setting.stamp h)) = some content →
    w.node.content = content

theorem holds_of_described {body content : Bytes} {phase : Phase}
    (h : phase.described body = some content) : phase.standing.holds = true := by
  cases phase <;> first | rfl | cases h

theorem described_initial (node : LockNode H) (metadata : Option MetadataFile) :
    (World.initial node metadata).Described setting :=
  fun _ _ hsome => nomatch hsome

@[simp] theorem content_setOwner (node : LockNode H) (owner : Option H) :
    (node.setOwner owner).content = node.content := by
  cases node <;> rfl

@[simp] theorem content_setMode (node : LockNode H) (mode : UInt32) :
    (node.setMode mode).content = node.content := by
  cases node <;> rfl

@[simp] theorem content_setContent_nil (node : LockNode H) : (node.setContent []).content = [] := by
  cases node <;> rfl

theorem exists_file {node : LockNode H} {h : H} (howner : node.owner = some h) :
    ∃ content mode, node = .file content mode (some h) := by
  cases node with
  | file content mode owner =>
    obtain rfl : owner = some h := howner
    exact ⟨content, mode, rfl⟩
  | missing => exact nomatch howner
  | other refusal => exact nomatch howner

/-- A write goes on where the earlier ones have ended. -/
theorem writeAt_take {body : Bytes} (written count : Nat) :
    writeAt (body.take written) written ((body.drop written).take count)
      = body.take (written + ((body.drop written).take count).length) := by
  have hchunk : (body.drop written).take count
      = (body.drop written).take ((body.drop written).take count).length :=
    List.prefix_iff_eq_take.mp (List.take_prefix count _)
  have hrest : (body.take written).drop (written + ((body.drop written).take count).length) = [] :=
    List.drop_eq_nil_of_le (le_trans (List.length_take_le ..) (Nat.le_add_right ..))
  rw [writeAt, hrest, List.append_nil, List.take_take, Nat.min_self, List.take_add, ← hchunk]

/-! ### What a turn does to the lock file -/

/-- The call that an action belongs to. -/
def Action.call : Action H → H
  | .openStore h | .inspect h | .advance h _ | .fail h _ | .request h _ | .close h => h

section Turns

variable [DecidableEq H] {w : World H} {h : H}

/-- What a turn of `h` does to the lock file: it leaves the file, or nobody else holds the lock. -/
inductive NodeCase (setting : Setting H) (w w' : World H) (h : H) : Prop where
  | kept (phase : Phase) (hphase : w'.phase = Function.update w.phase h phase)
      (content : w'.node.content = w.node.content)
      (own : phase.described (lockBody (setting.stamp h)) = none
        ∨ phase.described (lockBody (setting.stamp h)) = some w.node.content)
  | changed (phase : Phase) (hphase : w'.phase = Function.update w.phase h phase)
      (alone : ∀ h', (w.standing h').holds = true → h' = h)
      (own : ∀ content, phase.described (lockBody (setting.stamp h)) = some content →
        w'.node.content = content)

theorem NodeCase.phase_of_ne {w' : World H} (hcase : NodeCase setting w w' h) {h' : H}
    (hne : h' ≠ h) : w'.phase h' = w.phase h' := by
  cases hcase with
  | kept phase hphase => rw [hphase, Function.update_of_ne hne]
  | changed phase hphase => rw [hphase, Function.update_of_ne hne]

/-- A turn leaves the descriptions in the lock file. -/
theorem NodeCase.described {w' : World H} (hd : w.Described setting)
    (hcase : NodeCase setting w w' h) : w'.Described setting := by
  intro h' content hsome
  by_cases heq : h' = h
  · subst heq
    cases hcase with
    | kept phase hphase hcontent own =>
      rw [hphase, Function.update_self] at hsome
      rcases own with hnone | hkept
      · exact nomatch hnone.symm.trans hsome
      · rw [hcontent]
        exact Option.some.inj (hkept.symm.trans hsome)
    | changed phase hphase alone own =>
      rw [hphase, Function.update_self] at hsome
      exact own content hsome
  · rw [hcase.phase_of_ne heq] at hsome
    cases hcase with
    | kept phase hphase hcontent own =>
      rw [hcontent]
      exact hd h' content hsome
    | changed phase hphase alone own =>
      exact absurd (alone h' (holds_of_described hsome)) heq

theorem node_enter {phase : Phase}
    (hown : phase.described (lockBody (setting.stamp h)) = none
      ∨ phase.described (lockBody (setting.stamp h)) = some w.node.content) :
    NodeCase setting w (w.enter h phase).1 h :=
  .kept phase rfl rfl hown

theorem node_stay (hd : w.Described setting) (h : H) : NodeCase setting w w h := by
  refine .kept (w.phase h) (Function.update_eq_self h w.phase).symm rfl ?_
  cases hsome : (w.phase h).described (lockBody (setting.stamp h)) with
  | none => exact .inl rfl
  | some content => exact .inr (congrArg some (hd h content hsome).symm)

theorem node_finish (outcome : Outcome) : NodeCase setting w (w.finish h outcome).1 h := by
  unfold World.finish
  split
  · exact .kept _ rfl (content_setOwner ..) (.inl rfl)
  · exact node_enter (.inl rfl)

theorem node_openLock (hw : w.Coherent) (create : Bool) :
    NodeCase setting w (w.openLock h create).1 h := by
  unfold World.openLock
  split
  · rename_i hnode
    split
    · -- who holds the lock holds it on a file
      refine .changed _ rfl (fun h' hholds => ?_) fun _ hsome => nomatch hsome
      have howner := (hw h').mpr hholds
      rw [hnode] at howner
      exact nomatch howner
    · exact node_finish _
  · exact node_enter (.inl rfl)
  · exact node_finish _

theorem node_flock (hd : w.Described setting) (create : Bool) :
    NodeCase setting w (w.flock h create).1 h := by
  unfold World.flock
  split
  · exact .kept _ rfl (content_setOwner ..) (.inl (by cases create <;> rfl))
  · exact node_enter (.inl rfl)
  · exact node_stay hd h

/-- A write of the holder. -/
theorem node_stamp (hw : w.Coherent) (hd : w.Described setting) {written : Nat} (count : Nat)
    (hphase : w.phase h = .stamping written) :
    NodeCase setting w (w.stamp (setting.stamp h) h written count).1 h := by
  have hholds : (w.standing h).holds = true := by rw [World.standing, hphase]; rfl
  have hcontent : w.node.content = (lockBody (setting.stamp h)).take written :=
    hd h _ (by rw [hphase]; rfl)
  unfold World.stamp
  split
  · -- the chunk goes behind what earlier writes have left, since nobody else writes
    refine .changed _ rfl (fun h' hholds' => hw.exclusive hholds' hholds) fun content hsome => ?_
    obtain ⟨old, mode, hnode⟩ := exists_file ((hw h).mpr hholds)
    have hnew : w.node.content = old := by rw [hnode]; rfl
    obtain rfl := Option.some.inj hsome
    rw [← writeAt_take, ← hcontent, hnode]
    rfl
  · -- `sync_all`: all of the description has been written
    rename_i hall
    refine node_enter (.inr ?_)
    rw [hcontent, List.take_of_length_le (not_lt.mp hall)]
    rfl

/-- A call whose description is whole. -/
theorem node_prepare (hbody : w.node.content = lockBody (setting.stamp h)) (setup : Setup) :
    NodeCase setting w (w.prepare h setup).1 h := by
  have hkept : some (lockBody (setting.stamp h)) = some w.node.content := congrArg some hbody.symm
  cases setup with
  | connecting existed => exact .kept _ rfl rfl (.inr hkept)
  | version =>
    rw [World.prepare]
    split
    · exact node_finish _
    · exact node_enter (.inr hkept)
  | objects => exact node_enter (.inr hkept)
  | inspecting => exact node_enter (.inr hkept)
  | restricting => exact node_enter (.inr hkept)
  | configuring => exact node_enter (.inr hkept)

theorem node_migrate (hbody : w.node.content = lockBody (setting.stamp h))
    (pending : List Migration) : NodeCase setting w (w.migrate setting h pending).1 h := by
  have hkept : some (lockBody (setting.stamp h)) = some w.node.content := congrArg some hbody.symm
  unfold World.migrate
  split
  · split
    · exact node_enter (.inr hkept)
    · exact node_finish _
  · split
    · exact .kept _ rfl rfl (.inr hkept)
    · exact node_finish _

theorem node_recover (hbody : w.node.content = lockBody (setting.stamp h)) :
    NodeCase setting w (w.recover setting h).1 h := by
  unfold World.recover
  split
  · exact .kept _ rfl rfl (.inr (congrArg some hbody.symm))
  · exact node_finish _

theorem node_measure (create : Bool) :
    NodeCase setting w (w.measure setting.lockPath h create).1 h := by
  unfold World.measure
  split
  · exact node_enter (.inl rfl)
  · exact node_finish _

theorem node_read (create : Bool) (raw : Bytes) (count : Nat) :
    NodeCase setting w (w.read setting.lockPath h create raw count).1 h := by
  unfold World.read
  split
  · exact node_finish _
  · exact node_enter (.inl rfl)

/-- A system call that succeeds. -/
theorem node_advance (hw : w.Coherent) (hd : w.Described setting) (count : Nat) :
    NodeCase setting w (w.advance setting h count).1 h := by
  have hbody : (w.phase h).described (lockBody (setting.stamp h))
      = some (lockBody (setting.stamp h)) → w.node.content = lockBody (setting.stamp h) := hd h _
  unfold World.advance
  cases hcall : w.phase h <;> rw [hcall] at hbody
  case creating => exact node_enter (.inl rfl)
  case opening create => exact node_openLock hw create
  case opened create => exact node_flock hd create
  case locked => exact .kept _ rfl (content_setMode ..) (.inl rfl)
  case restricted =>
    have hholds : (w.standing h).holds = true := by rw [World.standing, hcall]; rfl
    refine .changed _ rfl (fun h' hholds' => hw.exclusive hholds' hholds) fun content hsome => ?_
    obtain rfl := Option.some.inj hsome
    exact content_setContent_nil _
  case stamping written => exact node_stamp hw hd count hcall
  case preparing setup => exact node_prepare (hbody rfl) setup
  case migrating pending => exact node_migrate (hbody rfl) pending
  case recovering => exact node_recover (hbody rfl)
  case probing => exact node_finish _
  case contended create => exact node_measure create
  case reading create raw => exact node_read create raw count
  all_goals exact node_stay hd h

/-- Whatever happens next. -/
theorem node_turn (hw : w.Coherent) (hd : w.Described setting) (action : Action H) :
    NodeCase setting w (w.next setting action) action.call := by
  unfold World.next
  cases action with
  | openStore h =>
    rw [World.turn]
    split
    · exact node_enter (.inl rfl)
    · exact node_stay hd h
  | inspect h =>
    rw [World.turn]
    split
    · exact node_enter (.inl rfl)
    · exact node_stay hd h
  | advance h count => exact node_advance hw hd count
  | fail h source =>
    rw [World.turn]
    split
    · exact node_finish _
    · exact node_stay hd h
  | request h request =>
    rw [World.turn]
    split
    · rename_i hphase
      have hbody : w.node.content = lockBody (setting.stamp h) := hd h _ (by rw [hphase]; rfl)
      exact .kept _ rfl rfl (.inr (congrArg some hbody.symm))
    · exact node_stay hd h
  | close h =>
    rw [World.turn]
    split
    · exact node_stay hd h
    · exact node_stay hd h
    · exact node_finish _

end Turns

/-! ### A call beside an open store -/

/-- Where a call can stand that finds the lock with a holder described by `body`. -/
def Phase.Refused (lockPath body : Bytes) (create : Bool) : Phase → Prop
  | .creating => create = true
  | .opening kind | .opened kind | .contended kind => kind = create
  | .reading kind raw => kind = create ∧ raw <+: body
  | .finished outcome => outcome = concluded lockPath create (.ok (LockInfo.parse body))
  | _ => False

/-- How many system calls such a call has left at most. -/
def Phase.left (body : Bytes) : Phase → Nat
  | .creating => body.length + 5
  | .opening _ => body.length + 4
  | .opened _ => body.length + 3
  | .contended _ => body.length + 2
  | .reading _ raw => body.length - raw.length + 1
  | _ => 0

/-- The call `h` runs beside the open store of `h'`. -/
structure Contending (setting : Setting H) (create : Bool) (h h' : H) (w : World H) : Prop where
  coherent : w.Coherent
  described : w.Described setting
  ready : w.phase h' = .ready
  refused : (w.phase h).Refused setting.lockPath (lockBody (setting.stamp h')) create

/-- The store of `h'` stays open, and `h` is not given up and none of its system calls fails. -/
def Undisturbed (h h' : H) : Action H → Prop
  | .close h'' => h'' ≠ h ∧ h'' ≠ h'
  | .fail h'' _ => h'' ≠ h
  | _ => True

section Contention

variable [DecidableEq H] {create : Bool} {w : World H} {h h' : H}

/-- The next step of `h`: a system call, or an open and a look at the metadata. -/
def Action.advances (h : H) : Action H → Bool
  | .advance h' _ => decide (h' = h)
  | _ => false

omit [DecidableEq H] in
/-- The lock file is the description of the writer. -/
theorem Contending.node (hc : Contending setting create h h' w) :
    ∃ mode, w.node = .file (lockBody (setting.stamp h')) mode (some h') := by
  have hholds : (w.standing h').holds = true := by rw [World.standing, hc.ready]; rfl
  obtain ⟨content, mode, hnode⟩ := exists_file ((hc.coherent h').mpr hholds)
  have hcontent : w.node.content = lockBody (setting.stamp h') :=
    hc.described h' _ (by rw [hc.ready]; rfl)
  rw [hnode] at hcontent
  obtain rfl : content = lockBody (setting.stamp h') := hcontent
  exact ⟨mode, hnode⟩

/-- An open store stays open until it is closed. -/
theorem ready_next (hw : w.Coherent) (hd : w.Described setting) (hready : w.phase h' = .ready)
    {action : Action H} (hok : Undisturbed h h' action) :
    (w.next setting action).phase h' = .ready := by
  by_cases heq : h' = action.call
  · have hstay : ∀ {turn : Turn H}, turn = (w, []) → turn.1.phase h' = .ready := by
      rintro _ rfl
      exact hready
    unfold World.next
    cases action with
    | openStore h'' =>
      obtain rfl : h' = h'' := heq
      exact hstay (by rw [World.turn, hready])
    | inspect h'' =>
      obtain rfl : h' = h'' := heq
      exact hstay (by rw [World.turn, hready])
    | advance h'' count =>
      obtain rfl : h' = h'' := heq
      exact hstay (by rw [World.turn, World.advance, hready])
    | fail h'' source =>
      obtain rfl : h' = h'' := heq
      exact hstay (by rw [World.turn, hready]; rfl)
    | request h'' request =>
      obtain rfl : h' = h'' := heq
      rw [World.turn, hready]
      exact Function.update_self ..
    | close h'' => exact absurd heq.symm hok.2
  · rw [(node_turn hw hd action).phase_of_ne heq, hready]

/-- What `h` can come to by a system call, and that one less is left. -/
def Steps (setting : Setting H) (create : Bool) (h h' : H) (w w' : World H) : Prop :=
  (w'.phase h).Refused setting.lockPath (lockBody (setting.stamp h')) create
    ∧ (w'.phase h).left (lockBody (setting.stamp h'))
      ≤ (w.phase h).left (lockBody (setting.stamp h')) - 1

theorem steps_enter {phase : Phase}
    (hrefused : phase.Refused setting.lockPath (lockBody (setting.stamp h')) create)
    (hleft : phase.left (lockBody (setting.stamp h'))
      ≤ (w.phase h).left (lockBody (setting.stamp h')) - 1) :
    Steps setting create h h' w (w.enter h phase).1 := by
  have hphase : (w.enter h phase).1.phase h = phase := Function.update_self ..
  rw [Steps, hphase]
  exact ⟨hrefused, hleft⟩

theorem phase_finish (w : World H) (h : H) (outcome : Outcome) :
    (w.finish h outcome).1.phase h = .finished outcome := by
  unfold World.finish
  split
  · exact Function.update_self ..
  · exact Function.update_self ..

/-- A read finds the description of the writer, and the one at its end has all of it. -/
theorem steps_read (hc : Contending setting create h h' w) {raw : Bytes} (count : Nat)
    (hphase : w.phase h = .reading create raw) (hraw : raw <+: lockBody (setting.stamp h')) :
    Steps setting create h h' w (w.read setting.lockPath h create raw count).1 := by
  obtain ⟨mode, hnode⟩ := hc.node
  have hcontent : w.node.content = lockBody (setting.stamp h') := by rw [hnode]; rfl
  obtain ⟨rest, hrest⟩ := hraw
  have hdrop : (lockBody (setting.stamp h')).drop raw.length = rest := by
    rw [← hrest, List.drop_left]
  rw [World.read, hcontent, hdrop]
  cases rest with
  | nil =>
    -- the read that returns nothing: what has been read is all of the file
    rw [List.append_nil] at hrest
    show Steps setting create h h' w
      (w.finish h (concluded setting.lockPath create (inspectContent raw))).1
    rw [Steps, phase_finish, hrest, inspectContent_lockBody]
    exact ⟨rfl, Nat.zero_le _⟩
  | cons b rest =>
    refine steps_enter ⟨rfl, ?_⟩ ?_
    · rw [← hrest]
      exact (List.prefix_append_right_inj raw).mpr (List.take_prefix ..)
    · rw [hphase]
      show _ - (raw ++ (b :: rest).take (count + 1)).length + 1 ≤ _ - raw.length + 1 - 1
      have hlength : (lockBody (setting.stamp h')).length = raw.length + (rest.length + 1) := by
        rw [← hrest, List.length_append, List.length_cons]
      rw [List.take_succ_cons, List.length_append, List.length_cons, hlength]
      omega

/-- A system call of `h`. -/
theorem steps_advance (hc : Contending setting create h h' w) (count : Nat) :
    Steps setting create h h' w (w.advance setting h count).1 := by
  obtain ⟨mode, hnode⟩ := hc.node
  have hrefused := hc.refused
  have hstay : ∀ {outcome}, w.phase h = .finished outcome → Steps setting create h h' w w := by
    intro outcome hphase
    refine ⟨hrefused, ?_⟩
    rw [hphase]
    exact Nat.zero_le _
  unfold World.advance
  cases hphase : w.phase h <;> rw [hphase] at hrefused
  case creating =>
    obtain rfl : create = true := hrefused
    exact steps_enter rfl (by rw [hphase]; exact le_refl _)
  case opening kind =>
    obtain rfl : kind = create := hrefused
    -- the writer stands on the lock file, so there is one to open
    have hopen : w.openLock h kind = w.enter h (.opened kind) := by rw [World.openLock, hnode]
    show Steps setting kind h h' w (w.openLock h kind).1
    rw [hopen]
    exact steps_enter rfl (by rw [hphase]; exact le_refl _)
  case opened kind =>
    obtain rfl : kind = create := hrefused
    have hflock : w.flock h kind = w.enter h (.contended kind) := by rw [World.flock, hnode]
    show Steps setting kind h h' w (w.flock h kind).1
    rw [hflock]
    exact steps_enter rfl (by rw [hphase]; exact le_refl _)
  case contended kind =>
    obtain rfl : kind = create := hrefused
    have hsize : checkLockSize w.node.content.length = .ok () := by
      rw [hnode]
      exact if_neg (not_lt.mpr (length_lockBody_le _))
    have hmeasure : w.measure setting.lockPath h kind = w.enter h (.reading kind []) := by
      rw [World.measure, hsize]
    show Steps setting kind h h' w (w.measure setting.lockPath h kind).1
    rw [hmeasure]
    exact steps_enter ⟨rfl, List.nil_prefix⟩ (by rw [hphase]; exact le_refl _)
  case reading kind raw =>
    obtain ⟨rfl, hraw⟩ := hrefused
    exact steps_read hc count hphase hraw
  case finished outcome => exact hstay hphase
  all_goals exact hrefused.elim

/-- A call that has begun does not begin again, and one without a store sends nothing. -/
theorem Contending.stays (hc : Contending setting create h h' w) {action : Action H}
    (haction : action = .openStore h ∨ action = .inspect h ∨ ∃ sent, action = .request h sent) :
    w.next setting action = w := by
  have hrefused := hc.refused
  unfold World.next
  rcases haction with rfl | rfl | ⟨sent, rfl⟩ <;> rw [World.turn] <;> split
  all_goals first
    | rfl
    | rename_i hphase
      rw [hphase] at hrefused
      exact hrefused.elim

/-- A turn beside an open store. -/
theorem Contending.next (hc : Contending setting create h h' w) {action : Action H}
    (hok : Undisturbed h h' action) :
    Contending setting create h h' (w.next setting action)
      ∧ ((w.next setting action).phase h).left (lockBody (setting.stamp h'))
        ≤ (w.phase h).left (lockBody (setting.stamp h')) - (action.advances h).toNat := by
  have hnode : NodeCase setting w (w.next setting action) action.call :=
    node_turn hc.coherent hc.described action
  have hcontending : ((w.next setting action).phase h).Refused setting.lockPath
      (lockBody (setting.stamp h')) create →
      Contending setting create h h' (w.next setting action) := fun hrefused =>
    ⟨(case_turn hc.coherent action).coherent hc.coherent, hnode.described hc.described,
      ready_next hc.coherent hc.described hc.ready hok, hrefused⟩
  have hsame : (w.next setting action).phase h = w.phase h → action.advances h = false →
      Contending setting create h h' (w.next setting action)
        ∧ ((w.next setting action).phase h).left (lockBody (setting.stamp h'))
          ≤ (w.phase h).left (lockBody (setting.stamp h')) - (action.advances h).toNat := by
    intro hphase hquiet
    rw [hquiet]
    refine ⟨hcontending ?_, ?_⟩
    · rw [hphase]
      exact hc.refused
    · rw [hphase]
      exact le_refl _
  -- only the system calls of `h` move it; whatever the others do stays away from its phase
  by_cases heq : h = action.call
  · cases action with
    | openStore h'' =>
      obtain rfl : h = h'' := heq
      exact hsame (by rw [hc.stays (.inl rfl)]) rfl
    | inspect h'' =>
      obtain rfl : h = h'' := heq
      exact hsame (by rw [hc.stays (.inr (.inl rfl))]) rfl
    | request h'' sent =>
      obtain rfl : h = h'' := heq
      exact hsame (by rw [hc.stays (.inr (.inr ⟨sent, rfl⟩))]) rfl
    | advance h'' count =>
      obtain rfl : h = h'' := heq
      obtain ⟨hrefused, hleft⟩ := steps_advance hc count
      have hone : (Action.advance h count : Action H).advances h = true := decide_eq_true rfl
      rw [hone]
      exact ⟨hcontending hrefused, hleft⟩
    | fail h'' source => exact absurd heq.symm hok
    | close h'' => exact absurd heq.symm hok.1
  · refine hsame (hnode.phase_of_ne heq) ?_
    cases action with
    | advance h'' count => exact decide_eq_false (Ne.symm heq)
    | _ => rfl

theorem Contending.run (hc : Contending setting create h h' w) {actions : List (Action H)}
    (hok : ∀ action ∈ actions, Undisturbed h h' action) :
    Contending setting create h h' (Machine.run (World.next setting) w actions)
      ∧ ((Machine.run (World.next setting) w actions).phase h).left (lockBody (setting.stamp h'))
        ≤ (w.phase h).left (lockBody (setting.stamp h'))
          - actions.countP fun action => action.advances h := by
  induction actions generalizing w with
  | nil => exact ⟨hc, le_refl _⟩
  | cons action actions ih =>
    obtain ⟨haction, hactions⟩ := List.forall_mem_cons.mp hok
    obtain ⟨hnext, hleft⟩ := hc.next haction
    obtain ⟨hrun, hrest⟩ := ih hnext hactions
    refine ⟨hrun, ?_⟩
    rw [Machine.run_cons, List.countP_cons]
    cases hadvances : action.advances h with
    | false =>
      rw [hadvances, Bool.toNat_false] at hleft
      rw [if_neg (by simp)]
      omega
    | true =>
      rw [hadvances, Bool.toNat_true] at hleft
      rw [if_pos rfl]
      omega

omit [DecidableEq H] in
/-- A call with no system call left has returned. -/
theorem finished_of_left {lockPath body : Bytes} {phase : Phase}
    (hrefused : phase.Refused lockPath body create) (hleft : phase.left body = 0) :
    ∃ outcome, phase = .finished outcome := by
  cases phase with
  | finished outcome => exact ⟨outcome, rfl⟩
  | creating => exact absurd hleft (Nat.succ_ne_zero _)
  | opening kind => exact absurd hleft (Nat.succ_ne_zero _)
  | opened kind => exact absurd hleft (Nat.succ_ne_zero _)
  | contended kind => exact absurd hleft (Nat.succ_ne_zero _)
  | reading kind raw => exact absurd hleft (Nat.succ_ne_zero _)
  | _ => exact hrefused.elim

theorem described_run (node : LockNode H) (metadata : Option MetadataFile)
    (actions : List (Action H)) :
    (Machine.run (World.next setting) (World.initial node metadata) actions).Coherent
      ∧ (Machine.run (World.next setting) (World.initial node metadata) actions).Described
          setting := by
  have hstep : ∀ (w : World H) (action : Action H), w.Coherent ∧ w.Described setting →
      (w.next setting action).Coherent ∧ (w.next setting action).Described setting := by
    rintro w action ⟨hw, hd⟩
    exact ⟨(case_turn hw action).coherent hw, (node_turn hw hd action).described hd⟩
  exact Machine.run_invariant hstep
    ⟨coherent_initial node metadata, described_initial node metadata⟩ actions

end Contention

/-- `Store::open`, or `Store::inspect_writer_lock`. -/
def Action.beginning (create : Bool) (h : H) : Action H :=
  if create then .openStore h else .inspect h

/-- **A call beside an open store is refused.**  Whatever has happened before and whatever else
happens meanwhile, as long as a store stays open a call that opens the store too, or asks who holds
its lock, ends with the identity of the process that holds it: never with half a description, the
description of an earlier holder or a second open store.  It ends after no more steps than the
description has bytes and five; to open a file and to look at its metadata is one step. -/
theorem contention_names_writer [DecidableEq H] (setting : Setting H) (node : LockNode H)
    (metadata : Option MetadataFile) (before during : List (Action H)) (create : Bool) (h h' : H)
    (hready :
      (Machine.run (World.next setting) (World.initial node metadata) before).phase h' = .ready)
    (hidle :
      (Machine.run (World.next setting) (World.initial node metadata) before).phase h = .idle)
    (hok : ∀ action ∈ during, Undisturbed h h' action) :
    let w := Machine.run (World.next setting) (World.initial node metadata) before
    let w' := Machine.run (World.next setting) w (.beginning create h :: during)
    let stamp := setting.stamp h'
    w'.phase h' = .ready
      ∧ (∀ outcome, w'.phase h = .finished outcome →
          outcome = concluded setting.lockPath create (.ok {
            pid := some stamp.pid
            createdUnixMs :=
              if stamp.millis < 2 ^ 64 then some (UInt64.ofNat stamp.millis) else none
            token := some stamp.token
            raw := lockBody stamp }))
      ∧ ((lockBody stamp).length + 5 ≤ (during.countP fun action => action.advances h) →
          ∃ outcome, w'.phase h = .finished outcome) := by
  intro w w' stamp
  change w.phase h' = .ready at hready
  change w.phase h = .idle at hidle
  obtain ⟨hw, hd⟩ : w.Coherent ∧ w.Described setting := described_run node metadata before
  obtain ⟨phase, hphase, hrefused, hleft⟩ : ∃ phase,
      (w.next setting (.beginning create h)).phase h = phase
        ∧ phase.Refused setting.lockPath (lockBody stamp) create
        ∧ phase.left (lockBody stamp) ≤ (lockBody stamp).length + 5 := by
    cases create with
    | true =>
      refine ⟨.creating, ?_, rfl, le_refl _⟩
      show (w.turn setting (.openStore h)).1.phase h = _
      rw [World.turn, hidle]
      exact Function.update_self ..
    | false =>
      refine ⟨.opening false, ?_, rfl, Nat.le_succ _⟩
      show (w.turn setting (.inspect h)).1.phase h = _
      rw [World.turn, hidle]
      exact Function.update_self ..
  have hbegin : Undisturbed h h' (.beginning create h) := by cases create <;> exact trivial
  have hc : Contending setting create h h' (w.next setting (.beginning create h)) :=
    { coherent := (case_turn hw _).coherent hw
      described := (node_turn hw hd _).described hd
      ready := ready_next hw hd hready hbegin
      refused := hphase ▸ hrefused }
  obtain ⟨hrun, hrest⟩ := hc.run hok
  refine ⟨hrun.ready, fun outcome houtcome => ?_, fun hmany => finished_of_left hrun.refused ?_⟩
  · have hfinished := hrun.refused
    rw [show (Machine.run (World.next setting) _ during).phase h = .finished outcome from houtcome]
      at hfinished
    rw [← parse_lockBody]
    exact hfinished
  · rw [hphase] at hrest
    have hnone : (w'.phase h).left (lockBody stamp)
        ≤ phase.left (lockBody stamp) - during.countP fun action => action.advances h := hrest
    show (w'.phase h).left (lockBody stamp) = 0
    omega

/-- The first call opens the store, and the second one tries to. -/
theorem contention_names_writer_pair :
    (Machine.run (World.next Sample.pair) (World.initial .missing none)
      (.openStore 0 :: List.replicate 18 (.advance 0 1000)
        ++ .beginning true 1 :: List.replicate 100 (.advance 1 0))).phase 1
      = .finished (.failed (.locked {
          pid := some 1
          createdUnixMs := some 1
          token := some (Sample.pair.stamp 0).token
          raw := lockBody (Sample.pair.stamp 0) })) := by
  have hok : ∀ action ∈ List.replicate 100 (Action.advance (1 : Fin 2) 0),
      Undisturbed 1 0 action := by
    intro action haction
    rw [List.eq_of_mem_replicate haction]
    exact trivial
  obtain ⟨-, hnamed, hreturns⟩ := contention_names_writer Sample.pair .missing none
    (.openStore 0 :: List.replicate 18 (.advance 0 1000)) (List.replicate 100 (.advance 1 0))
    true 1 0 rfl rfl hok
  obtain ⟨outcome, houtcome⟩ := hreturns (by decide +kernel)
  rw [Machine.run_append, houtcome, hnamed outcome houtcome]
  rfl

end Opening

end Rewind
