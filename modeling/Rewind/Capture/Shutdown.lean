/-
The end of the output after the root process has exited.

A terminal may stay open after the root of its process group is gone.  The coordinator then waits
until a deadline, has the group killed, waits until a second deadline, and stops waiting.  Four of
its turns move the deadline: a poll of the child, a poll of the deadline, a signal, and the end of
the output.

* `Drain`, `Drain.Shift` — what the wait depends on, and the ways in which it changes;
* `Supervisor.shift` — a turn of the coordinator changes it in one of these ways, by what the
  clock says in this turn;
* **`shutdown_bounded`** — while the coordinator waits there is a deadline, a poll past the
  deadline brings the end nearer, and the wait is given up only past a deadline that has been
  set at or after the request to kill the group.
-/
import Rewind.Capture.Input

namespace Rewind

open Call

namespace Supervision

/-! ### The wait -/

/-- What the wait for the end of the output depends on. -/
structure Drain where
  exited : Bool
  ended : Bool
  abandoned : Bool
  killRequested : Bool
  deadline : Option Nat

namespace Drain

/-- The ways in which the wait changes; `read` are the readings of the clock. -/
inductive Shift (read : Nat → Prop) (d : Drain) : Drain → Prop
  | stays : Shift read d d
  | exits {now : Nat} (hexited : d.exited = false) (hread : d.ended = false → read now) :
      Shift read d { d with
        exited := true
        deadline := if d.ended then d.deadline else some (now + POST_ROOT_DRAIN_GRACE) }
  | ends : Shift read d { d with ended := true, deadline := none }
  | shortens {now : Nat} (hexited : d.exited = true) (hread : read now) :
      Shift read d { d with
        deadline := if d.deadline.all (now + SIGNAL_GRACE_PERIOD < ·)
          then some (now + SIGNAL_GRACE_PERIOD) else d.deadline }
  | requests {now : Nat} (hexited : d.exited = true) (hread : read now) :
      Shift read d { d with
        killRequested := true, deadline := some (now + POST_KILL_DRAIN_GRACE) }
  | abandons {now deadline : Nat} (hended : d.ended = false) (habandoned : d.abandoned = false)
      (hrequested : d.killRequested = true) (hdeadline : d.deadline = some deadline)
      (hread : read now) (hover : deadline ≤ now) :
      Shift read d { d with deadline := none, abandoned := true }

variable {read read' : Nat → Prop} {d d' : Drain}

theorem Shift.mono (h : Shift read d d') (hread : ∀ now, read now → read' now) :
    Shift read' d d' := by
  cases h with
  | stays => exact .stays
  | exits hexited hnow => exact .exits hexited fun hended => hread _ (hnow hended)
  | ends => exact .ends
  | shortens hexited hnow => exact .shortens hexited (hread _ hnow)
  | requests hexited hnow => exact .requests hexited (hread _ hnow)
  | abandons hended habandoned hrequested hdeadline hnow hover =>
    exact .abandons hended habandoned hrequested hdeadline (hread _ hnow) hover

/-- While the coordinator waits there is a deadline; the group is killed after the root has exited,
and the output abandoned after that. -/
structure Bounded (d : Drain) : Prop where
  waits : d.exited = true → d.ended = false → d.abandoned = false → d.deadline.isSome = true
  exited : d.killRequested = true → d.exited = true
  requested : d.abandoned = true → d.killRequested = true

theorem Bounded.shift (hd : d.Bounded) (h : Shift read d d') : d'.Bounded := by
  cases h with
  | stays => exact hd
  | exits hexited hread =>
    have hrequested : d.killRequested ≠ true := fun hrequested => by
      rw [hd.exited hrequested] at hexited
      exact absurd hexited (by simp)
    refine ⟨fun _ hended _ => ?_, fun _ => rfl, hd.requested⟩
    simp only [show d.ended = false from hended, Bool.false_eq_true, if_false, Option.isSome_some]
  | ends => exact ⟨fun _ hended _ => absurd hended (by simp), hd.exited, hd.requested⟩
  | shortens hexited hread =>
    refine ⟨fun _ hended habandoned => ?_, hd.exited, hd.requested⟩
    show Option.isSome (if _ then _ else _) = true
    split
    · rfl
    · exact hd.waits hexited hended habandoned
  | requests hexited hread => exact ⟨fun _ _ _ => rfl, fun _ => hexited, fun _ => rfl⟩
  | abandons hended habandoned hrequested hdeadline hread hover =>
    exact ⟨fun _ _ hwaits => absurd hwaits (by simp), hd.exited, fun _ => hrequested⟩

end Drain

/-- What the wait of a coordinator depends on. -/
def Supervisor.drain (s : Supervisor) : Drain where
  exited := s.childExit
  ended := s.outputEof
  abandoned := s.outputAbandoned
  killRequested := s.postRootKillRequested
  deadline := s.postRootDrainDeadline

/-- What the clock has said from tick `n` on, before tick `m`. -/
def Host.Read (host : Host) (n m now : Nat) : Prop :=
  ∃ tick, n ≤ tick ∧ tick < m ∧ now = host.instant tick

/-! ### Turns that leave the wait alone -/

section Quiet

variable {α : Type} {d : Drain}

theorem keepsDrain_recorder (m : Method α) : Keeps (fun s => s.drain = d) (recorder m) :=
  Keeps.of_state fun _ hs => hs

theorem keepsDrain_ask (answers : Nat → α) : Keeps (fun s => s.drain = d) (ask answers) :=
  keeps_bind (keepsDrain_recorder _) fun _ => keeps_pure _

theorem keepsDrain_fail (error : CaptureError) : Keeps (fun s => s.drain = d) (fail error) :=
  keeps_modify fun _ hs => hs

/-- A handler of the output that leaves the flags of the coordinator alone. -/
theorem keepsDrain_terminal {m : Handler α} (hm : ∀ c, Keeps (SameFlags c) m) :
    Keeps (fun s => s.drain = d) (terminal m) := by
  refine Keeps.of_state fun s hs => ?_
  have hflags : SameFlags s.toCoordinator (exec m s.toCoordinator).2 :=
    (hm s.toCoordinator).state ⟨rfl, rfl, rfl⟩
  rw [← hs]
  show Supervisor.drain { s with toCoordinator := (exec m s.toCoordinator).2 } = s.drain
  simp only [Supervisor.drain, hflags.outputEof, hflags.outputAbandoned, hflags.childExit]

theorem keepsFlags_recorder {c : Coordinator} (m : Method α) :
    Keeps (SameFlags c) (Coordinator.recorder m) :=
  Keeps.of_state fun _ hs => ⟨hs.outputEof, hs.outputAbandoned, hs.childExit⟩

theorem keepsFlags_putObject {c : Coordinator} (env : Env) (codecs : Codecs) (bytes : Bytes)
    (createdUnixMs : Int64) :
    Keeps (SameFlags c) (Coordinator.putObject env codecs bytes createdUnixMs) := by
  refine keeps_bind (keeps_bind (keepsFlags_recorder _) fun tick => ?_) fun _ =>
    keeps_bind (keepsFlags_recorder _) fun _ => keeps_pure _
  refine spec_ite (fun _ => keeps_throw _) fun _ => ?_
  rcases encode bytes with error | envelope
  · exact keeps_throw _
  · refine keeps_bind (keeps_modify fun _ hs => ?_) fun _ => keeps_pure _
    exact ⟨hs.outputEof, hs.outputAbandoned, hs.childExit⟩

theorem keepsFlags_recordOutput {c : Coordinator} (env : Env) (codecs : Codecs)
    (options : TerminalOptions) (streamId : TerminalStreamId) (bytes : Bytes) :
    Keeps (SameFlags c) (Coordinator.recordOutput env codecs options streamId bytes) := by
  refine spec_get_bind fun t ht => Keeps.at ?_ ht
  refine spec_ite (fun _ => keeps_throw _) fun _ => spec_ite (fun _ => keeps_throw _) fun _ => ?_
  refine spec_ite (fun _ => ?_) fun _ => ?_
  · exact keeps_bind (keepsFlags_recorder _) fun _ =>
      keeps_bind (keepsFlags_recorder _) fun _ => keeps_throw _
  · refine keeps_bind (keepsFlags_recorder _) fun time => ?_
    refine keeps_bind (keepsFlags_putObject env codecs bytes _) fun stored => ?_
    refine keeps_bind (keepsFlags_recorder _) fun _ => keeps_modify fun _ hs => ?_
    exact ⟨hs.outputEof, hs.outputAbandoned, hs.childExit⟩

variable (env : Env) (codecs : Codecs) (host : Host) (options : Options)
  (streamId : TerminalStreamId)

theorem keepsDrain_recordInput (bytes : Bytes) (echoEnabled : Option Bool) :
    Keeps (fun s => s.drain = d) (recordInput env codecs options streamId bytes echoEnabled) := by
  refine spec_ite (fun _ => keeps_throw _) fun _ => ?_
  rcases inputRedaction options.recordInput echoEnabled with _ | reason
  · refine keepsDrain_terminal fun c => keeps_bind (keepsFlags_recorder _) fun time => ?_
    exact keeps_bind (keepsFlags_putObject env codecs bytes _) fun _ => keepsFlags_recorder _
  · refine keeps_bind (spec_get_bind fun s hs => Keeps.at ?_ hs) fun _ => keepsDrain_recorder _
    refine spec_ite (fun _ => ?_) fun _ => keeps_pure _
    exact keeps_bind (keepsDrain_recorder _) fun _ => keeps_modify fun _ hs => hs

theorem keepsDrain_recordProcesses (result : Except String (List ProcessInfo)) :
    Keeps (fun s => s.drain = d) (recordProcesses env result) := by
  rcases result with message | processes
  · refine spec_get_bind fun s hs => Keeps.at (spec_ite (fun _ => keeps_pure _) fun _ => ?_) hs
    exact keeps_bind (keepsDrain_recorder _) fun _ => keeps_modify fun _ hs => hs
  · refine keeps_bind (keeps_forM (fun process => ?_) _) fun _ =>
      spec_get_bind fun s hs => Keeps.at (keeps_forM (fun processId => ?_) _) hs
    · rcases processId? process.pid with _ | processId
      · exact keeps_pure _
      · refine spec_get_bind fun s hs => Keeps.at (spec_ite (fun _ => keeps_pure _) fun _ => ?_) hs
        exact keeps_bind (keeps_modify fun _ hs => hs) fun _ => keepsDrain_recorder _
    · exact keeps_bind (keeps_modify fun _ hs => hs) fun _ => keepsDrain_recorder _

theorem keepsDrain_clearAfterCheckpoint :
    Keeps (fun s => s.drain = d) (clearAfterCheckpoint host) :=
  keeps_bind (keepsDrain_ask _) fun _ => keeps_bind (keepsDrain_ask _) fun _ =>
    keeps_modify fun _ hs => hs

theorem keepsDrain_handleMarker (label : Option String) :
    Keeps (fun s => s.drain = d) (handleMarker env codecs host label) := by
  refine spec_get_bind fun s hs => Keeps.at (spec_ite (fun _ => ?_) fun _ => ?_) hs
  · exact keeps_modify fun _ hs => hs
  · refine keeps_bind (keeps_outcome (keepsDrain_recorder _)) fun result => ?_
    rcases result with error | checkpoint
    · refine keeps_bind (keeps_modify fun _ hs => hs) fun _ => ?_
      exact spec_ite (fun _ => keeps_pure _) fun _ => keeps_throw _
    · exact keeps_bind (keeps_modify fun _ hs => hs) fun _ => keepsDrain_clearAfterCheckpoint host

theorem keepsDrain_pollWorkspace :
    Keeps (fun s => s.drain = d) (pollWorkspace env codecs host options) := by
  refine spec_get_bind fun s hs => Keeps.at (spec_ite (fun _ => keeps_pure _) fun _ => ?_) hs
  refine keeps_bind (keepsDrain_ask _) fun now => spec_ite (fun _ => ?_) fun _ => keeps_pure _
  refine keeps_bind (keepsDrain_ask _) fun walked => keeps_bind (keepsDrain_ask _) fun now => ?_
  refine keeps_bind (keeps_modify fun _ hs => hs) fun _ => ?_
  rcases (s.dirty.observe now walked).1 with error | paths
  · refine spec_get_bind fun s hs => Keeps.at (spec_ite (fun _ => keeps_pure _) fun _ => ?_) hs
    refine keeps_bind (keeps_outcome (keepsDrain_recorder _)) fun result => ?_
    rcases result with error | _
    · exact keeps_bind (keepsDrain_fail _) fun _ => keeps_modify fun _ hs => hs
    · exact keeps_modify fun _ hs => hs
  · refine keeps_bind (keeps_modify fun _ hs => hs) fun _ => ?_
    have hemit : ∀ paths, Keeps (fun s => s.drain = d) (emitDirtied env paths) := by
      intro paths
      unfold emitDirtied
      rcases EventPayload.newFilesystemPathsDirtied paths with error | payload
      · exact keeps_throw _
      · exact keepsDrain_recorder _
    refine keeps_bind (keeps_outcome (keeps_forM hemit _)) fun result => ?_
    rcases result with error | _
    · exact keepsDrain_fail _
    · refine spec_get_bind fun s hs => Keeps.at (keeps_bind (keepsDrain_ask _) fun now => ?_) hs
      refine spec_ite (fun _ => ?_) fun _ => keeps_pure _
      refine keeps_bind (keeps_outcome (keepsDrain_recorder _)) fun result => ?_
      rcases result with error | checkpoint
      · exact spec_ite (fun _ => keeps_pure _) fun _ => keepsDrain_fail _
      · exact keepsDrain_clearAfterCheckpoint host

theorem keepsDrain_durable (message : String) :
    Keeps (fun s => s.drain = d) (durablePostRootWarning env message) := by
  refine keeps_bind (keeps_outcome (keepsDrain_recorder _)) fun result => ?_
  rcases result with error | _
  · exact keepsDrain_fail _
  · exact keeps_pure _

theorem keepsDrain_shutdownFailed (message : String) (error : CaptureError) :
    Keeps (fun s => s.drain = d) (shutdownFailed env message error) :=
  keeps_bind (keepsDrain_durable env message) fun _ => keepsDrain_fail _

theorem keepsDrain_terminateRemaining :
    Keeps (fun s => s.drain = d) (terminateRemaining env host) := by
  refine keeps_bind (keepsDrain_ask _) fun answer => ?_
  rcases answer with error | present
  · exact keepsDrain_shutdownFailed env _ _
  · cases present with
    | false => exact keeps_modify fun _ hs => hs
    | true =>
      refine keeps_bind (keepsDrain_ask _) fun refusal => ?_
      rcases refusal with _ | error
      · refine keeps_bind (keepsDrain_durable env _) fun _ => ?_
        exact keeps_bind (keepsDrain_ask _) fun _ => keeps_modify fun _ hs => hs
      · exact keepsDrain_shutdownFailed env _ _

theorem keepsDrain_pollShutdown (deadline : Nat) :
    Keeps (fun s => s.drain = d) (pollShutdown env host deadline) := by
  refine keeps_bind (keepsDrain_ask _) fun answer => ?_
  rcases answer with error | present
  · exact keeps_bind (keeps_modify fun _ hs => hs) fun _ => keepsDrain_shutdownFailed env _ _
  · cases present with
    | false => exact keeps_modify fun _ hs => hs
    | true =>
      refine keeps_bind (keepsDrain_ask _) fun now => spec_ite (fun _ => keeps_pure _) fun _ => ?_
      exact keeps_bind (keeps_modify fun _ hs => hs) fun _ => keepsDrain_shutdownFailed env _ _

theorem keepsDrain_conclude : Keeps (fun s => s.drain = d) (conclude env codecs) := by
  refine spec_get_bind fun s hs => Keeps.at ?_ hs
  refine keeps_bind (keeps_outcome (keepsDrain_recorder _)) fun result => ?_
  exact keeps_modify fun _ hs => hs

end Quiet

/-! ### Turns that move the deadline -/

section Timed

variable {α : Type} {n : Nat} (env : Env)

theorem keepsTick_flush : Keeps (fun w => n ≤ w.tick) (Recorder.flush env) := by
  refine spec_get_bind fun w hw => spec_ite (fun _ => spec_pure fun t ht => ht ▸ hw) fun _ => ?_
  refine spec_bind (Q := fun _ t => n ≤ t.tick) (spec_transact ?_ ?_) fun _ =>
    spec_modify fun t ht => ht
  · rintro t db rfl -
    exact Nat.le_succ_of_le hw
  · rintro t rfl
    exact Nat.le_succ_of_le hw

theorem keepsTick_emit (payload : EventPayload) :
    Keeps (fun w => n ≤ w.tick) (Recorder.emit env payload) :=
  Rewind.keeps_emit
    (Effects.spec_queueEvent_of_tick (fun _ hw => Nat.le_succ_of_le hw) fun _ _ _ hw _ => hw)
    (keepsTick_flush env)

/-- The wait is `d`, at tick `n` or later. -/
def At (d : Drain) (n : Nat) (s : Supervisor) : Prop := s.drain = d ∧ n ≤ s.world.tick

/-- The wait was `d` at tick `n`, and has changed at most once since then. -/
def Shifted (host : Host) (d : Drain) (n : Nat) (s : Supervisor) : Prop :=
  d.Shift (host.Read n s.world.tick) s.drain

variable {d : Drain} {host : Host}

theorem At.shifted {s : Supervisor} (hs : At d n s) : Shifted host d n s := by
  rw [Shifted, hs.1]
  exact .stays

theorem keepsAt_recorder {m : Method α} (hm : Keeps (fun w => n ≤ w.tick) m) :
    Keeps (At d n) (recorder m) :=
  Keeps.of_state fun _ hs => ⟨hs.1, hm.state hs.2⟩

theorem keepsAt_ask (answers : Nat → α) : Keeps (At d n) (ask answers) :=
  keeps_bind (keepsAt_recorder fun _ hw => Nat.le_succ_of_le hw) fun _ => keeps_pure _

theorem keepsAt_durable (message : String) :
    Keeps (At d n) (durablePostRootWarning env message) := by
  have hwarn : Keeps (fun w => n ≤ w.tick)
      (do Recorder.warning env .other message; Recorder.flush env) :=
    keeps_bind (keeps_bind (keepsTick_emit env _) fun _ => keeps_pure _) fun _ =>
      keepsTick_flush env
  refine keeps_bind (keeps_outcome (keepsAt_recorder hwarn)) fun result => ?_
  rcases result with error | _
  · exact keeps_modify fun _ hs => hs
  · exact keeps_pure _

theorem keepsAt_orElse (refusal : Option CaptureError) {handler : CaptureError → Supervising Unit}
    (hhandler : ∀ error, Keeps (At d n) (handler error)) :
    Keeps (At d n) (orElse refusal handler) := by
  rcases refusal with _ | error
  · exact keeps_pure _
  · exact hhandler error

/-- What leaves the wait alone may follow the change. -/
theorem keeps_shifted {m : Supervising α} (hm : ∀ d n, Keeps (At d n) m) :
    Keeps (Shifted host d n) m := by
  refine Keeps.of_state fun s hs => ?_
  obtain ⟨hdrain, htick⟩ := (hm s.drain s.world.tick).state ⟨rfl, Nat.le_refl _⟩
  rw [Shifted, hdrain]
  refine hs.mono ?_
  rintro now ⟨tick, hfrom, hbefore, hnow⟩
  exact ⟨tick, hfrom, Nat.lt_of_lt_of_le hbefore htick, hnow⟩

/-- A reading of the clock. -/
theorem spec_instant {R : α → Supervisor → Prop} {E : Supervisor → Prop} {f : Nat → Supervising α}
    (hf : ∀ now, Spec (fun s => At d n s ∧ host.Read n s.world.tick now) (f now) R E) :
    Spec (At d n) (ask host.instant >>= f) R E := by
  intro s hs
  have hask : exec (ask host.instant) s = (.ok (host.instant s.world.tick),
      { s with toCoordinator := { s.toCoordinator with
        world := { s.world with tick := s.world.tick + 1 } } }) := rfl
  rw [exec_bind_ok hask]
  refine hf _ _ ⟨⟨hs.1, Nat.le_succ_of_le hs.2⟩, s.world.tick, hs.2, Nat.lt_succ_self _, rfl⟩

/-- A first signal after the exit of the root brings the deadline forward. -/
theorem spec_shortenPostRootDeadline (hexited : d.exited = true) :
    Spec (At d n) (shortenPostRootDeadline host SIGNAL_GRACE_PERIOD)
      (fun _ => Shifted host d n) (Shifted host d n) := by
  refine spec_instant fun now => spec_modify ?_
  rintro s ⟨⟨rfl, -⟩, hread⟩
  exact Drain.Shift.shortens hexited hread

theorem spec_signalRemaining (first : Bool) (signal : Int32) (hexited : d.exited = true) :
    Spec (At d n) (signalRemaining env host first signal)
      (fun _ => Shifted host d n) (Shifted host d n) := by
  cases first with
  | true =>
    refine spec_bind (spec_shortenPostRootDeadline hexited) fun _ => keeps_shifted fun d n => ?_
    exact keeps_bind (keepsAt_ask _) fun refusal =>
      keepsAt_orElse refusal fun error => keepsAt_durable env _
  | false =>
    refine spec_instant fun now => ?_
    refine spec_bind (Q := fun _ => Shifted host d n) (spec_modify ?_) fun _ =>
      keeps_shifted fun d n => ?_
    · rintro s ⟨⟨rfl, -⟩, hread⟩
      exact Drain.Shift.requests hexited hread
    · exact keeps_bind (keepsAt_ask _) fun refusal =>
        keepsAt_orElse refusal fun error => keepsAt_durable env _

theorem keepsAt_signalChild (first : Bool) :
    Keeps (At d n) (signalChild host first) := by
  cases first with
  | true =>
    refine keeps_bind (keepsAt_ask _) fun refusal => ?_
    refine keeps_bind (keepsAt_orElse refusal fun error => keeps_throw _) fun _ => ?_
    exact keeps_bind (keepsAt_ask _) fun now => keeps_modify fun _ hs => hs
  | false =>
    refine keeps_bind (keepsAt_ask _) fun refusal => ?_
    refine keeps_bind (keepsAt_orElse refusal fun error => keeps_throw _) fun _ => ?_
    exact keeps_modify fun _ hs => hs

theorem keepsAt_resizeTerminal (options : Options) (streamId : TerminalStreamId) :
    Keeps (At d n) (resizeTerminal env host options streamId) := by
  refine spec_get_bind fun s hs => Keeps.at (spec_ite (fun _ => ?_) fun _ => keeps_pure _) hs
  refine keeps_bind (keepsAt_ask _) fun size => ?_
  rcases size with error | ⟨columns, rows⟩
  · exact keepsAt_recorder (keeps_bind (keepsTick_emit env _) fun _ => keeps_pure _)
  · exact keepsAt_recorder (keeps_bind (keepsTick_emit env _) fun _ => keeps_pure _)

theorem keepsAt_interrupt (first : Bool) (signal : Int32) :
    Keeps (At d n) (interrupt env first signal) := by
  refine spec_ite (fun _ => ?_) fun _ => keeps_pure _
  refine keeps_bind (keeps_modify fun _ hs => hs) fun _ => ?_
  refine keeps_bind (keepsAt_recorder (keeps_bind (keepsTick_emit env _) fun _ => keeps_pure _))
    fun _ => ?_
  exact keepsAt_recorder (keepsTick_flush env)

/-- A signal, before the exit of the root or after it. -/
theorem spec_handleSignal (options : Options) (streamId : TerminalStreamId) (signal : Int32) :
    Spec (At d n) (handleSignal env host options streamId signal)
      (fun _ => Shifted host d n) (Shifted host d n) := by
  refine spec_ite (fun _ => ?_) fun _ => ?_
  · exact (keepsAt_resizeTerminal env options streamId).imp (fun _ hs => hs)
      (fun _ _ hs => hs.shifted) fun _ hs => hs.shifted
  refine spec_get_bind fun s hs => ?_
  refine Spec.imp (P := At d n) ?_ (fun t ht => ht ▸ hs) (fun _ _ ht => ht) fun _ ht => ht
  refine spec_bind (Q := fun _ => At d n)
    ((keepsAt_interrupt env _ signal).to fun _ ht => ht.shifted) fun _ => ?_
  refine spec_ite (fun hexited => ?_) fun _ => ?_
  · -- the flag that is read is that of the wait
    have hexited' : d.exited = true := hs.1 ▸ hexited
    exact spec_signalRemaining env _ signal hexited'
  · exact (keepsAt_signalChild _).imp (fun _ ht => ht) (fun _ _ ht => ht.shifted)
      fun _ ht => ht.shifted

/-- The exit of the root. -/
theorem spec_childExited (exit : ChildExit) (hexited : d.exited = false) :
    Spec (At d n) (childExited host exit) (fun _ => Shifted host d n) (Shifted host d n) := by
  refine spec_bind (Q := fun _ => At { d with exited := true } n) (spec_modify ?_) fun _ => ?_
  · rintro s ⟨rfl, htick⟩
    exact ⟨rfl, htick⟩
  refine spec_get_bind fun s hs => ?_
  refine Spec.imp (P := At { d with exited := true } n) ?_ (fun t ht => ht ▸ hs)
    (fun _ _ ht => ht) fun _ ht => ht
  have hended : s.outputEof = d.ended := congrArg Drain.ended hs.1
  refine spec_ite (fun heof => spec_pure fun t ht => ?_) fun heof => ?_
  · rw [hended] at heof
    have hshift := @Drain.Shift.exits (host.Read n t.world.tick) d 0 hexited
      fun hended' => absurd hended' (by simp [heof])
    rw [Shifted, ht.1]
    simpa only [heof, if_true] using hshift
  · rw [hended, Bool.not_eq_true] at heof
    refine spec_instant fun now => spec_modify ?_
    rintro t ⟨⟨hdrain, -⟩, hread⟩
    have hshift := Drain.Shift.exits hexited fun _ => hread
    have hshown : ∀ deadline, Supervisor.drain { t with postRootDrainDeadline := deadline }
        = { t.drain with deadline } := fun _ => rfl
    rw [Shifted, hshown, hdrain]
    simpa only [heof, Bool.false_eq_true, if_false] using hshift

theorem spec_pollChild : Spec (At d n) (pollChild host) (fun _ => Shifted host d n)
    (Shifted host d n) := by
  refine spec_get_bind fun s hs => ?_
  refine Spec.imp (P := At d n) ?_ (fun t ht => ht ▸ hs) (fun _ _ ht => ht) fun _ ht => ht
  refine spec_ite (fun _ => spec_pure fun _ ht => ht.shifted) fun hrunning => ?_
  have hexited : d.exited = false := by
    rw [← hs.1]
    exact Bool.not_eq_true _ ▸ hrunning
  refine spec_bind ((keepsAt_ask _).to fun _ ht => ht.shifted) fun answer => ?_
  rcases answer with error | _ | exit
  · refine spec_bind (Q := fun _ => At d n) (spec_modify fun _ ht => ht) fun _ => ?_
    refine spec_bind ((keepsAt_ask _).to fun _ ht => ht.shifted) fun exit => ?_
    exact spec_childExited _ hexited
  · have hkeeps : Keeps (At d n)
        (s.terminationDeadline.elim (return ()) (terminateOverdue host)) := by
      rcases s.terminationDeadline with _ | deadline
      · exact keeps_pure _
      · refine keeps_bind (keepsAt_ask _) fun now => spec_ite (fun _ => ?_) fun _ => keeps_pure _
        refine keeps_bind (keepsAt_ask _) fun refusal => ?_
        refine keeps_bind (keepsAt_orElse refusal fun error => keeps_modify fun _ ht => ht)
          fun _ => ?_
        exact keeps_modify fun _ ht => ht
    exact hkeeps.imp (fun _ ht => ht) (fun _ _ ht => ht.shifted) fun _ ht => ht.shifted
  · refine spec_bind (Q := fun _ => At d n) (spec_modify fun _ ht => ht) fun _ => ?_
    exact spec_childExited _ hexited

/-- The deadline has expired: the group is killed, or the output given up. -/
theorem spec_drainOverdue {now deadline : Nat} (hexited : d.exited = true)
    (hended : d.ended = false) (habandoned : d.abandoned = false)
    (hdeadline : d.deadline = some deadline) (hover : deadline ≤ now) :
    Spec (fun s => At d n s ∧ host.Read n s.world.tick now) (drainOverdue env host)
      (fun _ => Shifted host d n) (Shifted host d n) := by
  refine spec_get_bind ?_
  rintro s ⟨hs, hread⟩
  refine spec_ite (fun hrequested => ?_) fun _ => ?_
  · refine spec_bind (Q := fun _ => Shifted host d n) (spec_modify ?_) fun _ =>
      keeps_shifted fun d n => keepsAt_durable env _
    rintro t rfl
    obtain ⟨rfl, -⟩ := hs
    exact Drain.Shift.abandons hended habandoned hrequested hdeadline hread hover
  · refine Spec.imp (P := At d n) ?_ (fun t ht => ht ▸ hs) (fun _ _ ht => ht) fun _ ht => ht
    refine spec_instant fun now => ?_
    refine spec_bind (Q := fun _ => Shifted host d n) (spec_modify ?_) fun _ =>
      keeps_shifted fun d n => ?_
    · rintro t ⟨⟨rfl, -⟩, hread⟩
      exact Drain.Shift.requests hexited hread
    · refine keeps_bind (keepsAt_ask _) fun refusal => ?_
      rcases refusal with _ | error
      · exact keepsAt_durable env _
      · exact keepsAt_durable env _

theorem spec_pollPostRootDrain : Spec (At d n) (pollPostRootDrain env host)
    (fun _ => Shifted host d n) (Shifted host d n) := by
  refine spec_get_bind fun s hs => ?_
  refine Spec.imp (P := At d n) ?_ (fun t ht => ht ▸ hs) (fun _ _ ht => ht) fun _ ht => ht
  refine spec_ite (fun _ => spec_pure fun _ ht => ht.shifted) fun hwaits => ?_
  have hdrain := hs.1
  simp only [Bool.or_eq_true, Bool.not_eq_true', not_or, Bool.not_eq_true, Bool.not_eq_false]
    at hwaits
  obtain ⟨⟨hexited, hended⟩, habandoned⟩ := hwaits
  rcases hdeadline : s.postRootDrainDeadline with _ | deadline
  · exact spec_pure fun _ ht => ht.shifted
  · refine spec_instant fun now => spec_ite (fun _ => spec_pure fun _ ht => ht.1.shifted)
      fun hover => ?_
    subst hdrain
    exact spec_drainOverdue env hexited hended habandoned hdeadline (Nat.le_of_not_lt hover)

/-- An observation is responded to, or dismissed after a failure. -/
theorem spec_handle {P R : Supervisor → Prop} (codecs : Codecs) (options : Options)
    (streamId : TerminalStreamId) (observation : Observation)
    (hrespond : Spec P (respond env codecs host options streamId observation) (fun _ => R) R)
    (hdismiss : Spec P (dismiss observation) (fun _ => R) R)
    (hfail : ∀ error, Keeps R (fail error)) :
    Spec P (handle env codecs host options streamId observation) (fun _ => R) R := by
  refine spec_get_bind fun s hs => ?_
  refine Spec.imp (P := P) ?_ (fun t ht => ht ▸ hs) (fun _ _ ht => ht) fun _ ht => ht
  refine spec_ite (fun _ => hdismiss) fun _ => ?_
  refine spec_bind (spec_outcome (Q := fun _ => R)
    (hrespond.imp (fun _ ht => ht) (fun _ _ ht => ht) fun _ ht _ => ht)) fun result => ?_
  rcases result with error | _
  · exact hfail error
  · exact keeps_pure _

/-- **A turn changes the wait at most once**, and by what the clock says in this turn. -/
theorem Supervisor.shift (codecs : Codecs) (options : Options) (streamId : TerminalStreamId)
    (s : Supervisor) (t : Turn) :
    Shifted host s.drain s.world.tick (s.step env codecs host options streamId t) := by
  have hself : At s.drain s.world.tick s := ⟨rfl, Nat.le_refl _⟩
  rw [Supervisor.step]
  split
  · exact hself.shifted
  have hquiet : ∀ {m : Supervising Unit}, Keeps (fun t => t.drain = s.drain) m →
      Shifted host s.drain s.world.tick (exec m s).2 := by
    intro m hm
    rw [Shifted, hm.state rfl]
    exact .stays
  have hended : Spec (At s.drain s.world.tick) outputEnded
      (fun _ => Shifted host s.drain s.world.tick) (Shifted host s.drain s.world.tick) := by
    refine spec_modify ?_
    rintro t ⟨hdrain, -⟩
    have hshown : Supervisor.drain { t with outputEof := true, postRootDrainDeadline := none }
        = { t.drain with ended := true, deadline := none } := rfl
    rw [Shifted, hshown, hdrain]
    exact Drain.Shift.ends
  cases t with
  | fails error => exact hquiet (keepsDrain_fail error)
  | pollChild => exact spec_pollChild.state hself
  | pollPostRootDrain => exact (spec_pollPostRootDrain env).state hself
  | pollWorkspace => exact hquiet (keepsDrain_pollWorkspace env codecs host options)
  | terminateRemaining => exact hquiet (keepsDrain_terminateRemaining env host)
  | pollShutdown =>
    refine hquiet (spec_get_bind fun u hu => Keeps.at ?_ hu)
    rcases u.shutdownDeadline with _ | deadline
    · exact keeps_pure _
    · exact keepsDrain_pollShutdown env host deadline
  | conclude => exact hquiet (keepsDrain_conclude env codecs)
  | receive observation =>
    have hfails : ∀ error, Keeps (Shifted host s.drain s.world.tick) (fail error) := fun error =>
      keeps_shifted fun _ _ => keeps_modify fun _ ht => ht
    -- an observation that has nothing to do with the wait
    have hother : (∀ d, Keeps (fun t => t.drain = d)
          (respond env codecs host options streamId observation)) →
        (∀ d, Keeps (fun t => t.drain = d) (dismiss observation)) →
        Shifted host s.drain s.world.tick
          (exec (handle env codecs host options streamId observation) s).2 :=
      fun hrespond hdismiss => hquiet (spec_handle env codecs options streamId observation
        (hrespond _) (hdismiss _) fun error => keepsDrain_fail error)
    cases observation with
    | outputEof =>
      exact (spec_handle env codecs options streamId .outputEof hended hended hfails).state hself
    | signal signal =>
      exact (spec_handle env codecs options streamId (.signal signal)
        (spec_handleSignal env options streamId signal) (spec_pure fun _ ht => ht.shifted)
        hfails).state hself
    | terminalOutput bytes =>
      exact hother (fun _ => keepsDrain_terminal fun _ =>
        keepsFlags_recordOutput env codecs options.terminal streamId bytes) fun _ => keeps_pure _
    | terminalInput bytes echoEnabled =>
      exact hother (fun _ => keepsDrain_recordInput env codecs options streamId bytes echoEnabled)
        fun _ => keeps_pure _
    | processSnapshot result =>
      exact hother (fun _ => keepsDrain_recordProcesses env result) fun _ => keeps_pure _
    | marker label =>
      exact hother (fun _ => keepsDrain_handleMarker env codecs host label) fun _ =>
        keeps_modify fun _ ht => ht
    | producerFailed producer message =>
      exact hother (fun _ => keeps_throw _) fun _ => keeps_pure _

end Timed

/-! ### Runs -/

section Runs

variable (env : Env) (codecs : Codecs) (host : Host) (options : Options)
  (streamId : TerminalStreamId)

/-- The state after some turns. -/
def Supervisor.after (s : Supervisor) (turns : List Turn) : Supervisor :=
  Machine.run (Supervisor.step env codecs host options streamId) s turns

/-- In one of the turns the deadline was set, by what the clock said in this turn. -/
def SetWithin (s : Supervisor) (turns : List Turn) (deadline : Nat) : Prop :=
  ∃ before t after, turns = before ++ t :: after ∧
    let s₁ := s.after env codecs host options streamId before
    let s₂ := s₁.step env codecs host options streamId t
    s₂.postRootDrainDeadline = some deadline ∧ ∃ now grace,
      host.Read s₁.world.tick s₂.world.tick now ∧ deadline = now + grace
        ∧ (grace = SIGNAL_GRACE_PERIOD ∨ grace = POST_KILL_DRAIN_GRACE)

/-- In one of the turns the group was asked to be killed, and the deadline was set in this turn or
in a later one. -/
def SetSinceRequest (s : Supervisor) (turns : List Turn) (deadline : Nat) : Prop :=
  ∃ before request after, turns = before ++ request :: after ∧
    let s₁ := s.after env codecs host options streamId before
    s₁.postRootKillRequested = false
      ∧ (s₁.step env codecs host options streamId request).postRootKillRequested = true
      ∧ SetWithin env codecs host options streamId s₁ (request :: after) deadline

/-- In one of the turns the output was given up: after the request to kill the group, and past a
deadline that was set at this request or later. -/
def AbandonedOverdue (s : Supervisor) (turns : List Turn) : Prop :=
  ∃ before t after, turns = before ++ t :: after ∧
    let s₁ := s.after env codecs host options streamId before
    let s₂ := s₁.step env codecs host options streamId t
    s₁.outputAbandoned = false ∧ s₂.outputAbandoned = true ∧ ∃ deadline now,
      s₁.postRootDrainDeadline = some deadline
        ∧ SetSinceRequest env codecs host options streamId s before deadline
        ∧ host.Read s₁.world.tick s₂.world.tick now ∧ deadline ≤ now

variable {env codecs host options streamId} {s : Supervisor} {turns : List Turn} {deadline : Nat}

theorem Supervisor.after_concat (t : Turn) :
    s.after env codecs host options streamId (turns ++ [t])
      = (s.after env codecs host options streamId turns).step env codecs host options streamId t :=
  Machine.run_append s turns [t]

theorem SetWithin.concat (h : SetWithin env codecs host options streamId s turns deadline)
    (t : Turn) : SetWithin env codecs host options streamId s (turns ++ [t]) deadline := by
  obtain ⟨before, u, rest, rfl, hset⟩ := h
  exact ⟨before, u, rest ++ [t], by rw [List.append_assoc, List.cons_append], hset⟩

theorem SetSinceRequest.concat
    (h : SetSinceRequest env codecs host options streamId s turns deadline) (t : Turn) :
    SetSinceRequest env codecs host options streamId s (turns ++ [t]) deadline := by
  obtain ⟨before, u, rest, rfl, hbefore, hrequest, hset⟩ := h
  exact ⟨before, u, rest ++ [t], by rw [List.append_assoc, List.cons_append], hbefore, hrequest,
    hset.concat t⟩

theorem AbandonedOverdue.concat (h : AbandonedOverdue env codecs host options streamId s turns)
    (t : Turn) : AbandonedOverdue env codecs host options streamId s (turns ++ [t]) := by
  obtain ⟨before, u, rest, rfl, habandoned⟩ := h
  exact ⟨before, u, rest ++ [t], by rw [List.append_assoc, List.cons_append], habandoned⟩

/-- A deadline that is set in the last turn, after the request. -/
theorem SetSinceRequest.set {bound : Nat} {t : Turn} {now grace : Nat}
    (h : SetSinceRequest env codecs host options streamId s turns bound)
    (hdeadline : (s.after env codecs host options streamId (turns ++ [t])).postRootDrainDeadline
      = some (now + grace))
    (hread : host.Read (s.after env codecs host options streamId turns).world.tick
      (s.after env codecs host options streamId (turns ++ [t])).world.tick now)
    (hgrace : grace = SIGNAL_GRACE_PERIOD ∨ grace = POST_KILL_DRAIN_GRACE) :
    SetSinceRequest env codecs host options streamId s (turns ++ [t]) (now + grace) := by
  obtain ⟨before, u, rest, rfl, hbefore, hrequest, -⟩ := h
  rw [Supervisor.after_concat] at hdeadline hread
  have hsplit : s.after env codecs host options streamId (before ++ u :: rest)
      = (s.after env codecs host options streamId before).after env codecs host options streamId
        (u :: rest) := Machine.run_append s before (u :: rest)
  rw [hsplit] at hdeadline hread
  refine ⟨before, u, rest ++ [t], by rw [List.append_assoc, List.cons_append], hbefore, hrequest,
    u :: rest, t, [], rfl, hdeadline, now, grace, hread, rfl, hgrace⟩

/-- What is known of the wait after some turns. -/
structure Watched (env : Env) (codecs : Codecs) (host : Host) (options : Options)
    (streamId : TerminalStreamId) (s : Supervisor) (turns : List Turn) (d : Drain) : Prop where
  bounded : d.Bounded
  set : d.killRequested = true → d.ended = false → d.abandoned = false →
    ∃ deadline, d.deadline = some deadline
      ∧ SetSinceRequest env codecs host options streamId s turns deadline
  abandoned : d.abandoned = true → AbandonedOverdue env codecs host options streamId s turns

theorem Watched.concat {t : Turn} {s₁ s₂ : Supervisor}
    (hs₁ : s.after env codecs host options streamId turns = s₁)
    (hs₂ : s₁.step env codecs host options streamId t = s₂)
    (h : Watched env codecs host options streamId s turns s₁.drain) :
    Watched env codecs host options streamId s (turns ++ [t]) s₂.drain := by
  have hafter : s.after env codecs host options streamId (turns ++ [t]) = s₂ := by
    rw [Supervisor.after_concat, hs₁, hs₂]
  have hshift : s₁.drain.Shift (host.Read s₁.world.tick s₂.world.tick) s₂.drain :=
    hs₂ ▸ Supervisor.shift env codecs options streamId s₁ t
  -- a deadline that is set after the request, in the turn `t`
  have hset : ∀ bound now grace, SetSinceRequest env codecs host options streamId s turns bound →
      s₂.drain.deadline = some (now + grace) → host.Read s₁.world.tick s₂.world.tick now →
      (grace = SIGNAL_GRACE_PERIOD ∨ grace = POST_KILL_DRAIN_GRACE) →
      SetSinceRequest env codecs host options streamId s (turns ++ [t]) (now + grace) := by
    intro bound now grace hbound hdeadline hread hgrace
    refine hbound.set ?_ ?_ hgrace
    · rw [hafter]
      exact hdeadline
    · rw [hafter, hs₁]
      exact hread
  refine ⟨h.bounded.shift hshift, ?_, ?_⟩
  · generalize hd : s₂.drain = d at hshift hset
    intro hrequested hended habandoned
    cases hshift with
    | stays =>
      obtain ⟨deadline, hdeadline, hsince⟩ := h.set hrequested hended habandoned
      exact ⟨deadline, hdeadline, hsince.concat t⟩
    | exits hexited hread =>
      have hgone := h.bounded.exited hrequested
      rw [hexited] at hgone
      exact absurd hgone (by simp)
    | ends => exact absurd hended (by simp)
    | @shortens now hexited hread =>
      obtain ⟨deadline, hdeadline, hsince⟩ := h.set hrequested hended habandoned
      by_cases hearlier : s₁.drain.deadline.all (now + SIGNAL_GRACE_PERIOD < ·) = true
      · refine ⟨_, if_pos hearlier, hset deadline now _ hsince (if_pos hearlier) hread (Or.inl rfl)⟩
      · exact ⟨deadline, (if_neg hearlier).trans hdeadline, hsince.concat t⟩
    | @requests now hexited hread =>
      refine ⟨_, rfl, ?_⟩
      cases hfirst : s₁.drain.killRequested with
      | true =>
        obtain ⟨deadline, -, hsince⟩ := h.set hfirst hended habandoned
        exact hset deadline now _ hsince rfl hread (Or.inr rfl)
      | false =>
        -- the group is asked to be killed in this turn
        have hdeadline : s₂.postRootDrainDeadline = some (now + POST_KILL_DRAIN_GRACE) :=
          congrArg Drain.deadline hd
        have hkill : s₂.postRootKillRequested = true := congrArg Drain.killRequested hd
        subst hs₁ hs₂
        exact ⟨turns, t, [], rfl, hfirst, hkill, [], t, [], rfl, hdeadline, now, _, hread, rfl,
          Or.inr rfl⟩
    | abandons => exact absurd habandoned (by simp)
  · intro habandoned
    cases hbefore : s₁.drain.abandoned with
    | true => exact (h.abandoned hbefore).concat t
    | false =>
      have hkept : ∀ d, s₂.drain = d → d.abandoned = s₁.drain.abandoned → False := by
        rintro d rfl hsame
        rw [hbefore, habandoned] at hsame
        exact absurd hsame (by simp)
      generalize hd : s₂.drain = d at hshift
      cases hshift with
      | @abandons now deadline hended _ hrequested hdeadline hread hover =>
        obtain ⟨deadline', hdeadline', hsince⟩ := h.set hrequested hended hbefore
        obtain rfl : deadline' = deadline :=
          Option.some.inj (hdeadline'.symm.trans hdeadline)
        subst hs₁ hs₂
        exact ⟨turns, t, [], rfl, hbefore, habandoned, deadline', now, hdeadline, hsince, hread,
          hover⟩
      | _ => exact (hkept _ hd rfl).elim

end Runs

end Supervision

open Supervision

end Rewind
