/-
Manual checkpoints over the control socket.

The connection thread of the control server hands a marker to the coordinator, waits for the
reply with a timeout, and reads the stop flag after each timeout.  The coordinator takes markers
between its other work, commits their checkpoints and replies; it sets the flag when the child
has exited.

* `Control`, `Control.step` — the two parties and the channels between them, move by move;
* `Agreed` — what is known of a request, wherever it is;
* **`marker_agreement`** — a rejected request has no checkpoint and an accepted one has a durable
  one, as long as the flag that ends a wait is not read after the checkpoint has been committed.
-/
import Rewind.Capture.Effects
import Rewind.Capture.Sequence

namespace Rewind

open Call

/-! ### The wire -/

def CONTROL_PROTOCOL_VERSION : UInt16 := 1

structure ControlResponse where
  version : UInt16
  accepted : Bool
  runId : Option RunId
  checkpointId : Option CheckpointId
  message : Option String
deriving DecidableEq

/-- `ControlResponse::accepted`. -/
def ControlResponse.acceptedFor (runId : RunId) (checkpointId : CheckpointId) : ControlResponse :=
  ⟨CONTROL_PROTOCOL_VERSION, true, some runId, some checkpointId, none⟩

/-- `ControlResponse::rejected`. -/
def ControlResponse.rejectedFor (runId : RunId) (message : String) : ControlResponse :=
  ⟨CONTROL_PROTOCOL_VERSION, false, some runId, none, some message⟩

/-- Successful evidence returned by the active recorder. -/
structure MarkOutcome where
  runId : RunId
  checkpointId : CheckpointId
deriving DecidableEq

inductive ControlClientError where
  | unsupportedVersion (found supported : UInt16)
  | rejected (message : String)
  | incompleteResponse
deriving DecidableEq

/-- What the client makes of a response. -/
def markOutcome (response : ControlResponse) : Except ControlClientError MarkOutcome :=
  if response.version ≠ CONTROL_PROTOCOL_VERSION then
    .error (.unsupportedVersion response.version CONTROL_PROTOCOL_VERSION)
  else if response.accepted then
    match response.runId, response.checkpointId with
    | some runId, some checkpointId => .ok ⟨runId, checkpointId⟩
    | _, _ => .error .incompleteResponse
  else
    .error (.rejected (response.message.getD "request was not accepted"))

/-! ### The parties -/

/-- What is sent over a reply channel. -/
abbrev Reply := Except String CheckpointId

/-- Where the sending end of a request's reply channel is. -/
inductive Place where
  | queued
  | taken
  | replying (reply : Reply)
  | replied (reply : Reply)
  | dropped
deriving DecidableEq

/-- A request, with the checkpoints in the store before and after the coordinator has handled it,
and the response its client receives. -/
structure MarkerRequest where
  label : Option String
  place : Place
  handled : Option (List CheckpointRow × List CheckpointRow)
  response : Option ControlResponse

/-- The reply that is ready is sent. -/
def MarkerRequest.deliver (r : MarkerRequest) : MarkerRequest :=
  match r.place with
  | .replying reply => { r with place := .replied reply }
  | _ => r

/-- The sending end goes away with the queue. -/
def MarkerRequest.abandon (r : MarkerRequest) : MarkerRequest :=
  if r.place = .queued then { r with place := .dropped } else r

/-- The coordinator is at work on the request. -/
def MarkerRequest.inHand (r : MarkerRequest) : Bool :=
  match r.place with
  | .taken | .replying _ => true
  | _ => false

/-- What the connection thread is doing; a request it waits for is given by its index. -/
inductive ServerPhase where
  | listening
  | sending (label : Option String)
  | waiting (request : Nat)
  | timedOut (request : Nat)

/-- The connection thread, the coordinator with its recorder, and the stop flag. -/
structure Control where
  world : World
  requests : List MarkerRequest
  server : ServerPhase
  childExit : Bool
  fatal : Bool
  gone : Bool
  stop : Bool

/-- The next move. -/
inductive ControlAction where
  | connect (frame : Except String (Option String))
  | send (accepted : Bool)
  | receive
  | timeOut
  | readStop
  | take
  | commit
  | reply (fatal : Bool)
  | other (op : RecorderOp)
  | childExits
  | fails
  | requestStop
  | leave
  | dropQueue

namespace Control

variable (env : Env) (codecs : Codecs) (display : CaptureError → String)

/-- The coordinator is at work on a marker. -/
def busy (c : Control) : Bool := c.requests.any (·.inHand)

def change (c : Control) (i : Nat) (f : MarkerRequest → MarkerRequest) : Control :=
  { c with requests := c.requests.modify i f }

/-- The connection thread answers the request, and returns to its listener. -/
def respond (c : Control) (i : Nat) (response : ControlResponse) : Control :=
  { c.change i fun r => { r with response := some response } with server := .listening }

/-- A request that never reaches the coordinator. -/
def refuse (c : Control) (label : Option String) (message : String) : Control :=
  { c with
    requests := c.requests
      ++ [⟨label, .dropped, none, some (.rejectedFor c.world.recorder.runId message)⟩]
    server := .listening }

/-- The first request at a place. -/
def firstAt (c : Control) (place : Place) : Option Nat :=
  c.requests.findIdx? fun r => r.place = place

/-- What `recv_timeout` finds on the reply channel: a message, or that it is disconnected. -/
def receive (c : Control) (i : Nat) : Option ControlResponse := do
  let r ← c.requests[i]?
  match r.place with
  | .replied (.ok checkpointId) => some (.acceptedFor c.world.recorder.runId checkpointId)
  | .replied (.error message) => some (.rejectedFor c.world.recorder.runId message)
  | .dropped => some (.rejectedFor c.world.recorder.runId "recorder is shutting down")
  | .queued | .taken | .replying _ => none

/-- The coordinator takes a marker; while it stops it answers at once. -/
def takeMarker (c : Control) (i : Nat) : Control :=
  c.change i fun r =>
    { r with
      place :=
        if c.fatal then .replied (.error "recorder is stopping after a failure")
        else if c.childExit then .replied (.error "run is already stopping")
        else .taken }

/-- The coordinator runs `manual_checkpoint` for a marker. -/
def commitMarker (c : Control) (i : Nat) (label : Option String) : Control :=
  let done := exec (Recorder.manualCheckpoint env codecs label) c.world
  { c.change i fun r =>
      { r with
        place := .replying (done.1.mapError display)
        handled := some (c.world.db.checkpoints, done.2.db.checkpoints) } with
    world := done.2 }

/-- One move; one that is not possible does nothing. -/
def step (c : Control) : ControlAction → Control
  | .connect frame =>
    match c.server, frame with
    | .listening, .error message => c.refuse none message
    | .listening, .ok label => { c with server := .sending label }
    | _, _ => c
  | .send accepted =>
    match c.server with
    | .sending label =>
      if accepted then
        { c with
          requests := c.requests ++ [⟨label, .queued, none, none⟩]
          server := .waiting c.requests.length }
      else
        c.refuse label "recorder is shutting down"
    | _ => c
  | .receive =>
    match c.server with
    | .waiting i => ((c.receive i).map (c.respond i)).getD c
    | _ => c
  | .timeOut =>
    match c.server with
    | .waiting i => if (c.receive i).isNone then { c with server := .timedOut i } else c
    | _ => c
  | .readStop =>
    match c.server with
    | .timedOut i =>
      if c.stop then
        c.respond i (.rejectedFor c.world.recorder.runId "recorder is shutting down")
      else
        { c with server := .waiting i }
    | _ => c
  | .take =>
    if c.busy || c.gone then c else ((c.firstAt .queued).map c.takeMarker).getD c
  | .commit =>
    match c.firstAt .taken with
    | some i =>
      match c.requests[i]? with
      | some r => c.commitMarker env codecs display i r.label
      | none => c
    | none => c
  | .reply fatal =>
    { c with
      requests := c.requests.map (·.deliver)
      fatal := c.fatal || (fatal && c.busy) }
  | .other op => if c.busy then c else { c with world := recorderStep env codecs c.world op }
  | .childExits => if c.busy then c else { c with childExit := true }
  | .fails => if c.busy then c else { c with fatal := true }
  | .requestStop => if (c.childExit && !c.busy) || c.gone then { c with stop := true } else c
  | .leave => if c.busy then c else { c with gone := true }
  | .dropQueue =>
    if c.gone then
      { c with requests := c.requests.map (·.abandon) }
    else c

/-- The server has been started, and nothing has happened. -/
def start (world : World) : Control := ⟨world, [], .listening, false, false, false, false⟩

end Control

/-! ### What is to be kept -/

/-- A manual checkpoint has been committed for the request. -/
def MarkerRequest.Committed (r : MarkerRequest) : Prop :=
  ∃ handled ∈ r.handled, ∃ row ∈ handled.2, row.reason = .manual ∧ row ∉ handled.1

instance (r : MarkerRequest) : Decidable r.Committed :=
  match h : r.handled with
  | none => .isFalse fun ⟨_, hhandled, _⟩ => by simp [h] at hhandled
  | some handled =>
    decidable_of_iff (∃ row ∈ handled.2, row.reason = .manual ∧ row ∉ handled.1) <| by
      simp [MarkerRequest.Committed, h]

/-- The store holds the manual checkpoint. -/
def Durable (checkpoints : List CheckpointRow) (id : CheckpointId) : Prop :=
  ∃ row ∈ checkpoints, row.id = id ∧ row.reason = .manual

/-- What the client is told is so. -/
def Truthful (checkpoints : List CheckpointRow) (r : MarkerRequest) : Prop :=
  ∀ response ∈ r.response, match markOutcome response with
    | .ok outcome => Durable checkpoints outcome.checkpointId
    | .error _ => ¬ r.Committed

/-- A flag that ends a wait is read before the checkpoint of the request is committed. -/
def StopReadInTime (c : Control) : ControlAction → Prop
  | .readStop =>
    match c.server with
    | .timedOut i => c.stop = true → ∀ r ∈ c.requests[i]?, ¬ r.Committed
    | _ => True
  | _ => True

instance (c : Control) (action : ControlAction) : Decidable (StopReadInTime c action) :=
  match action with
  | .readStop =>
    match h : c.server with
    | .timedOut i =>
      decidable_of_iff (c.stop = true → ∀ r ∈ (c.requests[i]?).toList, ¬ r.Committed) <| by
        simp [StopReadInTime, h]
    | .listening | .sending _ | .waiting _ => .isTrue <| by simp [StopReadInTime, h]
  | .connect _ | .send _ | .receive | .timeOut | .take | .commit | .reply _ | .other _
  | .childExits | .fails | .requestStop | .leave | .dropQueue => .isTrue trivial

/-! ### The invariant -/

/-- The coordinator commits no more checkpoints for markers. -/
def Control.over (c : Control) : Bool := c.childExit || c.gone

/-- What is known of a request from the place of its reply channel. -/
def Placed (checkpoints : List CheckpointRow) (r : MarkerRequest) : Prop :=
  match r.place with
  | .queued | .taken => r.handled = none
  | .replying (.ok id) | .replied (.ok id) => Durable checkpoints id
  | .replying (.error _) | .replied (.error _) | .dropped => ¬ r.Committed

/-- What is known of a request. -/
structure Agreed (checkpoints : List CheckpointRow) (ended : Bool) (r : MarkerRequest) : Prop where
  placed : Placed checkpoints r
  idle : ended = true → r.place ≠ .taken
  truthful : Truthful checkpoints r
  answered : r.response.isSome = true → r.place ≠ .taken ∧ (r.place = .queued → ended = true)

/-- What holds between any two moves. -/
structure Control.Sound (c : Control) : Prop where
  counted : Counted c.world
  stopped : c.stop = true → c.over = true
  agreed : ∀ r ∈ c.requests, Agreed c.world.db.checkpoints c.over r

section Requests

variable {checkpoints checkpoints' : List CheckpointRow} {ended : Bool} {r : MarkerRequest}

theorem not_committed_of_handled (h : r.handled = none) : ¬ r.Committed := by
  rintro ⟨handled, hhandled, -⟩
  rw [h] at hhandled
  exact absurd hhandled (by simp)

theorem Durable.mono {id : CheckpointId} (h : Durable checkpoints id)
    (hsub : checkpoints ⊆ checkpoints') : Durable checkpoints' id := by
  obtain ⟨row, hrow, hid⟩ := h
  exact ⟨row, hsub hrow, hid⟩

/-- The checkpoints that are added take nothing back. -/
theorem Agreed.mono (h : Agreed checkpoints ended r) (hsub : checkpoints ⊆ checkpoints') :
    Agreed checkpoints' ended r where
  placed := by
    have hplaced := h.placed
    unfold Placed at hplaced ⊢
    rcases hplace : r.place with _ | _ | (_ | id) | (_ | id) | _ <;> rw [hplace] at hplaced
    case replying.ok => exact Durable.mono hplaced hsub
    case replied.ok => exact Durable.mono hplaced hsub
    all_goals exact hplaced
  idle := h.idle
  truthful := by
    intro response hresponse
    have htruthful := h.truthful response hresponse
    rcases hoccurs : markOutcome response with error | outcome
    · rw [hoccurs] at htruthful
      exact htruthful
    · rw [hoccurs] at htruthful
      exact htruthful.mono hsub
  answered := h.answered

/-- The request is moved to another place, by a coordinator that has not handled it otherwise. -/
theorem Agreed.move (h : Agreed checkpoints ended r) {place : Place}
    (hplaced : Placed checkpoints { r with place }) (hidle : place ≠ .taken ∨ ended = false)
    (hanswered : r.response.isSome = true → place ≠ .taken ∧ (place = .queued → ended = true)) :
    Agreed checkpoints ended { r with place } where
  placed := hplaced
  idle hover := hidle.resolve_right fun hfalse => by
    rw [hover] at hfalse
    exact absurd hfalse (by simp)
  truthful := h.truthful
  answered := hanswered

theorem Agreed.deliver (h : Agreed checkpoints ended r) : Agreed checkpoints ended r.deliver := by
  unfold MarkerRequest.deliver
  rcases hplace : r.place with _ | _ | reply | _ | _
  case replying =>
    refine h.move ?_ (Or.inl (by simp)) fun _ => ⟨by simp, by simp⟩
    have hplaced := h.placed
    rw [Placed, hplace] at hplaced
    rcases reply with message | id <;> exact hplaced
  all_goals exact h

theorem Agreed.abandon (h : Agreed checkpoints ended r) : Agreed checkpoints ended r.abandon := by
  unfold MarkerRequest.abandon
  by_cases hplace : r.place = .queued
  · rw [if_pos hplace]
    refine h.move ?_ (Or.inl (by simp)) fun _ => ⟨by simp, by simp⟩
    have hplaced := h.placed
    rw [Placed, hplace] at hplaced
    exact not_committed_of_handled hplaced
  · rw [if_neg hplace]
    exact h

/-- A true response is given to a request that the coordinator has done with. -/
theorem Agreed.respond (h : Agreed checkpoints ended r) {response : ControlResponse}
    (htruthful : match markOutcome response with
      | .ok outcome => Durable checkpoints outcome.checkpointId
      | .error _ => ¬ r.Committed)
    (hplace : r.place ≠ .taken ∧ (r.place = .queued → ended = true)) :
    Agreed checkpoints ended { r with response := some response } where
  placed := h.placed
  idle := h.idle
  truthful := by
    intro response' hresponse
    obtain rfl := Option.some.inj hresponse
    exact htruthful
  answered _ := hplace

/-- A request that is refused before it is sent. -/
theorem agreed_refused (label : Option String) (runId : RunId) (message : String) :
    Agreed checkpoints ended
      ⟨label, .dropped, none, some (.rejectedFor runId message)⟩ where
  placed := not_committed_of_handled rfl
  idle _ := by simp
  truthful := by
    intro response hresponse
    obtain rfl := Option.some.inj hresponse
    exact not_committed_of_handled rfl
  answered _ := ⟨by simp, by simp⟩

theorem agreed_queued (label : Option String) :
    Agreed checkpoints ended ⟨label, .queued, none, none⟩ where
  placed := rfl
  idle _ := by simp
  truthful := by
    intro response hresponse
    exact absurd hresponse (by simp)
  answered hsome := absurd hsome (by simp)

end Requests

/-! ### The moves -/

theorem forall_mem_modify {α : Type} {P : α → Prop} {f : α → α} {as : List α} {i : Nat}
    (has : ∀ a ∈ as, P a) (hf : ∀ a, as[i]? = some a → P (f a)) : ∀ a ∈ as.modify i f, P a := by
  intro a ha
  obtain ⟨j, hj⟩ := List.mem_iff_getElem?.mp ha
  rw [List.getElem?_modify] at hj
  rcases hget : as[j]? with _ | b
  · rw [hget] at hj
    exact absurd hj (by simp)
  · rw [hget] at hj
    by_cases heq : i = j
    · subst heq
      have hab : f b = a := by simpa using hj
      rw [← hab]
      exact hf b hget
    · have hab : b = a := by simpa [heq] using hj
      rw [← hab]
      exact has b (List.mem_of_getElem? hget)

theorem Control.firstAt_eq_some {c : Control} {place : Place} {i : Nat}
    (h : c.firstAt place = some i) : ∃ r, c.requests[i]? = some r ∧ r.place = place := by
  obtain ⟨hlt, hplace, -⟩ := List.findIdx?_eq_some_iff_getElem.mp h
  exact ⟨c.requests[i], List.getElem?_eq_getElem hlt, by simpa using hplace⟩

namespace Control.Sound

variable {env : Env} {codecs : Codecs} {display : CaptureError → String} {c : Control}

theorem of_requests (h : c.Sound) {requests : List MarkerRequest} (server : ServerPhase)
    (fatal : Bool) (hrequests : ∀ r ∈ requests, Agreed c.world.db.checkpoints c.over r) :
    Control.Sound { c with requests, server, fatal } := ⟨h.counted, h.stopped, hrequests⟩

theorem refuse (h : c.Sound) (label : Option String) (message : String) :
    (c.refuse label message).Sound := by
  refine h.of_requests .listening c.fatal fun r hr => ?_
  rcases List.mem_append.mp hr with hr | hr
  · exact h.agreed r hr
  · rw [List.mem_singleton.mp hr]
    exact agreed_refused label _ message

/-- A response that is true of the request at `i`. -/
theorem respond (h : c.Sound) {i : Nat} {response : ControlResponse}
    (htruthful : ∀ r, c.requests[i]? = some r → (match markOutcome response with
      | .ok outcome => Durable c.world.db.checkpoints outcome.checkpointId
      | .error _ => ¬ r.Committed) ∧ r.place ≠ .taken ∧ (r.place = .queued → c.over = true)) :
    (c.respond i response).Sound := by
  refine h.of_requests .listening c.fatal (forall_mem_modify h.agreed fun r hr => ?_)
  obtain ⟨htrue, hplace⟩ := htruthful r hr
  exact (h.agreed r (List.mem_of_getElem? hr)).respond htrue hplace

theorem receive (h : c.Sound) {i : Nat} {response : ControlResponse}
    (hreceive : c.receive i = some response) : (c.respond i response).Sound := by
  refine h.respond fun r hr => ?_
  have hplaced := (h.agreed r (List.mem_of_getElem? hr)).placed
  unfold Control.receive at hreceive
  rw [hr] at hreceive
  unfold Placed at hplaced
  rcases hplace : r.place with _ | _ | _ | (message | id) | _
  case replied.ok =>
    simp only [hplace, Option.bind_eq_bind, Option.bind_some, Option.some.injEq] at hreceive hplaced
    rw [← hreceive]
    exact ⟨hplaced, by simp, by simp⟩
  case replied.error =>
    simp only [hplace, Option.bind_eq_bind, Option.bind_some, Option.some.injEq] at hreceive hplaced
    rw [← hreceive]
    exact ⟨hplaced, by simp, by simp⟩
  case dropped =>
    simp only [hplace, Option.bind_eq_bind, Option.bind_some, Option.some.injEq] at hreceive hplaced
    rw [← hreceive]
    exact ⟨hplaced, by simp, by simp⟩
  all_goals simp [hplace] at hreceive

/-- A coordinator that is not at work may stop for good. -/
theorem ended (h : c.Sound) (hbusy : c.busy = false) {c' : Control} (hworld : c'.world = c.world)
    (hrequests : c'.requests = c.requests) (hover : c'.over = true) : c'.Sound where
  counted := hworld ▸ h.counted
  stopped _ := hover
  agreed := by
    intro r hr
    rw [hworld, hover]
    rw [hrequests] at hr
    have hagreed := h.agreed r hr
    refine ⟨hagreed.placed, fun _ htaken => ?_, hagreed.truthful, fun hsome => ?_⟩
    · have hhand : r.inHand = true := by rw [MarkerRequest.inHand, htaken]
      have hany : c.busy = true := List.any_eq_true.mpr ⟨r, hr, hhand⟩
      rw [hbusy] at hany
      exact absurd hany (by simp)
    · exact ⟨(hagreed.answered hsome).1, fun _ => rfl⟩

theorem takeMarker (h : c.Sound) (hgone : c.gone = false) {i : Nat}
    (hfirst : c.firstAt .queued = some i) : (c.takeMarker i).Sound := by
  obtain ⟨r₀, hget, hqueued⟩ := firstAt_eq_some hfirst
  refine h.of_requests c.server c.fatal (forall_mem_modify h.agreed fun r hr => ?_)
  obtain rfl : r₀ = r := Option.some.inj (hget.symm.trans hr)
  have hagreed := h.agreed r₀ (List.mem_of_getElem? hr)
  have hhandled : r₀.handled = none := by
    have hplaced := hagreed.placed
    rw [Placed, hqueued] at hplaced
    exact hplaced
  by_cases hfatal : c.fatal = true
  · simp only [hfatal, if_true]
    exact hagreed.move (not_committed_of_handled hhandled) (Or.inl (by simp))
      fun _ => ⟨by simp, by simp⟩
  by_cases hexit : c.childExit = true
  · simp only [hfatal, hexit, Bool.false_eq_true, if_false, if_true]
    exact hagreed.move (not_committed_of_handled hhandled) (Or.inl (by simp))
      fun _ => ⟨by simp, by simp⟩
  · simp only [hfatal, hexit, Bool.false_eq_true, if_false]
    have hover : c.over = false := by simp [Control.over, hexit, hgone]
    refine hagreed.move hhandled (Or.inr hover) fun hsome => ?_
    -- an answered request is only queued when no marker is taken any more
    have hanswered := (hagreed.answered hsome).2 hqueued
    rw [hover] at hanswered
    exact absurd hanswered (by simp)

/-- The coordinator's own call: it reports the one checkpoint that it commits. -/
theorem manualCheckpoint (label : Option String) {w : World} (hcounted : Counted w) :
    match exec (Recorder.manualCheckpoint env codecs label) w with
    | (.ok id, t) => (∃ row, t.db.checkpoints = w.db.checkpoints ++ [row] ∧ row.id = id
        ∧ row.reason = .manual) ∧ Counted t
    | (.error _, t) => t.db.checkpoints = w.db.checkpoints ∧ Counted t := by
  have hspec := (effects_checkpoints env codecs (· = .manual)
    (· = w.db.checkpoints)).spec_manualCheckpoint rfl label w ⟨rfl, hcounted⟩
  rcases hexec : exec (Recorder.manualCheckpoint env codecs label) w with ⟨error | id, t⟩
  · rw [hexec] at hspec
    exact hspec
  · rw [hexec] at hspec
    obtain ⟨-, ⟨base, row, rfl, hcheckpoints, hid, hreason⟩, hcount⟩ := hspec
    exact ⟨⟨row, hcheckpoints, hid, hreason⟩, hcount⟩

theorem commitMarker (h : c.Sound) {i : Nat} {r₀ : MarkerRequest}
    (hget : c.requests[i]? = some r₀) (htaken : r₀.place = .taken) :
    (c.commitMarker env codecs display i r₀.label).Sound := by
  have hspec := @manualCheckpoint env codecs r₀.label c.world h.counted
  have hagreed₀ := h.agreed r₀ (List.mem_of_getElem? hget)
  have hanswered : r₀.response.isSome = true → False :=
    fun hsome => (hagreed₀.answered hsome).1 htaken
  have hresponse : r₀.response = none :=
    Option.not_isSome_iff_eq_none.mp fun hsome => hanswered hsome
  unfold Control.commitMarker
  rcases hexec : exec (Recorder.manualCheckpoint env codecs r₀.label) c.world with ⟨error | id, t⟩
  · rw [hexec] at hspec
    obtain ⟨hcheckpoints, hcounted⟩ := hspec
    refine ⟨hcounted, h.stopped, forall_mem_modify ?_ fun r hr => ?_⟩
    · exact fun r hr => (h.agreed r hr).mono (by rw [hcheckpoints]; exact fun _ hrow => hrow)
    · obtain rfl : r₀ = r := Option.some.inj (hget.symm.trans hr)
      refine ⟨?_, fun _ => by simp [Except.mapError], ?_, fun hsome => (hanswered hsome).elim⟩
      · rintro ⟨handled, hhandled, row, hrow, -, hnew⟩
        obtain rfl := Option.some.inj hhandled
        exact hnew (hcheckpoints ▸ hrow)
      · intro response hresponse'
        have hsome : r₀.response = some response := hresponse'
        rw [hresponse] at hsome
        exact absurd hsome (by simp)
  · rw [hexec] at hspec
    obtain ⟨⟨row, hcheckpoints, hid, hreason⟩, hcounted⟩ := hspec
    refine ⟨hcounted, h.stopped, forall_mem_modify ?_ fun r hr => ?_⟩
    · exact fun r hr => (h.agreed r hr).mono (by
        rw [hcheckpoints]; exact List.subset_append_left _ _)
    · obtain rfl : r₀ = r := Option.some.inj (hget.symm.trans hr)
      refine ⟨?_, fun _ => by simp [Except.mapError], ?_, fun hsome => (hanswered hsome).elim⟩
      · show Durable t.db.checkpoints id
        refine ⟨row, ?_, hid, hreason⟩
        rw [hcheckpoints]
        exact List.mem_append_right _ (List.mem_singleton.mpr rfl)
      · intro response hresponse'
        have hsome : r₀.response = some response := hresponse'
        rw [hresponse] at hsome
        exact absurd hsome (by simp)

/-- The recorder's other work takes no checkpoint back. -/
theorem other (h : c.Sound) (op : RecorderOp) :
    Control.Sound { c with world := recorderStep env codecs c.world op } := by
  have heffects := effects_checkpoints env codecs (fun _ => True) (c.world.db.checkpoints ⊆ ·)
  have hexec : Keeps (fun w => c.world.db.checkpoints ⊆ w.db.checkpoints ∧ Counted w)
      (op.exec env codecs) := by
    refine heffects.keeps_exec (fun _ => trivial) ?_ ?_ ?_ (fun _ _ => trivial) ?_
    · rintro id _ w ⟨⟨base, row, hbase, hcheckpoints, -⟩, hcounted⟩
      refine ⟨?_, hcounted⟩
      rw [hcheckpoints]
      exact fun _ hrow => List.mem_append_left _ (hbase hrow)
    · rintro finish w db ⟨hsub, hcounted⟩ hok
      refine ⟨?_, hcounted⟩
      show c.world.db.checkpoints ⊆ db.checkpoints
      rw [finishRunWithEvents_checkpoints hok]
      exact hsub
    · rintro w db initialSnapshot ⟨hsub, hcounted⟩ hok
      refine ⟨?_, hcounted⟩
      show c.world.db.checkpoints ⊆ db.checkpoints
      rw [markRunRunning_checkpoints hok]
      exact hsub
    · intro _ _ _ _
      exact heffects.keeps_emitObjectReference _ _ trivial fun _ _ _ hw => hw
  have hkeeps := hexec.state ⟨fun _ hrow => hrow, h.counted⟩
  exact ⟨hkeeps.2, h.stopped, fun r hr => (h.agreed r hr).mono hkeeps.1⟩

/-- **The step lemma**: by cases on the move. -/
theorem step (h : c.Sound) {action : ControlAction} (hok : StopReadInTime c action) :
    (c.step env codecs display action).Sound := by
  cases action with
  | connect frame =>
    unfold Control.step
    rcases hserver : c.server with _ | _ | _ | _
    case listening =>
      rcases frame with message | label
      · exact h.refuse none message
      · exact h.of_requests _ _ h.agreed
    all_goals exact h
  | send accepted =>
    unfold Control.step
    rcases hserver : c.server with _ | label | _ | _
    case sending =>
      cases accepted with
      | true =>
        refine h.of_requests _ c.fatal fun r hr => ?_
        rcases List.mem_append.mp hr with hr | hr
        · exact h.agreed r hr
        · rw [List.mem_singleton.mp hr]
          exact agreed_queued label
      | false => exact h.refuse label _
    all_goals exact h
  | receive =>
    unfold Control.step
    rcases hserver : c.server with _ | _ | i | _
    case waiting =>
      simp only
      rcases hreceive : c.receive i with _ | response
      · exact h
      · exact h.receive hreceive
    all_goals exact h
  | timeOut =>
    unfold Control.step
    rcases hserver : c.server with _ | _ | i | _
    case waiting =>
      simp only
      split
      · exact h.of_requests _ _ h.agreed
      · exact h
    all_goals exact h
  | readStop =>
    unfold Control.step
    rcases hserver : c.server with _ | _ | _ | i
    case timedOut =>
      simp only
      by_cases hstop : c.stop = true
      · rw [if_pos hstop]
        refine h.respond fun r hr => ?_
        simp only [StopReadInTime, hserver] at hok
        have hover := h.stopped hstop
        refine ⟨hok hstop r hr, ?_, fun _ => hover⟩
        exact (h.agreed r (List.mem_of_getElem? hr)).idle hover
      · rw [if_neg hstop]
        exact h.of_requests _ _ h.agreed
    all_goals exact h
  | take =>
    unfold Control.step
    by_cases hidle : (c.busy || c.gone) = true
    · simp only [hidle, if_true]
      exact h
    · simp only [hidle, Bool.false_eq_true, if_false]
      have hgone : c.gone = false := by simp_all
      rcases hfirst : c.firstAt .queued with _ | i
      · exact h
      · exact h.takeMarker hgone hfirst
  | commit =>
    unfold Control.step
    rcases hfirst : c.firstAt .taken with _ | i
    · exact h
    · obtain ⟨r, hget, htaken⟩ := firstAt_eq_some hfirst
      simp only [hget]
      exact h.commitMarker hget htaken
  | reply fatal =>
    refine h.of_requests c.server _ fun r hr => ?_
    obtain ⟨r', hr', rfl⟩ := List.mem_map.mp hr
    exact (h.agreed r' hr').deliver
  | other op =>
    unfold Control.step
    by_cases hbusy : c.busy = true
    · simp only [hbusy, if_true]
      exact h
    · simp only [hbusy, Bool.false_eq_true, if_false]
      exact h.other op
  | childExits =>
    unfold Control.step
    by_cases hbusy : c.busy = true
    · simp only [hbusy, if_true]
      exact h
    · simp only [hbusy, Bool.false_eq_true, if_false]
      exact h.ended (Bool.not_eq_true _ ▸ hbusy) rfl rfl (by simp [Control.over])
  | fails =>
    unfold Control.step
    by_cases hbusy : c.busy = true
    · simp only [hbusy, if_true]
      exact h
    · simp only [hbusy, Bool.false_eq_true, if_false]
      exact h.of_requests _ _ h.agreed
  | requestStop =>
    unfold Control.step
    by_cases hstop : ((c.childExit && !c.busy) || c.gone) = true
    · simp only [hstop, if_true]
      refine ⟨h.counted, fun _ => ?_, h.agreed⟩
      show (c.childExit || c.gone) = true
      rcases Bool.or_eq_true _ _ ▸ hstop with hexit | hgone
      · simp [(Bool.and_eq_true _ _ ▸ hexit).1]
      · simp [hgone]
    · simp only [hstop, Bool.false_eq_true, if_false]
      exact h
  | leave =>
    unfold Control.step
    by_cases hbusy : c.busy = true
    · simp only [hbusy, if_true]
      exact h
    · simp only [hbusy, Bool.false_eq_true, if_false]
      exact h.ended (Bool.not_eq_true _ ▸ hbusy) rfl rfl (by simp [Control.over])
  | dropQueue =>
    have hdropped : Control.Sound { c with requests := c.requests.map (·.abandon) } := by
      refine h.of_requests c.server c.fatal fun r hr => ?_
      obtain ⟨r', hr', rfl⟩ := List.mem_map.mp hr
      exact (h.agreed r' hr').abandon
    unfold Control.step
    simp only
    split
    · exact hdropped
    · exact h

end Control.Sound

/-! ### Agreement -/

/-- **The marker protocol.**  In every run in which no flag that ends a wait is read after the
request's checkpoint has been committed: a client that is rejected has no manual checkpoint in
the store, now or later, and one that is accepted has the checkpoint it is told. -/
theorem marker_agreement (env : Env) (codecs : Codecs) (display : CaptureError → String) (db : Db)
    (runId : RunId) (options : CaptureOptions) (actions : List ControlAction)
    (hstop : Machine.Meets (Control.step env codecs display) StopReadInTime
      (Control.start (World.start db runId options)) actions) :
    ∀ r ∈ (Machine.run (Control.step env codecs display)
        (Control.start (World.start db runId options)) actions).requests,
      Truthful (Machine.run (Control.step env codecs display)
        (Control.start (World.start db runId options)) actions).world.db.checkpoints r := by
  have hstart : (Control.start (World.start db runId options)).Sound := by
    refine ⟨?_, fun hfalse => absurd hfalse (by simp [Control.start]), fun r hr => ?_⟩
    · show 0 < EventSequence.first.get
      exact Nat.one_pos
    · exact absurd hr (by simp [Control.start])
  have hsound := Machine.run_invariant_of_meets (I := Control.Sound)
    (fun c action hc hok => hc.step hok) hstart hstop
  exact fun r hr => (hsound.agreed r hr).truthful

namespace Sample

/-- The run is prepared and started, and a client asks for a manual checkpoint. -/
def request : List ControlAction :=
  [.other (.checkpoint .initial none), .other (.markRunRunning emptySnapshot.id),
    .connect (.ok (some "now")), .send true, .take]

/-- The reply is received. -/
def receivedReply : List ControlAction := request
    ++ [.timeOut, .readStop, .commit, .reply false, .receive]

/-- The thread times out; before it reads the flag, the checkpoint is committed, the child exits
and the flag is set. -/
def lateFlag : List ControlAction :=
  request ++ [.timeOut, .commit, .reply false, .childExits, .requestStop, .readStop]

/-- The control server of the sample run, after the moves. -/
def controlled (actions : List ControlAction) : Control :=
  Machine.run (Control.step (env 999) codecs fun _ => "failed")
    (Control.start (World.start created runId options)) actions

end Sample

theorem marker_agreement_received :
    Machine.Meets (Control.step (Sample.env 999) Sample.codecs fun _ => "failed") StopReadInTime
        (Control.start (World.start Sample.created Sample.runId Sample.options))
        Sample.receivedReply
      ∧ ∀ r ∈ (Sample.controlled Sample.receivedReply).requests,
        Truthful (Sample.controlled Sample.receivedReply).world.db.checkpoints r := by
  have hstop : Machine.Meets (Control.step (Sample.env 999) Sample.codecs fun _ => "failed")
      StopReadInTime (Control.start (World.start Sample.created Sample.runId Sample.options))
      Sample.receivedReply := by
    decide +kernel
  unfold Sample.controlled
  exact ⟨hstop, marker_agreement (Sample.env 999) Sample.codecs (fun _ => "failed") Sample.created
    Sample.runId Sample.options Sample.receivedReply hstop⟩

/-- The client is told that the recorder is shutting down, and its checkpoint is in the store. -/
theorem marker_not_always_agreed :
    ¬ ∀ (env : Env) (codecs : Codecs) (display : CaptureError → String) (db : Db) (runId : RunId)
      (options : CaptureOptions) (actions : List ControlAction),
      ∀ r ∈ (Machine.run (Control.step env codecs display)
          (Control.start (World.start db runId options)) actions).requests,
        Truthful (Machine.run (Control.step env codecs display)
          (Control.start (World.start db runId options)) actions).world.db.checkpoints r := by
  intro hall
  have htruthful := hall (Sample.env 999) Sample.codecs (fun _ => "failed") Sample.created
    Sample.runId Sample.options Sample.lateFlag
  rw [← Sample.controlled] at htruthful
  have hrejected : ∃ r ∈ (Sample.controlled Sample.lateFlag).requests, r.Committed
      ∧ r.response = some (.rejectedFor Sample.runId "recorder is shutting down") := by
    decide +kernel
  obtain ⟨r, hr, hcommitted, hresponse⟩ := hrejected
  exact htruthful r hr _ hresponse hcommitted

end Rewind
