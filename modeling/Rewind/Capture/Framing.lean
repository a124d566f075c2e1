/-
Frames on the control socket.

A request and its response are each one line of JSON.  The reader takes chunks of any size from
the stream, keeps them up to one byte above the limit of a frame, and stops at a line feed that
ends what it has.  The writer of a request checks the limit, and so does the decoder; the writer of
a response does not.

* `readWireFrame` — the reader, over any sequence of reads;
* **`request_framed`** — a request that is written is read back, however the stream is cut, and
  no stream makes the reader keep more than the limit and one byte;
* **`response_framed_iff`** — the response that is read back: every accepted one, and a rejected one
  if and only if its message is short enough.
-/
import Rewind.Capture.Marker
import Rewind.Domain.Spellings
import Rewind.Lib.Json

namespace Rewind

/-! ### Requests -/

inductive ControlCommand where
  | mark (label : Option String)
deriving DecidableEq

structure ControlRequest where
  version : UInt16
  command : ControlCommand
deriving DecidableEq

/-- `ControlRequest::mark`. -/
def ControlRequest.mark (label : Option String) : ControlRequest :=
  ⟨CONTROL_PROTOCOL_VERSION, .mark label⟩

inductive ControlDecodeError where
  | empty
  | tooLarge (actual maximum : Nat)
  | json (source : String)
  | unsupportedVersion (found supported : UInt16)
  | emptyLabel
deriving DecidableEq

/-- What `serde_json` makes of requests and responses. -/
structure ControlJson where
  requestToVec : ControlRequest → Except String Bytes
  requestFromSlice : Bytes → Except String ControlRequest
  responseToVec : ControlResponse → Except String Bytes
  responseFromSlice : Bytes → Except String ControlResponse

/-- The longest frame, with its line feed. -/
def MAX_CONTROL_FRAME_BYTES : Nat := 4096

def newline : UInt8 := 0x0A

/-- `strip_suffix(b"\n").unwrap_or(bytes)`. -/
def stripNewline (bytes : Bytes) : Bytes :=
  if bytes.getLast? = some newline then bytes.dropLast else bytes

/-- `validate_request`. -/
def validateRequest (request : ControlRequest) : Except ControlDecodeError Unit :=
  if request.version ≠ CONTROL_PROTOCOL_VERSION then
    .error (.unsupportedVersion request.version CONTROL_PROTOCOL_VERSION)
  else
    match request.command with
    | .mark label => if label = some "" then .error .emptyLabel else .ok ()

/-- `decode_control_frame`. -/
def decodeControlFrame (json : ControlJson) (bytes : Bytes) :
    Except ControlDecodeError ControlRequest := do
  if bytes = [] then throw .empty
  if bytes.length > MAX_CONTROL_FRAME_BYTES then
    throw (.tooLarge bytes.length MAX_CONTROL_FRAME_BYTES)
  let body := stripNewline bytes
  if body = [] then throw .empty
  let request ← (json.requestFromSlice body).mapError .json
  validateRequest request
  return request

/-- `encode_control_frame`. -/
def encodeControlFrame (json : ControlJson) (request : ControlRequest) :
    Except ControlDecodeError Bytes := do
  validateRequest request
  let text ← (json.requestToVec request).mapError .json
  let bytes := text ++ [newline]
  if bytes.length > MAX_CONTROL_FRAME_BYTES then
    throw (.tooLarge bytes.length MAX_CONTROL_FRAME_BYTES)
  return bytes

/-! ### Reading a frame -/

/-- What the reads of a stream return, one after the other; an empty chunk is its end. -/
abbrev Reads := Nat → Except String Bytes

/-- Where the loop of `read_wire_frame` ends, and what it has kept. -/
inductive WireLoop where
  | unfinished
  | underflow
  | failed (kept : Bytes) (error : String)
  | ended (kept : Bytes)
deriving DecidableEq

/-- `MAX_CONTROL_FRAME_BYTES.saturating_add(1) - frame.len()`, if it is no underflow. -/
def remainingSpace (frame : Bytes) : Option Nat :=
  if frame.length ≤ MAX_CONTROL_FRAME_BYTES + 1 then
    some (MAX_CONTROL_FRAME_BYTES + 1 - frame.length)
  else
    none

/-- The loop of `read_wire_frame`, from the read `n` on, for some rounds. -/
def wireLoop (reads : Reads) : Nat → Nat → Bytes → WireLoop
  | 0, _, _ => .unfinished
  | rounds + 1, n, frame =>
    match reads n with
    | .error error => .failed frame error
    | .ok [] => .ended frame
    | .ok (byte :: chunk) =>
      match remainingSpace frame with
      | none => .underflow
      | some remaining =>
        let frame := frame ++ (byte :: chunk).take remaining
        if frame.length > MAX_CONTROL_FRAME_BYTES ∨ frame.getLast? = some newline then
          .ended frame
        else
          wireLoop reads rounds (n + 1) frame

/-- `read_wire_frame`; there is no result if the loop has none. -/
def readWireFrame (setReadTimeout : Except String Unit) (reads : Reads) :
    Option (Except String Bytes) :=
  match setReadTimeout with
  | .error error => some (.error error)
  | .ok () =>
    match wireLoop reads (MAX_CONTROL_FRAME_BYTES + 2) 0 [] with
    | .unfinished | .underflow => none
    | .failed _ error => some (.error error)
    | .ended frame =>
      if frame.length > MAX_CONTROL_FRAME_BYTES then
        some (.error "control frame exceeds 4096 bytes")
      else
        some (.ok frame)

/-! ### The loop -/

section Loop

variable {reads : Reads}

/-- What the loop has kept. -/
def WireLoop.kept? : WireLoop → Option Bytes
  | .unfinished | .underflow => none
  | .failed kept _ | .ended kept => some kept

/-- A round of the loop that reads some bytes. -/
theorem wireLoop_succ {rounds n : Nat} {frame chunk : Bytes} (hread : reads n = .ok chunk)
    (hchunk : chunk ≠ []) (hframe : frame.length ≤ MAX_CONTROL_FRAME_BYTES) :
    wireLoop reads (rounds + 1) n frame
      = if (frame ++ chunk.take (MAX_CONTROL_FRAME_BYTES + 1 - frame.length)).length
            > MAX_CONTROL_FRAME_BYTES
          ∨ (frame ++ chunk.take (MAX_CONTROL_FRAME_BYTES + 1 - frame.length)).getLast?
            = some newline then
        .ended (frame ++ chunk.take (MAX_CONTROL_FRAME_BYTES + 1 - frame.length))
      else
        wireLoop reads rounds (n + 1)
          (frame ++ chunk.take (MAX_CONTROL_FRAME_BYTES + 1 - frame.length)) := by
  obtain ⟨byte, rest, rfl⟩ := List.exists_cons_of_ne_nil hchunk
  have hspace : remainingSpace frame = some (MAX_CONTROL_FRAME_BYTES + 1 - frame.length) :=
    if_pos (Nat.le_succ_of_le hframe)
  simp only [wireLoop, hread, hspace]

/-- **The loop ends**, with at most one byte more than a frame may have. -/
theorem wireLoop_ends {rounds n : Nat} {frame : Bytes}
    (hframe : frame.length ≤ MAX_CONTROL_FRAME_BYTES)
    (hrounds : MAX_CONTROL_FRAME_BYTES + 2 ≤ rounds + frame.length) :
    ∃ kept, (wireLoop reads rounds n frame).kept? = some kept
      ∧ kept.length ≤ MAX_CONTROL_FRAME_BYTES + 1 := by
  induction rounds generalizing n frame with
  | zero => omega
  | succ rounds ih =>
    rcases hread : reads n with error | _ | ⟨byte, chunk⟩
    · refine ⟨frame, ?_, by omega⟩
      simp only [wireLoop, hread, WireLoop.kept?]
    · refine ⟨frame, ?_, by omega⟩
      simp only [wireLoop, hread, WireLoop.kept?]
    · rw [wireLoop_succ hread (List.cons_ne_nil _ _) hframe]
      set space := MAX_CONTROL_FRAME_BYTES + 1 - frame.length with hspace
      have hlength : (frame ++ (byte :: chunk).take space).length
          = frame.length + min space (chunk.length + 1) := by
        rw [List.length_append, List.length_take, List.length_cons]
      split
      · exact ⟨_, rfl, by omega⟩
      · next hgoes =>
        -- a round that goes on has kept another byte
        rw [not_or, Nat.not_lt] at hgoes
        exact ih hgoes.1 (by omega)

/-- A frame that arrives in pieces is kept whole. -/
theorem wireLoop_chunks {text : Bytes} (htext : newline ∉ text)
    (hfits : (text ++ [newline]).length ≤ MAX_CONTROL_FRAME_BYTES) {chunks : List Bytes}
    (hchunks : ∀ chunk ∈ chunks, chunk ≠ []) :
    ∀ {rounds n : Nat} {frame : Bytes},
      (∀ i (hi : i < chunks.length), reads (n + i) = .ok chunks[i]) →
      frame ++ chunks.flatten = text ++ [newline] → chunks ≠ [] → chunks.length ≤ rounds →
      wireLoop reads rounds n frame = .ended (text ++ [newline]) := by
  induction chunks with
  | nil => intro _ _ _ _ _ hnil _; exact absurd rfl hnil
  | cons chunk rest ih =>
    intro rounds n frame hreads hwhole _ hrounds
    rw [List.length_cons] at hrounds
    obtain ⟨rounds, rfl⟩ : ∃ r, rounds = r + 1 := ⟨rounds - 1, by omega⟩
    have hchunk : chunk ≠ [] := hchunks chunk List.mem_cons_self
    have hread : reads n = .ok chunk := hreads 0 (Nat.zero_lt_succ _)
    rw [List.flatten_cons, ← List.append_assoc] at hwhole
    -- there is room for all of the piece
    have hlength := congrArg List.length hwhole
    rw [List.length_append, List.length_append] at hlength
    have hall : chunk.take (MAX_CONTROL_FRAME_BYTES + 1 - frame.length) = chunk :=
      List.take_of_length_le (by omega)
    rw [wireLoop_succ hread hchunk (by omega), hall]
    by_cases hrest : rest = []
    · subst hrest
      rw [List.flatten_nil, List.append_nil] at hwhole
      rw [hwhole, if_pos (Or.inr List.getLast?_concat)]
    · have hlater : rest.flatten ≠ [] := by
        obtain ⟨next, hnext⟩ := List.exists_mem_of_ne_nil rest hrest
        intro hflat
        have hempty : next = [] := List.flatten_eq_nil_iff.mp hflat next hnext
        exact hchunks next (List.mem_cons_of_mem _ hnext) hempty
      -- what has come so far is before the line feed
      have hbefore : frame ++ chunk <+: text := by
        have hprefix : frame ++ chunk <+: text ++ [newline] := ⟨rest.flatten, hwhole⟩
        rcases List.prefix_concat_iff.mp hprefix with heq | hprefix
        · rw [heq] at hwhole
          exact absurd (List.append_right_eq_self.mp hwhole) hlater
        · exact hprefix
      have hlast : (frame ++ chunk).getLast? ≠ some newline := by
        intro hlast
        exact htext (hbefore.mem (List.mem_of_getLast? hlast))
      have hshort : ¬ (frame ++ chunk).length > MAX_CONTROL_FRAME_BYTES := by
        rw [List.length_append]
        omega
      rw [if_neg (not_or.mpr ⟨hshort, hlast⟩)]
      have hothers : ∀ c ∈ rest, c ≠ [] := fun c hc => hchunks c (List.mem_cons_of_mem _ hc)
      refine ih hothers ?_ hwhole hrest (by omega)
      intro i hi
      have hread := hreads (i + 1) (Nat.succ_lt_succ hi)
      rw [List.getElem_cons_succ] at hread
      rw [← hread]
      congr 1
      omega

/-- The bytes of the first reads. -/
def delivered (reads : Reads) : Nat → Bytes
  | 0 => []
  | n + 1 =>
    delivered reads n ++
      match reads n with
      | .ok chunk => chunk
      | .error _ => []

theorem delivered_succ {n : Nat} {chunk : Bytes} (hread : reads n = .ok chunk) :
    delivered reads (n + 1) = delivered reads n ++ chunk := by
  simp only [delivered, hread]

theorem delivered_le {m n : Nat} (h : m ≤ n) : delivered reads m <+: delivered reads n := by
  induction h with
  | refl => exact List.prefix_rfl
  | step _ ih => exact ih.trans (List.prefix_append _ _)

/-- A line that is too long fills the frame. -/
theorem wireLoop_overlong {n : Nat} (hreads : ∀ i < n, ∃ chunk, reads i = .ok chunk ∧ chunk ≠ [])
    (hlong : MAX_CONTROL_FRAME_BYTES < (delivered reads n).length)
    (hline : newline ∉ (delivered reads n).take MAX_CONTROL_FRAME_BYTES) {rounds k : Nat}
    (hframe : (delivered reads k).length ≤ MAX_CONTROL_FRAME_BYTES)
    (hrounds : MAX_CONTROL_FRAME_BYTES + 2 ≤ rounds + (delivered reads k).length) :
    ∃ kept, wireLoop reads rounds k (delivered reads k) = .ended kept
      ∧ MAX_CONTROL_FRAME_BYTES < kept.length := by
  induction rounds generalizing k with
  | zero => omega
  | succ rounds ih =>
    have hk : k < n := by
      by_contra hle
      have hless := (@delivered_le reads _ _ (Nat.not_lt.mp hle)).length_le
      omega
    obtain ⟨chunk, hread, hchunk⟩ := hreads k hk
    have hsome : 0 < chunk.length := List.length_pos_of_ne_nil hchunk
    rw [wireLoop_succ hread hchunk hframe]
    split
    · next hends =>
      refine ⟨_, rfl, ?_⟩
      rcases hends with hends | hends
      · exact hends
      -- no line feed ends it, since it would be one of the first bytes
      · by_contra hshort
        rw [Nat.not_lt, List.length_append, List.length_take] at hshort
        rw [List.take_of_length_le (by omega), ← delivered_succ hread] at hends
        have hfirst : delivered reads (k + 1)
            <+: (delivered reads n).take MAX_CONTROL_FRAME_BYTES := by
          rw [List.prefix_take_iff]
          refine ⟨delivered_le hk, ?_⟩
          rw [delivered_succ hread, List.length_append]
          omega
        exact hline (hfirst.mem (List.mem_of_getLast? hends))
    · next hgoes =>
      rw [not_or, Nat.not_lt, List.length_append, List.length_take] at hgoes
      have hlength : (delivered reads (k + 1)).length
          = (delivered reads k).length + chunk.length := by
        rw [delivered_succ hread, List.length_append]
      rw [List.take_of_length_le (by omega), ← delivered_succ hread]
      exact ih (by omega) (by omega)

end Loop

/-! ### Requests are read back -/

section Framed

variable {json : ControlJson} {request : ControlRequest} {text : Bytes}

/-- The decoder takes what the encoder wrote. -/
theorem decodeControlFrame_encoded (hwrites : json.requestToVec request = .ok text)
    (hround : json.requestFromSlice text = .ok request) (hnonempty : text ≠ [])
    (hvalid : validateRequest request = .ok ())
    (hfits : (text ++ [newline]).length ≤ MAX_CONTROL_FRAME_BYTES) :
    encodeControlFrame json request = .ok (text ++ [newline])
      ∧ decodeControlFrame json (text ++ [newline]) = .ok request := by
  have hlimit : ¬ (text ++ [newline]).length > MAX_CONTROL_FRAME_BYTES := Nat.not_lt.mpr hfits
  have hstrip : stripNewline (text ++ [newline]) = text := by
    rw [stripNewline, if_pos List.getLast?_concat, List.dropLast_concat]
  constructor
  · rw [encodeControlFrame, hvalid, hwrites]
    exact if_neg hlimit
  · rw [decodeControlFrame, hstrip, if_neg (List.concat_ne_nil _ _), if_neg hlimit,
      if_neg hnonempty, hround]
    show validateRequest request >>= _ = _
    rw [hvalid]
    rfl

/-- The reader keeps a frame that arrives in pieces. -/
theorem readWireFrame_chunks {reads : Reads} (htext : newline ∉ text)
    (hfits : (text ++ [newline]).length ≤ MAX_CONTROL_FRAME_BYTES) {chunks : List Bytes}
    (hchunks : ∀ chunk ∈ chunks, chunk ≠ []) (hwhole : chunks.flatten = text ++ [newline])
    (hreads : ∀ i (hi : i < chunks.length), reads i = .ok chunks[i]) :
    readWireFrame (.ok ()) reads = some (.ok (text ++ [newline])) := by
  have hsome : chunks ≠ [] := by
    intro hnone
    rw [hnone, List.flatten_nil] at hwhole
    exact List.concat_ne_nil _ _ hwhole.symm
  -- no piece is empty, so there are no more pieces than bytes
  have hpieces : ∀ cs : List Bytes, (∀ c ∈ cs, c ≠ []) → cs.length ≤ cs.flatten.length := by
    intro cs hcs
    induction cs with
    | nil => exact Nat.le_refl _
    | cons c rest ih =>
      have hc : 0 < c.length := List.length_pos_of_ne_nil (hcs c List.mem_cons_self)
      have hrest := ih fun d hd => hcs d (List.mem_cons_of_mem _ hd)
      rw [List.length_cons, List.flatten_cons, List.length_append]
      omega
  have hcount : chunks.length ≤ MAX_CONTROL_FRAME_BYTES := by
    have hmost := hpieces chunks hchunks
    rw [hwhole] at hmost
    exact hmost.trans hfits
  have hloop : wireLoop reads (MAX_CONTROL_FRAME_BYTES + 2) 0 [] = .ended (text ++ [newline]) :=
    wireLoop_chunks htext hfits hchunks (fun i hi => by rw [Nat.zero_add]; exact hreads i hi)
      hwhole hsome (by omega)
  rw [readWireFrame, hloop]
  exact if_neg (Nat.not_lt.mpr hfits)

/-- **Framing of requests.**  A valid request whose text fits is read back from any pieces of its
frame.  Any stream leaves the reader with a result, at most one byte above the limit and no
underflow on the way, and a line that is longer than the limit is refused. -/
theorem request_framed (json : ControlJson) (request : ControlRequest) (text : Bytes)
    (hwrites : json.requestToVec request = .ok text)
    (hround : json.requestFromSlice text = .ok request)
    (hescapes : newline ∉ text) (hnonempty : text ≠ []) :
    (validateRequest request = .ok () →
      (text ++ [newline]).length ≤ MAX_CONTROL_FRAME_BYTES →
      encodeControlFrame json request = .ok (text ++ [newline])
        ∧ ∀ (chunks : List Bytes) (reads : Reads), (∀ chunk ∈ chunks, chunk ≠ []) →
          chunks.flatten = text ++ [newline] →
          (∀ i (hi : i < chunks.length), reads i = .ok chunks[i]) →
          readWireFrame (.ok ()) reads = some (.ok (text ++ [newline]))
            ∧ decodeControlFrame json (text ++ [newline]) = .ok request)
    ∧ (∀ reads : Reads,
      ∃ kept, (wireLoop reads (MAX_CONTROL_FRAME_BYTES + 2) 0 []).kept? = some kept
        ∧ kept.length ≤ MAX_CONTROL_FRAME_BYTES + 1)
    ∧ (∀ setReadTimeout reads, (readWireFrame setReadTimeout reads).isSome)
    ∧ ∀ (reads : Reads) (n : Nat), (∀ i < n, ∃ chunk, reads i = .ok chunk ∧ chunk ≠ []) →
      MAX_CONTROL_FRAME_BYTES < (delivered reads n).length →
      newline ∉ (delivered reads n).take MAX_CONTROL_FRAME_BYTES →
      readWireFrame (.ok ()) reads = some (.error "control frame exceeds 4096 bytes") := by
  have hempty : ([] : Bytes).length ≤ MAX_CONTROL_FRAME_BYTES := Nat.zero_le _
  refine ⟨?_, ?_, ?_, ?_⟩
  · intro hvalid hfits
    obtain ⟨hencodes, hdecodes⟩ :=
      decodeControlFrame_encoded hwrites hround hnonempty hvalid hfits
    refine ⟨hencodes, fun chunks reads hchunks hwhole hreads => ⟨?_, hdecodes⟩⟩
    exact readWireFrame_chunks hescapes hfits hchunks hwhole hreads
  · intro reads
    exact wireLoop_ends hempty (Nat.le_refl _)
  · intro setReadTimeout reads
    obtain ⟨kept, hkept, -⟩ := @wireLoop_ends reads _ 0 _ hempty (Nat.le_refl _)
    cases setReadTimeout with
    | error error => rfl
    | ok =>
      cases hloop : wireLoop reads (MAX_CONTROL_FRAME_BYTES + 2) 0 [] with
      | unfinished => rw [hloop] at hkept; exact absurd hkept (by simp [WireLoop.kept?])
      | underflow => rw [hloop] at hkept; exact absurd hkept (by simp [WireLoop.kept?])
      | failed kept error => simp only [readWireFrame, hloop, Option.isSome_some]
      | ended kept =>
        simp only [readWireFrame, hloop]
        split <;> rfl
  · intro reads n hreads hlong hline
    obtain ⟨kept, hloop, hkept⟩ :=
      wireLoop_overlong hreads hlong hline (k := 0) (Nat.zero_le _) (Nat.le_refl _)
    have hstart : delivered reads 0 = [] := rfl
    rw [hstart] at hloop
    rw [readWireFrame, hloop]
    exact if_pos hkept

end Framed

namespace Sample

def markRequest : ControlRequest := .mark (some "v1")

def markText : Bytes :=
  utf8 "\x7b\"version\":1,\"command\":\x7b\"type\":\"mark\",\"label\":\"v1\"\x7d\x7d"

/-- Writes and reads this one request. -/
def markJson : ControlJson where
  requestToVec _ := .ok markText
  requestFromSlice bytes := if bytes = markText then .ok markRequest else .error "expected value"
  responseToVec _ := .error "no response"
  responseFromSlice _ := .error "expected value"

/-- The frame in two pieces. -/
def markReads : Reads
  | 0 => .ok (markText.take 20)
  | 1 => .ok (markText.drop 20 ++ [newline])
  | _ => .ok []

end Sample

theorem request_framed_sample :
    readWireFrame (.ok ()) Sample.markReads = some (.ok (Sample.markText ++ [newline]))
      ∧ decodeControlFrame Sample.markJson (Sample.markText ++ [newline])
        = .ok Sample.markRequest := by
  have hframed := request_framed Sample.markJson Sample.markRequest Sample.markText rfl rfl
    (by decide +kernel) (by decide +kernel)
  refine (hframed.1 rfl (by decide +kernel)).2
    [Sample.markText.take 20, Sample.markText.drop 20 ++ [newline]] Sample.markReads
    (by decide +kernel) (by decide +kernel) ?_
  intro i hi
  match i, hi with
  | 0, _ => rfl
  | 1, _ => rfl

/-! ### Responses -/

/-- The compact JSON of a response. -/
def responseText (r : ControlResponse) : Bytes :=
  utf8 "\x7b\"version\":" ++ utf8 (toString r.version)
    ++ utf8 ",\"accepted\":" ++ utf8 (if r.accepted then "true" else "false")
    ++ utf8 ",\"run_id\":" ++ jsonOption (fun id => jsonString (toString id)) r.runId
    ++ utf8 ",\"checkpoint_id\":" ++ jsonOption (fun id => jsonString (toString id)) r.checkpointId
    ++ utf8 ",\"message\":" ++ jsonOption jsonString r.message ++ utf8 "\x7d"

/-- What has become of a marker on its way to the coordinator and back. -/
inductive Handover where
  | refused
  | answered (reply : Reply)
  | ended

/-- The response to a marker that the coordinator has replied to. -/
def respondTo (runId : RunId) : Reply → ControlResponse
  | .ok checkpointId => .acceptedFor runId checkpointId
  | .error message => .rejectedFor runId message

/-- `handle_connection`, of the frame that was read. -/
def handleConnection (json : ControlJson) (display : ControlDecodeError → String) (runId : RunId)
    (frame : Except String Bytes) (handover : Option String → Handover) : ControlResponse :=
  match frame with
  | .error error => .rejectedFor runId error
  | .ok frame =>
    match decodeControlFrame json frame with
    | .error error => .rejectedFor runId (display error)
    | .ok request =>
      match request.command with
      | .mark label =>
        match handover label with
        | .refused | .ended => .rejectedFor runId "recorder is shutting down"
        | .answered reply => respondTo runId reply

/-- What `serve` writes to a connection; it does not look at the length. -/
def serveConnection (json : ControlJson) (display : ControlDecodeError → String) (runId : RunId)
    (frame : Except String Bytes) (handover : Option String → Handover) : Bytes :=
  match json.responseToVec (handleConnection json display runId frame handover) with
  | .ok bytes => bytes ++ [newline]
  | .error _ => []

inductive MarkerError where
  | encode (source : ControlDecodeError)
  | io (operation : String) (path : Bytes) (source : String)
  | response (source : ControlClientError)
deriving DecidableEq

/-- The results of the client's calls on its socket. -/
structure MarkerSocket where
  connect : Except String Unit
  send : Bytes → Except String Unit
  finish : Except String Unit
  setReadTimeout : Except String Unit
  reads : Reads

/-- `request_marker`, up to its response. -/
def sendRequest (json : ControlJson) (path : Bytes) (label : Option String)
    (socket : MarkerSocket) : Except MarkerError Unit := do
  let frame ← (encodeControlFrame json (.mark label)).mapError .encode
  socket.connect.mapError (.io "connect" path)
  (socket.send frame).mapError (.io "send request" path)
  socket.finish.mapError (.io "finish request" path)

/-- `request_marker`, of the response. -/
def readResponse (json : ControlJson) (path : Bytes) :
    Except String Bytes → Except MarkerError MarkOutcome
  | .error source => .error (.io "read response" path source)
  | .ok frame => do
    let response ←
      (json.responseFromSlice (stripNewline frame)).mapError fun source => .encode (.json source)
    (markOutcome response).mapError .response

/-- `request_marker`; there is no result if reading the response has none. -/
def requestMarker (json : ControlJson) (path : Bytes) (label : Option String)
    (socket : MarkerSocket) : Option (Except MarkerError MarkOutcome) :=
  match sendRequest json path label socket with
  | .error error => some (.error error)
  | .ok () => (readWireFrame socket.setReadTimeout socket.reads).map (readResponse json path)

/-- What the client is to report of a reply. -/
def reported (runId : RunId) : Reply → Except MarkerError MarkOutcome
  | .ok checkpointId => .ok ⟨runId, checkpointId⟩
  | .error message => .error (.response (.rejected message))

/-- The reads return the bytes in pieces, and the stream ends after them. -/
def Delivers (reads : Reads) (bytes : Bytes) : Prop :=
  ∃ chunks : List Bytes, (∀ chunk ∈ chunks, chunk ≠ []) ∧ chunks.flatten = bytes
    ∧ (∀ i (hi : i < chunks.length), reads i = .ok chunks[i])
    ∧ ∀ i, chunks.length ≤ i → reads i = .ok []

/-- What was written is a frame, and the client reports the reply of the coordinator. -/
structure ResponseFramed (json : ControlJson) (path : Bytes) (runId : RunId) (reply : Reply)
    (written : Bytes) : Prop where
  fits : written.length ≤ MAX_CONTROL_FRAME_BYTES
  reports : ∀ label socket, sendRequest json path label socket = .ok () →
    socket.setReadTimeout = .ok () → Delivers socket.reads written →
    requestMarker json path label socket = some (reported runId reply)

/-! ### The length of a response -/

theorem length_id (u : Uuid) : escapedLength u.hyphenated = 36 := by
  have hone : ∀ c ∈ u.hyphenated.toList, ∃ b, String.utf8EncodeChar c = [b] ∧ isBare b = true := by
    have hdigit : ∀ n : Fin 16, ∃ b, String.utf8EncodeChar (Nat.digitChar n.val) = [b]
        ∧ isBare b = true := by
      intro n
      refine ⟨(String.utf8EncodeChar (Nat.digitChar n.val)).head!, ?_⟩
      revert n
      decide
    intro c hc
    rcases Uuid.mem_hyphenated hc with rfl | ⟨n, rfl⟩
    · exact ⟨0x2D, by decide, by decide⟩
    · exact hdigit n
  have hbare : ∀ b ∈ utf8 u.hyphenated, isBare b = true := by
    intro b hb
    rw [utf8_eq_flatMap] at hb
    obtain ⟨c, hc, hb⟩ := List.mem_flatMap.mp hb
    obtain ⟨byte, hbyte, hbare⟩ := hone c hc
    rw [hbyte, List.mem_singleton] at hb
    exact hb ▸ hbare
  have hlengths : u.hyphenated.toList.map (fun c => (String.utf8EncodeChar c).length)
      = u.hyphenated.toList.map fun _ => 1 := by
    refine List.map_congr_left fun c hc => ?_
    obtain ⟨byte, hbyte, -⟩ := hone c hc
    rw [hbyte]
    rfl
  rw [escapedLength_of_isBare hbare, utf8_eq_flatMap, List.length_flatMap, hlengths]
  simp [Uuid.length_hyphenated]

/-- The length of a response of this version, from that of its values. -/
theorem length_responseText {r : ControlResponse}
    (hversion : r.version = CONTROL_PROTOCOL_VERSION) :
    (responseText r).length = 63 + (if r.accepted then 4 else 5)
      + (jsonOption (fun id => jsonString (toString id)) r.runId).length
      + (jsonOption (fun id => jsonString (toString id)) r.checkpointId).length
      + (jsonOption jsonString r.message).length := by
  have hopen : (utf8 "\x7b\"version\":" ++ utf8 (toString CONTROL_PROTOCOL_VERSION)
      ++ utf8 ",\"accepted\":").length = 24 := by decide +kernel
  have haccepted : (utf8 (if r.accepted then "true" else "false")).length
      = if r.accepted then 4 else 5 := by
    cases r.accepted <;> decide
  have hrun : (utf8 ",\"run_id\":").length = 10 := by decide +kernel
  have hcheckpoint : (utf8 ",\"checkpoint_id\":").length = 17 := by decide +kernel
  have hmessage : (utf8 ",\"message\":").length = 11 := by decide +kernel
  have hclose : (utf8 "\x7d").length = 1 := by decide +kernel
  rw [responseText, hversion]
  simp only [List.length_append] at hopen ⊢
  omega

theorem length_responseText_acceptedFor (runId : RunId) (checkpointId : CheckpointId) :
    (responseText (.acceptedFor runId checkpointId)).length = 147 := by
  have hrun : escapedLength (toString runId) = 36 := length_id runId.uuid
  have hcheckpoint : escapedLength (toString checkpointId) = 36 := length_id checkpointId.uuid
  have hnull : (utf8 "null").length = 4 := by decide +kernel
  have hlength := length_responseText (r := .acceptedFor runId checkpointId) rfl
  simp only [ControlResponse.acceptedFor, jsonOption, if_pos, length_jsonString] at hlength ⊢
  omega

theorem length_responseText_rejectedFor (runId : RunId) (message : String) :
    (responseText (.rejectedFor runId message)).length = 112 + escapedLength message := by
  have hrun : escapedLength (toString runId) = 36 := length_id runId.uuid
  have hnull : (utf8 "null").length = 4 := by decide +kernel
  have hlength := length_responseText (r := .rejectedFor runId message) rfl
  simp only [ControlResponse.rejectedFor, jsonOption, length_jsonString, Bool.false_eq_true,
    if_false] at hlength ⊢
  omega

/-- A response of this version is one line. -/
theorem newline_not_mem_responseText {r : ControlResponse}
    (hversion : r.version = CONTROL_PROTOCOL_VERSION) : newline ∉ responseText r := by
  have hopen : newline ∉ utf8 "\x7b\"version\":" ++ utf8 (toString CONTROL_PROTOCOL_VERSION)
      ++ utf8 ",\"accepted\":" := by decide +kernel
  have haccepted : newline ∉ utf8 (if r.accepted then "true" else "false") := by
    cases r.accepted <;> decide
  have hrun : newline ∉ utf8 ",\"run_id\":" := by decide +kernel
  have hcheckpoint : newline ∉ utf8 ",\"checkpoint_id\":" := by decide +kernel
  have hmessage : newline ∉ utf8 ",\"message\":" := by decide +kernel
  have hclose : newline ∉ utf8 "\x7d" := by decide +kernel
  have hrunId : newline ∉ jsonOption (fun id => jsonString (toString id)) r.runId :=
    newline_not_mem_jsonOption (fun id => newline_not_mem_jsonString (toString id)) _
  have hcheckpointId : newline ∉ jsonOption (fun id => jsonString (toString id)) r.checkpointId :=
    newline_not_mem_jsonOption (fun id => newline_not_mem_jsonString (toString id)) _
  have htext : newline ∉ jsonOption jsonString r.message :=
    newline_not_mem_jsonOption newline_not_mem_jsonString _
  rw [responseText, hversion]
  simp only [List.mem_append, not_or] at hopen ⊢
  exact ⟨⟨⟨⟨⟨⟨⟨⟨hopen, haccepted⟩, hrun⟩, hrunId⟩, hcheckpoint⟩, hcheckpointId⟩, hmessage⟩, htext⟩,
    hclose⟩

/-! ### Responses are read back, unless they are too long -/

section Answered

variable {json : ControlJson} {runId : RunId} {reply : Reply} {path : Bytes}

theorem respondTo_version (runId : RunId) (reply : Reply) :
    (respondTo runId reply).version = CONTROL_PROTOCOL_VERSION := by
  cases reply <;> rfl

theorem markOutcome_respondTo (runId : RunId) (reply : Reply) :
    (markOutcome (respondTo runId reply)).mapError .response = reported runId reply := by
  cases reply <;> rfl

/-- A response fits if it accepts, or if its message is short. -/
theorem responseText_fits_iff :
    (responseText (respondTo runId reply) ++ [newline]).length ≤ MAX_CONTROL_FRAME_BYTES
      ↔ ∀ message, reply = .error message →
        113 + escapedLength message ≤ MAX_CONTROL_FRAME_BYTES := by
  rw [List.length_append, List.length_singleton]
  cases reply with
  | ok checkpointId =>
    rw [respondTo, length_responseText_acceptedFor]
    refine iff_of_true (by decide) ?_
    intro message herror
    cases herror
  | error message =>
    rw [respondTo, length_responseText_rejectedFor]
    constructor
    · rintro hfits _ ⟨rfl⟩
      omega
    · intro hfits
      have := hfits message rfl
      omega

theorem requestMarker_of_sent {label : Option String} {socket : MarkerSocket}
    (hsent : sendRequest json path label socket = .ok ()) :
    requestMarker json path label socket
      = (readWireFrame socket.setReadTimeout socket.reads).map (readResponse json path) := by
  rw [requestMarker, hsent]

/-- A response that fits is reported. -/
theorem requestMarker_reports
    (hround : json.responseFromSlice (responseText (respondTo runId reply))
      = .ok (respondTo runId reply))
    (hfits : (responseText (respondTo runId reply) ++ [newline]).length ≤ MAX_CONTROL_FRAME_BYTES)
    {label : Option String} {socket : MarkerSocket}
    (hsent : sendRequest json path label socket = .ok ())
    (htimeout : socket.setReadTimeout = .ok ())
    (hdelivers : Delivers socket.reads (responseText (respondTo runId reply) ++ [newline])) :
    requestMarker json path label socket = some (reported runId reply) := by
  obtain ⟨chunks, hchunks, hwhole, hreads, -⟩ := hdelivers
  have hframe := readWireFrame_chunks
    (newline_not_mem_responseText (respondTo_version runId reply)) hfits hchunks hwhole hreads
  have hstrip : stripNewline (responseText (respondTo runId reply) ++ [newline])
      = responseText (respondTo runId reply) := by
    rw [stripNewline, if_pos List.getLast?_concat, List.dropLast_concat]
  rw [requestMarker_of_sent hsent, htimeout, hframe, Option.map_some, readResponse, hstrip, hround,
    ← markOutcome_respondTo]
  rfl

/-- A response that does not fit is an input error at its client. -/
theorem requestMarker_overlong
    (hlong : MAX_CONTROL_FRAME_BYTES < (responseText (respondTo runId reply) ++ [newline]).length)
    {label : Option String} {socket : MarkerSocket}
    (hsent : sendRequest json path label socket = .ok ())
    (htimeout : socket.setReadTimeout = .ok ())
    (hdelivers : Delivers socket.reads (responseText (respondTo runId reply) ++ [newline])) :
    requestMarker json path label socket
      = some (.error (.io "read response" path "control frame exceeds 4096 bytes")) := by
  obtain ⟨chunks, hchunks, hwhole, hreads, -⟩ := hdelivers
  have hpart : ∀ n ≤ chunks.length, delivered socket.reads n = (chunks.take n).flatten := by
    intro n
    induction n with
    | zero => intro _; rfl
    | succ n ih =>
      intro hn
      rw [delivered_succ (hreads n hn), ih (Nat.le_of_succ_le hn), List.take_add_one,
        List.getElem?_eq_getElem hn, List.flatten_append]
      simp
  have hall : delivered socket.reads chunks.length
      = responseText (respondTo runId reply) ++ [newline] := by
    rw [hpart _ (Nat.le_refl _), List.take_length, hwhole]
  have hline : newline ∉ (delivered socket.reads chunks.length).take MAX_CONTROL_FRAME_BYTES := by
    rw [List.length_append, List.length_singleton] at hlong
    rw [hall, List.take_append_of_le_length (by omega)]
    intro hmem
    exact newline_not_mem_responseText (respondTo_version runId reply) (List.mem_of_mem_take hmem)
  obtain ⟨kept, hloop, hkept⟩ := wireLoop_overlong
    (fun i hi => ⟨chunks[i], hreads i hi, hchunks _ (List.getElem_mem hi)⟩)
    (hall ▸ hlong) hline (k := 0) (Nat.zero_le _) (Nat.le_refl _)
  have hstart : delivered socket.reads 0 = [] := rfl
  rw [hstart] at hloop
  rw [requestMarker_of_sent hsent, htimeout, readWireFrame, hloop]
  simp only [if_pos hkept, Option.map_some, readResponse]

end Answered

/-- What `serve` writes once the coordinator has replied. -/
theorem serveConnection_replied {json : ControlJson} {display : ControlDecodeError → String}
    {runId : RunId} {frame : Bytes} {request : ControlRequest} {label : Option String}
    {handover : Option String → Handover} {reply : Reply}
    (hdecodes : decodeControlFrame json frame = .ok request) (hmark : request.command = .mark label)
    (hreplied : handover label = .answered reply)
    (hwrites : json.responseToVec (respondTo runId reply)
      = .ok (responseText (respondTo runId reply))) :
    serveConnection json display runId (.ok frame) handover
      = responseText (respondTo runId reply) ++ [newline] := by
  have hresponse : handleConnection json display runId (.ok frame) handover
      = respondTo runId reply := by
    simp only [handleConnection, hdecodes, hmark, hreplied]
  rw [serveConnection, hresponse, hwrites]

/-- A client that is sent all of a response, in one piece. -/
def MarkerSocket.answering (written : Bytes) : MarkerSocket where
  connect := .ok ()
  send _ := .ok ()
  finish := .ok ()
  setReadTimeout := .ok ()
  reads n := if n = 0 then .ok written else .ok []

theorem delivers_answering {written : Bytes} (h : written ≠ []) :
    Delivers (MarkerSocket.answering written).reads written := by
  refine ⟨[written], ?_, List.flatten_singleton, ?_, ?_⟩
  · intro chunk hchunk
    rw [List.mem_singleton.mp hchunk]
    exact h
  · intro i hi
    rw [List.length_singleton, Nat.lt_one_iff] at hi
    subst hi
    rfl
  · intro i hi
    exact if_neg (Nat.ne_of_gt hi)

/-- **Framing of responses.**  The response to a marker is a frame, and its client reports what the
coordinator replied, if and only if the checkpoint was committed or its error message is short:
`serve` has no limit of its own. -/
theorem response_framed_iff (json : ControlJson) (display : ControlDecodeError → String)
    (runId : RunId) (reply : Reply) (path : Bytes) (frame : Bytes) (request : ControlRequest)
    (label : Option String) (handover : Option String → Handover)
    (hdecodes : decodeControlFrame json frame = .ok request) (hmark : request.command = .mark label)
    (hreplied : handover label = .answered reply)
    (hwrites : json.responseToVec (respondTo runId reply)
      = .ok (responseText (respondTo runId reply)))
    (hround : json.responseFromSlice (responseText (respondTo runId reply))
      = .ok (respondTo runId reply)) :
    ResponseFramed json path runId reply (serveConnection json display runId (.ok frame) handover)
      ↔ ∀ message, reply = .error message →
        113 + escapedLength message ≤ MAX_CONTROL_FRAME_BYTES := by
  rw [serveConnection_replied hdecodes hmark hreplied hwrites,
    ← @responseText_fits_iff runId reply]
  constructor
  · intro hframed
    exact hframed.fits
  · intro hfits
    refine ⟨hfits, ?_⟩
    intro label socket hsent htimeout hdelivers
    exact requestMarker_reports hround hfits hsent htimeout hdelivers

/-- `CaptureError::Snapshot` of `SnapshotError::UnsupportedEntry`, as text. -/
def unsupportedEntryMessage (path : String) : String :=
  "workspace checkpoint failed: unsupported filesystem entry at " ++ path
    ++ "; only files, directories, and symlinks are supported"

namespace Sample

def responseId : RunId := ⟨⟨0x0199d1c0a1b27c3d8e4f5a6b7c8d9e0f#128⟩⟩

/-- Writes and reads the request of the sample and one response. -/
def responseJson (response : ControlResponse) : ControlJson where
  requestToVec _ := .ok markText
  requestFromSlice bytes := if bytes = markText then .ok markRequest else .error "expected value"
  responseToVec r := .ok (responseText r)
  responseFromSlice bytes :=
    if bytes = responseText response then .ok response else .error "expected value"

def socketPath : Bytes := utf8 "/store/control/active.sock"

/-- What the connection thread of this run writes when the coordinator has sent the reply. -/
def answerTo (reply : Reply) : Bytes :=
  serveConnection (responseJson (respondTo responseId reply)) (fun _ => "malformed") responseId
    (.ok (markText ++ [newline])) fun _ => .answered reply

/-- A FIFO below twenty directories with long names. -/
def deepPath : String :=
  "/w" ++ String.join (List.replicate 20 ("/" ++ String.ofList (List.replicate 200 'd')))

def deepReply : Reply := .error (unsupportedEntryMessage deepPath)

def flatReply : Reply := .error (unsupportedEntryMessage "/w/fifo")

theorem responseJson_request (response : ControlResponse) :
    (responseJson response).requestFromSlice markText = .ok markRequest := by
  simp only [responseJson, if_pos]

theorem responseJson_response (response : ControlResponse) :
    (responseJson response).responseFromSlice (responseText response) = .ok response := by
  simp only [responseJson, if_pos]

theorem encodes_markText (response : ControlResponse) :
    encodeControlFrame (responseJson response) markRequest = .ok (markText ++ [newline])
      ∧ decodeControlFrame (responseJson response) (markText ++ [newline]) = .ok markRequest :=
  decodeControlFrame_encoded rfl (responseJson_request response) (by decide +kernel) rfl
    (by decide +kernel)

theorem sendRequest_answering (response : ControlResponse) (written : Bytes) :
    sendRequest (responseJson response) socketPath (some "v1") (.answering written) = .ok () := by
  have hencode := (encodes_markText response).1
  rw [markRequest] at hencode
  rw [sendRequest, hencode]
  rfl

theorem answerTo_eq (reply : Reply) :
    answerTo reply = responseText (respondTo responseId reply) ++ [newline] :=
  serveConnection_replied (encodes_markText _).2 rfl rfl rfl

theorem deepReply_overlong :
    MAX_CONTROL_FRAME_BYTES < (responseText (respondTo responseId deepReply)
      ++ [newline]).length := by
  decide +kernel

end Sample

/-- **A rejection with a long path is lost**: the client reports a failure of its socket. -/
theorem response_lost :
    ¬ ResponseFramed (Sample.responseJson (respondTo Sample.responseId Sample.deepReply))
        Sample.socketPath Sample.responseId Sample.deepReply (Sample.answerTo Sample.deepReply)
      ∧ requestMarker (Sample.responseJson (respondTo Sample.responseId Sample.deepReply))
          Sample.socketPath (some "v1") (.answering (Sample.answerTo Sample.deepReply))
        = some (.error
            (.io "read response" Sample.socketPath "control frame exceeds 4096 bytes")) := by
  rw [Sample.answerTo_eq]
  constructor
  · intro hframed
    exact absurd hframed.fits (Nat.not_le.mpr Sample.deepReply_overlong)
  · exact requestMarker_overlong Sample.deepReply_overlong (Sample.sendRequest_answering _ _) rfl
      (delivers_answering (List.concat_ne_nil _ _))

theorem response_framed_sample :
    ResponseFramed (Sample.responseJson (respondTo Sample.responseId Sample.flatReply))
        Sample.socketPath Sample.responseId Sample.flatReply (Sample.answerTo Sample.flatReply)
      ↔ ∀ message, Sample.flatReply = .error message →
        113 + escapedLength message ≤ MAX_CONTROL_FRAME_BYTES :=
  response_framed_iff (Sample.responseJson (respondTo Sample.responseId Sample.flatReply))
    (fun _ => "malformed") Sample.responseId Sample.flatReply Sample.socketPath
    (Sample.markText ++ [newline]) Sample.markRequest (some "v1")
      (fun _ => .answered Sample.flatReply)
    (Sample.encodes_markText _).2 rfl rfl rfl (Sample.responseJson_response _)

end Rewind
