/-
The terminal pane and its cache of objects.

The pane shows a bounded tail of the output on the page, up to the selected event.  The objects of
the tail are taken from a cache, which may give up one of them while it loads the next.

* `ObjectCache.getOrLoad`, `refreshTerminal` — the cache and the pane;
* `longestTail` — the output that there is room for;
* **`terminal_shows_tail`** — what the pane shows, whatever the cache has been used for before.
-/
import Rewind.Lib.LruCache
import Rewind.Tui.Model
import Rewind.Tui.Terminal

namespace Rewind

/-- The most bytes that the pane shows. -/
def MAX_TERMINAL_VIEW_BYTES : Nat := 1024 * 1024

def USIZE_MAX : Nat := 2 ^ 64 - 1

/-- The objects of the terminal.  All of them are in memory together, so that the sum of their
lengths is below the largest number of the counter. -/
abbrev ObjectCache := LruCache ObjectId Bytes

/-- The pane: its cache, and what it shows. -/
structure TerminalPane where
  terminalCache : ObjectCache
  terminal : TerminalDocument

/-- The object that an event refers to, and its length. -/
def Event.terminalOutput? (event : Event) : Option (ObjectId × Nat) :=
  match event.payload with
  | .terminalOutput _ objectId byteLen => some (objectId, byteLen.toNat)
  | _ => none

def TerminalDocument.default : TerminalDocument := ⟨[], false⟩

section

variable (codecs : Codecs) (files : Files)

open Call

/-- `get_or_load`. -/
def ObjectCache.getOrLoad (id : ObjectId) (expected : Nat) :
    Call ObjectCache ReplayError (Option Bytes) := do
  let cache ← get
  if (cache.entries.get? id).isSome then
    modify fun cache => cache.touch id
    let cache ← get
    return cache.entries.get? id
  else if cache.capacity < expected then
    return none
  else
    let bytes ← ofResult ((loadObject codecs files id expected).mapError .store)
    if bytes.length = expected then
      modify fun cache => LruCache.insert List.length cache id bytes
      let cache ← get
      return cache.entries.get? id
    else
      throw (.terminalLength id expected bytes.length)

/-- The first loop of `refresh_terminal`, which goes back from the selection: the references that
there is room for, and whether there were more. -/
def collectReferences (budget : Nat) : Nat → List Event → List (ObjectId × Nat) × Bool
  | _, [] => ([], false)
  | total, event :: rest =>
    match event.terminalOutput? with
    | none => collectReferences budget total rest
    | some (objectId, byteLen) =>
      if USIZE_MAX < total + byteLen then ([], true)
      else if budget < total + byteLen then ([], true)
      else
        let (references, truncated) := collectReferences budget (total + byteLen) rest
        ((objectId, byteLen) :: references, truncated)

/-- The second loop: the bytes of the references. -/
def readReferences : List (ObjectId × Nat) → Bytes → Bool →
    Call ObjectCache ReplayError (Bytes × Bool)
  | [], raw, truncated => return (raw, truncated)
  | (objectId, byteLen) :: rest, raw, truncated => do
    match ← ObjectCache.getOrLoad codecs files objectId byteLen with
    | some bytes => readReferences rest (raw ++ bytes) truncated
    | none => readReferences rest raw true

/-- A call on the cache, by the pane. -/
def withCache {α : Type} (m : Call ObjectCache ReplayError α) : Call TerminalPane ReplayError α :=
  ofFun fun pane =>
    let result := exec m pane.terminalCache
    (result.1, { pane with terminalCache := result.2 })

/-- `refresh_terminal`, for a page and the place of the selection on it. -/
def refreshTerminal (events : List Event) (eventSelected : Nat) :
    Call TerminalPane ReplayError Unit := do
  if events.length ≤ eventSelected then
    modify fun pane => { pane with terminal := TerminalDocument.default }
  else
    let pane ← get
    let budget := min pane.terminalCache.capacity MAX_TERMINAL_VIEW_BYTES
    let behind := events.head?.any fun event => event.sequence ≠ EventSequence.first
    let (references, more) := collectReferences budget 0 (events.take (eventSelected + 1)).reverse
    let (raw, truncated) ← withCache (readReferences codecs files references.reverse []
      (behind || more))
    modify fun pane => { pane with terminal := TerminalDocument.parse raw truncated }

/-- A load by the pane, and the log of those that were served. -/
def ObjectCache.access (s : ObjectCache × List ObjectId) (request : ObjectId × Nat) :
    ObjectCache × List ObjectId :=
  match exec (ObjectCache.getOrLoad codecs files request.1 request.2) s.1 with
  | (.ok (some _), cache) => (cache, s.2 ++ [request.1])
  | (_, cache) => (cache, s.2)

/-- The bytes of an output. -/
def payloadOf (output : ObjectId × Nat) : Bytes :=
  match loadObject codecs files output.1 output.2 with
  | .ok bytes => bytes
  | .error _ => []

end

/-! ### The tail -/

def outputLength (outputs : List (ObjectId × Nat)) : Nat := (outputs.map Prod.snd).sum

/-- The longest tail of the outputs that the budget has room for. -/
def longestTail (budget : Nat) : List (ObjectId × Nat) → List (ObjectId × Nat)
  | [] => []
  | output :: rest =>
    if outputLength (output :: rest) ≤ budget then output :: rest else longestTail budget rest

section Tails

variable {budget : Nat} {outputs : List (ObjectId × Nat)}

@[simp] theorem outputLength_nil : outputLength [] = 0 := rfl

@[simp] theorem outputLength_cons (output : ObjectId × Nat) (rest : List (ObjectId × Nat)) :
    outputLength (output :: rest) = output.2 + outputLength rest := by
  simp [outputLength]

@[simp] theorem outputLength_append (outputs more : List (ObjectId × Nat)) :
    outputLength (outputs ++ more) = outputLength outputs + outputLength more := by
  simp [outputLength]

theorem outputLength_reverse (outputs : List (ObjectId × Nat)) :
    outputLength outputs.reverse = outputLength outputs := by
  simp [outputLength, List.sum_reverse]

theorem longestTail_suffix (budget : Nat) (outputs : List (ObjectId × Nat)) :
    longestTail budget outputs <:+ outputs := by
  induction outputs with
  | nil => exact List.suffix_refl _
  | cons output rest ih =>
    rw [longestTail]
    by_cases hfits : outputLength (output :: rest) ≤ budget
    · rw [if_pos hfits]
    · rw [if_neg hfits]
      exact ih.trans (List.suffix_cons _ _)

theorem longestTail_fits (budget : Nat) (outputs : List (ObjectId × Nat)) :
    outputLength (longestTail budget outputs) ≤ budget := by
  induction outputs with
  | nil => exact Nat.zero_le _
  | cons output rest ih =>
    rw [longestTail]
    by_cases hfits : outputLength (output :: rest) ≤ budget
    · rw [if_pos hfits]
      exact hfits
    · rw [if_neg hfits]
      exact ih

theorem longestTail_longest {tail : List (ObjectId × Nat)} (htail : tail <:+ outputs)
    (hfits : outputLength tail ≤ budget) : tail <:+ longestTail budget outputs := by
  induction outputs with
  | nil => exact htail
  | cons output rest ih =>
    rw [longestTail]
    by_cases hall : outputLength (output :: rest) ≤ budget
    · rw [if_pos hall]
      exact htail
    · rw [if_neg hall]
      rcases List.suffix_cons_iff.mp htail with rfl | hrest
      · exact absurd hfits hall
      · exact ih hrest

/-- A tail with no room for the output ahead of it is the longest. -/
theorem longestTail_append (ahead : List (ObjectId × Nat)) {tail : List (ObjectId × Nat)}
    (hfits : outputLength tail ≤ budget)
    (hfull : ∀ output ∈ ahead.getLast?, budget < output.2 + outputLength tail) :
    longestTail budget (ahead ++ tail) = tail := by
  induction ahead with
  | nil =>
    rw [List.nil_append]
    rcases tail with _ | ⟨output, rest⟩
    · rfl
    · rw [longestTail, if_pos hfits]
  | cons first rest ih =>
    have hlong : budget < outputLength (first :: rest ++ tail) := by
      obtain ⟨last, hlast⟩ : ∃ last, (first :: rest).getLast? = some last := by
        rw [List.getLast?_cons]
        exact ⟨_, rfl⟩
      have hsplit := List.dropLast_append_getLast? last hlast
      have hlt := hfull last hlast
      rw [← hsplit]
      simp only [outputLength_append, outputLength_cons, outputLength_nil]
      omega
    rw [List.cons_append] at hlong ⊢
    rw [longestTail, if_neg (Nat.not_le.mpr hlong)]
    refine ih fun output houtput => hfull output ?_
    rw [List.getLast?_cons]
    rw [Option.mem_def] at houtput
    rw [houtput]
    rfl

/-- The loop collects the longest tail, in reverse. -/
theorem collectReferences_eq (hbudget : budget ≤ USIZE_MAX) (events : List Event) {total : Nat}
    (htotal : total ≤ budget) :
    ∃ ahead,
      (events.filterMap Event.terminalOutput?).reverse
          = ahead ++ (collectReferences budget total events).1.reverse
        ∧ total + outputLength (collectReferences budget total events).1 ≤ budget
        ∧ ((collectReferences budget total events).2 = !ahead.isEmpty)
        ∧ ∀ output ∈ ahead.getLast?,
          budget < total + outputLength (collectReferences budget total events).1 + output.2 := by
  induction events generalizing total with
  | nil => exact ⟨[], rfl, htotal, rfl, by simp⟩
  | cons event rest ih =>
    rw [collectReferences, List.filterMap_cons]
    rcases event.terminalOutput? with _ | ⟨objectId, byteLen⟩
    · exact ih htotal
    simp only
    by_cases hlarge : budget < total + byteLen
    · have hstop : (if USIZE_MAX < total + byteLen then ([], true)
          else if budget < total + byteLen then ([], true)
          else ((objectId, byteLen) :: (collectReferences budget (total + byteLen) rest).1,
            (collectReferences budget (total + byteLen) rest).2)) = ([], true) := by
        rw [if_pos hlarge, ite_self]
      rw [hstop]
      refine ⟨(rest.filterMap Event.terminalOutput?).reverse ++ [(objectId, byteLen)], ?_, htotal,
        ?_, ?_⟩
      · simp
      · simp
      · intro output houtput
        rw [List.getLast?_append, Option.mem_def] at houtput
        obtain rfl := Option.some.inj houtput
        exact hlarge
    · rw [if_neg (by omega), if_neg hlarge]
      obtain ⟨ahead, hahead, hfits, hmore, hfull⟩ := ih (Nat.not_lt.mp hlarge)
      refine ⟨ahead, ?_, ?_, hmore, ?_⟩
      · rw [List.reverse_cons, List.reverse_cons, hahead, List.append_assoc]
      · rw [outputLength_cons]
        omega
      · intro output houtput
        have hlt := hfull output houtput
        rw [outputLength_cons]
        omega

end Tails

/-! ### The cache -/

section Cache

variable {codecs : Codecs} {files : Files} {uses : List ObjectId} {cache : ObjectCache}

open Call

/-- A file has one payload, however much of it was asked for. -/
theorem loadObject_unique {id : ObjectId} {maximum maximum' : Nat} {bytes bytes' : Bytes}
    (h : loadObject codecs files id maximum = .ok bytes)
    (h' : loadObject codecs files id maximum' = .ok bytes') : bytes = bytes' := by
  obtain ⟨content, hopen, hread⟩ := Except.bind_eq_ok_iff.mp h
  obtain ⟨content', hopen', hread'⟩ := Except.bind_eq_ok_iff.mp h'
  obtain rfl := Except.ok.inj (hopen.symm.trans hopen')
  exact Except.ok.inj ((readObject_ok hread).1.symm.trans (readObject_ok hread').1)

/-- The cache has been used for these objects, and has the payloads of some of them. -/
structure Caches (codecs : Codecs) (files : Files) (capacity : Nat) (uses : List ObjectId)
    (cache : ObjectCache) : Prop where
  valid : LruCache.Valid List.length uses cache
  capacity : cache.capacity = capacity
  loaded : ∀ e ∈ cache.entries.entries, ∃ maximum, loadObject codecs files e.1 maximum = .ok e.2

variable {capacity : Nat}

theorem caches_new (codecs : Codecs) (files : Files) (capacity : Nat) :
    Caches codecs files capacity [] (LruCache.new capacity) where
  valid := LruCache.valid_new capacity
  capacity := rfl
  loaded := by
    intro e he
    exact absurd he List.not_mem_nil

theorem Caches.touch (h : Caches codecs files capacity uses cache) {id : ObjectId} {bytes : Bytes}
    (hhit : cache.entries.get? id = some bytes) :
    Caches codecs files capacity (uses ++ [id]) (cache.touch id) where
  valid := h.valid.touch (List.mem_map_of_mem (SortedMap.get?_eq_some_iff.mp hhit))
  capacity := h.capacity
  loaded := h.loaded

/-- What a load does: it is served from the cache, or from the file, or it is not. -/
theorem Caches.getOrLoad (h : Caches codecs files capacity uses cache) (id : ObjectId)
    (expected : Nat) :
    (∃ bytes cache', exec (ObjectCache.getOrLoad codecs files id expected) cache
          = (.ok (some bytes), cache')
        ∧ (∃ maximum, loadObject codecs files id maximum = .ok bytes)
        ∧ Caches codecs files capacity (uses ++ [id]) cache')
      ∨ ∃ result, exec (ObjectCache.getOrLoad codecs files id expected) cache = (result, cache)
        ∧ (∀ bytes, result ≠ .ok (some bytes))
        ∧ ∀ bytes, loadObject codecs files id expected = .ok bytes → bytes.length = expected →
          capacity < expected := by
  rw [ObjectCache.getOrLoad, exec_bind_ok (exec_get cache)]
  rcases hhit : cache.entries.get? id with _ | bytes
  swap
  · have hmem := SortedMap.get?_eq_some_iff.mp hhit
    refine Or.inl ⟨bytes, cache.touch id, ?_, h.loaded _ hmem, h.touch hhit⟩
    rw [Option.isSome_some, if_pos rfl, exec_bind_ok (exec_modify _ _), exec_bind_ok (exec_get _)]
    exact congrArg (fun found => (Except.ok found, cache.touch id)) hhit
  rw [if_neg (by simp), h.capacity]
  by_cases hlarge : capacity < expected
  · rw [if_pos hlarge]
    exact Or.inr ⟨_, rfl, by simp, fun _ _ _ => hlarge⟩
  rw [if_neg hlarge]
  rcases hload : loadObject codecs files id expected with error | bytes
  · exact Or.inr ⟨_, rfl, by simp, by simp⟩
  have hmapped : (Except.ok bytes : StoreResult Bytes).mapError ReplayError.store = .ok bytes := rfl
  rw [hmapped, exec_bind_ok (exec_ofResult_eq_ok_iff.mpr ⟨rfl, rfl⟩)]
  by_cases hlength : bytes.length = expected
  swap
  · rw [if_neg hlength]
    refine Or.inr ⟨_, rfl, by simp, fun other hother hexpected => ?_⟩
    obtain rfl := Except.ok.inj hother
    exact absurd hexpected hlength
  -- The new entry is kept.
  obtain ⟨hvalid, hcapacity, hfound, hentries⟩ :=
    h.valid.insert hhit (by rw [h.capacity, hlength]; exact Nat.not_lt.mp hlarge)
  refine Or.inl ⟨bytes, LruCache.insert List.length cache id bytes, ?_, ⟨expected, hload⟩, hvalid,
    hcapacity.trans h.capacity, fun e he => ?_⟩
  · rw [if_pos hlength, exec_bind_ok (exec_modify _ _), exec_bind_ok (exec_get _)]
    exact congrArg (fun found => (Except.ok found, LruCache.insert List.length cache id bytes))
      hfound
  · rcases hentries e he with rfl | hold
    · exact ⟨expected, hload⟩
    · exact h.loaded e hold

theorem Caches.access {s : ObjectCache × List ObjectId} (h : Caches codecs files capacity s.2 s.1)
    (request : ObjectId × Nat) :
    Caches codecs files capacity (ObjectCache.access codecs files s request).2
      (ObjectCache.access codecs files s request).1 := by
  rw [ObjectCache.access]
  rcases h.getOrLoad request.1 request.2 with
    ⟨bytes, cache', hexec, -, hcaches⟩ | ⟨result, hexec, hresult, -⟩
  · rw [hexec]
    exact hcaches
  · rw [hexec]
    rcases result with error | _ | bytes
    · exact h
    · exact h
    · exact absurd rfl (hresult bytes)

/-- A load that there is room for is served with the payload of the file. -/
theorem Caches.serve (h : Caches codecs files capacity uses cache) {output : ObjectId × Nat}
    (hroom : output.2 ≤ capacity)
    (hload : ∃ bytes, loadObject codecs files output.1 output.2 = .ok bytes
      ∧ bytes.length = output.2) :
    ∃ cache', exec (ObjectCache.getOrLoad codecs files output.1 output.2) cache
        = (.ok (some (payloadOf codecs files output)), cache')
      ∧ Caches codecs files capacity (uses ++ [output.1]) cache' := by
  obtain ⟨bytes, hbytes, hlength⟩ := hload
  have hpayload : payloadOf codecs files output = bytes := by
    rw [payloadOf, hbytes]
  rcases h.getOrLoad output.1 output.2 with
    ⟨found, cache', hexec, ⟨maximum, hfound⟩, hcaches⟩ | ⟨result, -, -, hlarge⟩
  · rw [hpayload, loadObject_unique hbytes hfound]
    exact ⟨cache', hexec, hcaches⟩
  · exact absurd (hlarge bytes hbytes hlength) (Nat.not_lt.mpr hroom)

theorem Caches.readReferences {outputs : List (ObjectId × Nat)}
    (h : Caches codecs files capacity uses cache)
    (hroom : ∀ output ∈ outputs, output.2 ≤ capacity)
    (hload : ∀ output ∈ outputs,
      ∃ bytes, loadObject codecs files output.1 output.2 = .ok bytes ∧ bytes.length = output.2)
    (raw : Bytes) (truncated : Bool) :
    ∃ cache', exec (readReferences codecs files outputs raw truncated) cache
        = (.ok (raw ++ outputs.flatMap (payloadOf codecs files), truncated), cache')
      ∧ Caches codecs files capacity (uses ++ outputs.map Prod.fst) cache' := by
  induction outputs generalizing cache uses raw with
  | nil =>
    rw [List.flatMap_nil, List.append_nil, List.map_nil, List.append_nil]
    exact ⟨cache, rfl, h⟩
  | cons output rest ih =>
    obtain ⟨hfirst, hrest⟩ := List.forall_mem_cons.mp hroom
    obtain ⟨hloadFirst, hloadRest⟩ := List.forall_mem_cons.mp hload
    obtain ⟨served, hserve, hserved⟩ := h.serve hfirst hloadFirst
    obtain ⟨cache', hexec, hcaches⟩ :=
      ih hserved hrest hloadRest (raw ++ payloadOf codecs files output)
    refine ⟨cache', ?_, ?_⟩
    · rw [Rewind.readReferences, exec_bind_ok hserve, List.flatMap_cons, ← List.append_assoc]
      exact hexec
    · rw [List.map_cons, List.append_cons]
      exact hcaches

end Cache

/-! ### The pane -/

section Pane

variable {codecs : Codecs} {files : Files} {timeline : List Event} {first count selected : Nat}

open Call

/-- The page tells whether it is behind the first event. -/
theorem behind_page (hnumbered : timeline.map Event.seq = List.range' 1 timeline.length)
    (hselected : selected < ((timeline.drop first).take count).length) :
    (((timeline.drop first).take count).head?.any fun event => event.sequence ≠ EventSequence.first)
      = !decide (first = 0) := by
  rw [List.length_take, List.length_drop] at hselected
  have hlt : first < timeline.length := by omega
  have hhead : ((timeline.drop first).take count).head? = some timeline[first] := by
    rw [List.head?_eq_getElem?, List.getElem?_take, if_pos (by omega), List.getElem?_drop,
      Nat.add_zero, List.getElem?_eq_getElem hlt]
  have hseq : timeline[first].seq = first + 1 := by
    have hnumber : (timeline.map Event.seq)[first]? = (List.range' 1 timeline.length)[first]? := by
      rw [hnumbered]
    rw [List.getElem?_map, List.getElem?_eq_getElem hlt, List.getElem?_range' hlt] at hnumber
    simp only [Option.map_some, Option.some.injEq] at hnumber
    omega
  have hfirst : timeline[first].sequence = EventSequence.first ↔ first = 0 := by
    constructor
    · intro heq
      have hone : timeline[first].seq = 1 := congrArg EventSequence.get heq
      omega
    · rintro rfl
      exact EventSequence.get_injective hseq
  rw [hhead]
  show decide (¬timeline[first].sequence = EventSequence.first) = _
  rw [decide_not, decide_eq_decide.mpr hfirst]

/-- A page from the first event has all the events up to the selection. -/
theorem take_page (hselected : selected < ((timeline.drop first).take count).length)
    (hfirst : first = 0) :
    ((timeline.drop first).take count).take (selected + 1)
      = timeline.take (first + selected + 1) := by
  subst hfirst
  rw [List.drop_zero, List.length_take] at hselected
  rw [List.drop_zero, List.take_take, Nat.zero_add, min_eq_left (by omega)]

/-- **The terminal pane.**  Whatever the cache was used for before, the pane shows the longest tail
of the output on the page up to the selection that there is room for.  If it is not marked as
truncated, this is all the output of the run up to the selection.  The cache holds no more than its
capacity, and its order has its keys by their last uses. -/
theorem terminal_shows_tail (codecs : Codecs) (files : Files) (capacity : Nat)
    (history : List (ObjectId × Nat)) (timeline : List Event)
    (hnumbered : timeline.map Event.seq = List.range' 1 timeline.length)
      (first count selected : Nat)
    (hselected : selected < ((timeline.drop first).take count).length)
    (hload : ∀ event ∈ timeline, ∀ output ∈ event.terminalOutput?,
      ∃ bytes, loadObject codecs files output.1 output.2 = .ok bytes ∧ bytes.length = output.2)
    (document : TerminalDocument) :
    let s := Machine.run (ObjectCache.access codecs files) (LruCache.new capacity, []) history
    let page := (timeline.drop first).take count
    let budget := min capacity MAX_TERMINAL_VIEW_BYTES
    let outputs := (page.take (selected + 1)).filterMap Event.terminalOutput?
    let shown := longestTail budget outputs
    let result := TerminalDocument.parse (shown.flatMap (payloadOf codecs files))
      (!decide (first = 0 ∧ shown = outputs))
    LruCache.Valid List.length s.2 s.1
      ∧ (∃ cache, exec (refreshTerminal codecs files page selected) ⟨s.1, document⟩
            = (.ok (), ⟨cache, result⟩)
          ∧ LruCache.Valid List.length (s.2 ++ shown.map Prod.fst) cache
          ∧ cache.capacity = capacity)
      ∧ shown <:+ outputs ∧ outputLength shown ≤ budget
      ∧ (∀ tail, tail <:+ outputs → outputLength tail ≤ budget → tail <:+ shown)
      ∧ (result.truncated = false →
        shown = (timeline.take (first + selected + 1)).filterMap Event.terminalOutput?) := by
  intro s page budget outputs shown result
  have hs : Caches codecs files capacity s.2 s.1 :=
    Machine.run_invariant
      (I := fun s : ObjectCache × List ObjectId => Caches codecs files capacity s.2 s.1)
      (fun _ request h => h.access request) (caches_new codecs files capacity) history
  have hbudget : budget ≤ USIZE_MAX :=
    (Nat.min_le_right _ _).trans (by decide)
  obtain ⟨ahead, hahead, hfits, hmore, hfull⟩ :=
    collectReferences_eq hbudget (page.take (selected + 1)).reverse (Nat.zero_le budget)
  rcases hcollected : collectReferences budget 0 (page.take (selected + 1)).reverse
    with ⟨references, more⟩
  rw [hcollected] at hahead hfits hmore hfull
  rw [List.filterMap_reverse, List.reverse_reverse] at hahead
  simp only [Nat.zero_add] at hfits hmore hfull
  -- The references are the longest tail.
  have hshown : shown = references.reverse := by
    show longestTail budget outputs = _
    have houtputs : outputs = ahead ++ references.reverse := hahead
    rw [houtputs]
    refine longestTail_append ahead ?_ fun output houtput => ?_
    · rw [outputLength_reverse]
      exact hfits
    · have hlt := hfull output houtput
      rw [outputLength_reverse]
      omega
  have hempty : ahead.isEmpty = decide (shown = outputs) := by
    have houtputs : outputs = ahead ++ shown := by
      rw [hshown]
      exact hahead
    rw [houtputs, Bool.eq_iff_iff, List.isEmpty_iff, decide_eq_true_iff]
    exact ⟨fun hnil => by rw [hnil, List.nil_append], fun heq => List.self_eq_append_left.mp heq⟩
  refine ⟨hs.valid, ?_, longestTail_suffix _ _, longestTail_fits _ _,
    fun tail => longestTail_longest, fun htruncated => ?_⟩
  · -- Every reference is loaded.
    have hroom : ∀ output ∈ shown, output.2 ≤ capacity := by
      intro output houtput
      obtain ⟨before, behind, hsplit⟩ := List.append_of_mem houtput
      have hle := longestTail_fits budget outputs
      have hmin : budget ≤ capacity := Nat.min_le_left _ _
      change outputLength shown ≤ budget at hle
      rw [hsplit, outputLength_append, outputLength_cons] at hle
      omega
    have hloaded : ∀ output ∈ shown,
        ∃ bytes, loadObject codecs files output.1 output.2 = .ok bytes
          ∧ bytes.length = output.2 := by
      intro output houtput
      have hmem : output ∈ outputs := (longestTail_suffix _ _).subset houtput
      obtain ⟨event, hevent, houtput⟩ := List.mem_filterMap.mp hmem
      exact hload event (List.mem_of_mem_drop (List.mem_of_mem_take (List.mem_of_mem_take hevent)))
        output houtput
    obtain ⟨cache, hread, hcache⟩ := hs.readReferences hroom hloaded []
      (!decide (first = 0 ∧ shown = outputs))
    refine ⟨cache, ?_, hcache.valid, hcache.capacity⟩
    have hflag : ((!decide (first = 0)) || more) = !decide (first = 0 ∧ shown = outputs) := by
      rw [hmore, hempty, ← Bool.not_and, Bool.decide_and]
    have hcached : exec (withCache (readReferences codecs files shown []
        (!decide (first = 0 ∧ shown = outputs)))) ⟨s.1, document⟩
          = (.ok (shown.flatMap (payloadOf codecs files), !decide (first = 0 ∧ shown = outputs)),
            ⟨cache, document⟩) := by
      rw [withCache, exec_ofFun, hread]
      rfl
    rw [refreshTerminal, if_neg (Nat.not_le.mpr hselected), exec_bind_ok (exec_get _),
      behind_page hnumbered hselected, hs.capacity]
    show exec (withCache (readReferences codecs files
      (collectReferences budget 0 (page.take (selected + 1)).reverse).1.reverse []
        ((!decide (first = 0)) || (collectReferences budget 0
          (page.take (selected + 1)).reverse).2))
          >>= _) _ = _
    rw [hcollected, hflag, ← hshown, exec_bind_ok hcached]
    rfl
  · have hwhole : first = 0 ∧ shown = outputs := by
      have hflag : ((!decide (first = 0 ∧ shown = outputs)) || _) = false := htruncated
      rw [Bool.or_eq_false_iff] at hflag
      simpa using hflag.1
    rw [hwhole.2]
    exact congrArg _ (take_page hselected hwhole.1)

end Pane

namespace Sample

/-- The file of one chunk of output. -/
def outputFiles : Files := [⟨pathFor outputId, .file ((encode output).toOption.getD [])⟩]

/-- The chunk, written twice. -/
def outputTimeline : List Event :=
  [event 0 (.terminalOutput ⟨runId.uuid⟩ outputId 1),
    event 1 (.terminalOutput ⟨runId.uuid⟩ outputId 1)]

end Sample

/-- A cache for one byte: the second of two chunks is shown. -/
theorem terminal_shows_tail_sample :
    ∃ cache, Call.exec (refreshTerminal Sample.codecs Sample.outputFiles Sample.outputTimeline 1)
        ⟨LruCache.new 1, TerminalDocument.default⟩
      = (.ok (), ⟨cache, TerminalDocument.parse Sample.output true⟩) := by
  have hload : loadObject Sample.codecs Sample.outputFiles Sample.outputId 1
    = .ok Sample.output := by
    decide +kernel
  obtain ⟨-, ⟨cache, hexec, -⟩, -⟩ := terminal_shows_tail Sample.codecs Sample.outputFiles 1 []
    Sample.outputTimeline (by decide) 0 2 1 (by decide) (by
      intro event hevent output houtput
      have hsame : output = (Sample.outputId, 1) := by
        simp only [Sample.outputTimeline, List.mem_cons, List.not_mem_nil, or_false] at hevent
        rcases hevent with rfl | rfl
        · exact (Option.some.inj houtput).symm
        · exact (Option.some.inj houtput).symm
      rw [hsame]
      exact ⟨Sample.output, hload, rfl⟩) TerminalDocument.default
  have hshown : [(Sample.outputId, 1)].flatMap (payloadOf Sample.codecs Sample.outputFiles)
      = Sample.output := by
    rw [List.flatMap_singleton, payloadOf, hload]
  rw [← hshown]
  exact ⟨cache, hexec⟩

end Rewind
