/-
The publication of objects by several writers at once.

Each call of `put_verified` writes its envelope to a temporary file of its own, links the file to
the path of the object, and removes the temporary name; where the path is taken, it verifies the
object that is there.  A call may fail or crash at every step, and the others go on in between.

* `PutCall`, `PutCall.advance` — one call, step by step;
* `Publication`, `Publication.step` — any number of them over one directory;
* `PutCall.Sound` — what a call can rely on, whatever the others do;
* **`object_publication`** — what is published is complete and stays as it is.
-/
import Rewind.Lib.LinkedFiles
import Rewind.Lib.Runs
import Rewind.Store.ObjectFiles
import Rewind.Store.Writer

namespace Rewind

/-! ### The calls -/

/-- The files below `objects/`. -/
abbrev ObjectFiles := LinkedFiles ObjectPath UInt8

/-- What a call of `put_verified` does next; `temp` is its temporary file. -/
inductive PutPhase where
  | preparing
  | inspecting
  | creating (tries : Nat)
  | writing (temp : ObjectPath) (file written : Nat)
  | syncing (temp : ObjectPath)
  | linking (temp : ObjectPath)
  | syncingDirectory (temp : ObjectPath)
  | opening (temp : Option ObjectPath)
  | reading (temp : Option ObjectPath) (file : Nat)
  | measuring (temp : Option ObjectPath)
  | cleaning (temp : ObjectPath) (install : StoreResult Unit)
  | returned (result : StoreResult StoredObject)
  | crashed
deriving DecidableEq

structure PutCall where
  expected : ObjectId
  bytes : Bytes
  pid : Nat
  envelope : Bytes
  phase : PutPhase
deriving DecidableEq

/-- What the world decides of a step: whether it fails, the number of a temporary file, and how much
of a write arrives. -/
structure PutChoice where
  fails : Bool
  sequence : Nat
  amount : Nat

namespace PutCall

variable (codecs : Codecs)

/-- The check of the digest. -/
def start (expected : ObjectId) (bytes : Bytes) (pid : Nat) : PutCall :=
  let actual := ObjectId.digestOf codecs bytes
  ⟨expected, bytes, pid, [],
    if actual = expected then .preparing
    else .returned (.error (.objectDigestMismatch expected actual))⟩

def goOn (call : PutCall) (phase : PutPhase) : PutCall := { call with phase }

def fail (call : PutCall) (error : StoreError) : PutCall := call.goOn (.returned (.error error))

/-- The end of `verify_existing`, which is the result of the call, or of its installation. -/
def settle (call : PutCall) (temp : Option ObjectPath) (result : StoreResult StoredObject) :
    PutCall :=
  match temp with
  | none => call.goOn (.returned result)
  | some temp => call.goOn (.cleaning temp (result.map fun _ => ()))

/-- The temporary file that `create_temp` tries next. -/
def tempPath (call : PutCall) (sequence : Nat) : ObjectPath :=
  ⟨(pathFor call.expected).directory, temporaryName call.pid sequence⟩

/-- One try of `create_temp`. -/
def createTemp (files : ObjectFiles) (call : PutCall) (tries : Nat) (choice : PutChoice) :
    ObjectFiles × PutCall :=
  let path := call.tempPath choice.sequence
  if choice.fails then
    (files, call.fail (.io "create temporary object"))
  else if (files.names path).isSome then
    (files, call.goOn (.creating tries))
  else
    (files.create path, call.goOn (.writing path files.contents.length 0))

/-- A part of `temp.write_all(&envelope)`. -/
def writeTemp (files : ObjectFiles) (call : PutCall) (temp : ObjectPath) (file written : Nat)
    (choice : PutChoice) : ObjectFiles × PutCall :=
  if choice.fails then
    (files, call.goOn (.cleaning temp (.error (.io "write temporary object"))))
  else
    (files.append file ((call.envelope.drop written).take choice.amount),
      call.goOn (if call.envelope.length ≤ written + choice.amount then .syncing temp
        else .writing temp file (written + choice.amount)))

/-- `fs::hard_link`. -/
def hardLink (files : ObjectFiles) (call : PutCall) (temp : ObjectPath) (choice : PutChoice) :
    ObjectFiles × PutCall :=
  if choice.fails || (files.names temp).isNone then
    (files, call.goOn (.cleaning temp (.error (.io "atomically install object"))))
  else if (files.names (pathFor call.expected)).isSome then
    (files, call.goOn (.opening (some temp)))
  else
    (files.link temp (pathFor call.expected), call.goOn (.syncingDirectory temp))

/-- The start of `verify_existing`. -/
def openExisting (files : ObjectFiles) (call : PutCall) (temp : Option ObjectPath)
    (choice : PutChoice) : PutCall :=
  match files.names (pathFor call.expected) with
  | some file =>
    if choice.fails then call.settle temp (.error (.io "open object"))
    else call.goOn (.reading temp file)
  | none => call.settle temp (.error (.io "open object"))

/-- `ObjectStore::get` and the comparison of the bytes, on an open file. -/
def readExisting (files : ObjectFiles) (call : PutCall) (temp : Option ObjectPath) (file : Nat)
    (choice : PutChoice) : PutCall :=
  if choice.fails then
    call.settle temp (.error (.io "read object payload"))
  else
    match readObject codecs call.expected call.bytes.length (files.contents.getD file []) with
    | .error error => call.settle temp (.error error)
    | .ok bytes =>
      if bytes = call.bytes then call.goOn (.measuring temp)
      else call.settle temp (.error (.objectCollision call.expected))

/-- The end of `verify_existing`. -/
def measure (files : ObjectFiles) (call : PutCall) (temp : Option ObjectPath) (choice : PutChoice) :
    PutCall :=
  match files.content? (pathFor call.expected) with
  | some content =>
    if choice.fails then call.settle temp (.error (.io "read existing object metadata"))
    else call.settle temp (.ok ⟨call.expected, UInt64.ofNat call.bytes.length,
      UInt64.ofNat content.length, .none⟩)
  | none => call.settle temp (.error (.io "read existing object metadata"))

/-- The removal of the temporary file, and the end of the call. -/
def cleanUp (files : ObjectFiles) (call : PutCall) (temp : ObjectPath) (install : StoreResult Unit)
    (choice : PutChoice) : ObjectFiles × PutCall :=
  if choice.fails then
    (files, match install with
      | .ok () => call.fail (.io "remove temporary object")
      | .error error => call.fail error)
  else
    (files.unlink temp, call.goOn (.returned (install.map fun _ =>
      ⟨call.expected, UInt64.ofNat call.bytes.length, UInt64.ofNat call.envelope.length, .none⟩)))

/-- One step of `put_verified`. -/
def advance (files : ObjectFiles) (call : PutCall) (choice : PutChoice) : ObjectFiles × PutCall :=
  match call.phase with
  | .preparing =>
    (files, if choice.fails then call.fail (.io "create object fan-out directory")
      else call.goOn .inspecting)
  | .inspecting =>
    if choice.fails then
      (files, call.fail (.io "inspect object"))
    else if (files.names (pathFor call.expected)).isSome then
      (files, call.goOn (.opening none))
    else
      match encode call.bytes with
      | .error error => (files, call.fail error)
      | .ok envelope => (files, { call with envelope, phase := .creating 32 })
  | .creating 0 =>
    (files, call.fail (.invariant
      s!"could not allocate a unique temporary file in {asciiString (pathFor call.expected).directory}"))
  | .creating (tries + 1) => call.createTemp files tries choice
  | .writing temp file written => call.writeTemp files temp file written choice
  | .syncing temp =>
    (files, call.goOn (if choice.fails then .cleaning temp (.error (.io "flush temporary object"))
      else .linking temp))
  | .linking temp => call.hardLink files temp choice
  | .syncingDirectory temp =>
    (files, call.goOn (.cleaning temp
      (if choice.fails then .error (.io "flush object directory") else .ok ())))
  | .opening temp => (files, call.openExisting files temp choice)
  | .reading temp file => (files, call.readExisting codecs files temp file choice)
  | .measuring temp => (files, call.measure files temp choice)
  | .cleaning temp install => call.cleanUp files temp install choice
  | .returned _ | .crashed => (files, call)

end PutCall

/-! ### The writers together -/

structure Publication where
  files : ObjectFiles
  calls : List PutCall

inductive PutAction where
  | begin (expected : ObjectId) (bytes : Bytes) (pid : Nat)
  | advance (call : Nat) (choice : PutChoice)
  | crash (call : Nat)

/-- A call begins, takes a step, or ends where it is. -/
def Publication.step (codecs : Codecs) (s : Publication) : PutAction → Publication
  | .begin expected bytes pid =>
    { s with calls := s.calls ++ [PutCall.start codecs expected bytes pid] }
  | .advance i choice =>
    match s.calls[i]? with
    | some call =>
      let advanced := call.advance codecs s.files choice
      ⟨advanced.1, s.calls.set i advanced.2⟩
    | none => s
  | .crash i =>
    match s.calls[i]? with
    | some call => { s with calls := s.calls.set i (call.goOn .crashed) }
    | none => s

/-! ### What a call relies on -/

/-- Every object is an envelope of a payload with its digest. -/
def PublishedComplete (codecs : Codecs) (files : ObjectFiles) : Prop :=
  ∀ id content, files.content? (pathFor id) = some content →
    ∃ payload, decode content = .ok payload ∧ ObjectId.digestOf codecs payload = id

/-- The temporary file of a call that goes on. -/
def PutPhase.temp? : PutPhase → Option ObjectPath
  | .writing temp .. | .syncing temp | .linking temp | .syncingDirectory temp
  | .cleaning temp _ => some temp
  | .opening temp | .reading temp _ | .measuring temp => temp
  | .preparing | .inspecting | .creating _ | .returned _ | .crashed => none

/-- The envelope is encoded and not yet linked. -/
def PutPhase.isInstalling : PutPhase → Bool
  | .creating _ | .writing .. | .syncing _ | .linking _ => true
  | _ => false

/-- The object has been found or linked. -/
def PutPhase.isPublished : PutPhase → Bool
  | .syncingDirectory _ | .reading .. | .cleaning _ (.ok ()) | .returned (.ok _) => true
  | _ => false

/-- The call has checked the digest and may still link. -/
def PutPhase.isBeforeLink : PutPhase → Bool
  | .preparing | .inspecting => true
  | phase => phase.isInstalling

/-- What holds of a call as long as nobody else touches its temporary file. -/
structure PutCall.Sound (codecs : Codecs) (files : ObjectFiles) (call : PutCall) : Prop where
  verified : call.phase.isBeforeLink = true → ObjectId.digestOf codecs call.bytes = call.expected
  encoded : call.phase.isInstalling = true → encode call.bytes = .ok call.envelope
  held : ∀ temp, call.phase.temp? = some temp →
    (∃ sequence, temp = call.tempPath sequence) ∧ (files.names temp).isSome = true
  /-- The file that is written has no other name. -/
  alone : ∀ temp file written, call.phase = .writing temp file written →
    files.names temp = some file ∧ (∀ other, files.names other = some file → other = temp)
      ∧ files.contents[file]? = some (call.envelope.take written)
  complete : ∀ temp, call.phase = .syncing temp ∨ call.phase = .linking temp →
    files.content? temp = some call.envelope
  published : call.phase.isPublished = true → (files.names (pathFor call.expected)).isSome = true

/-! ### One step -/

section Steps

variable {codecs : Codecs} {files files' : ObjectFiles} {call call' : PutCall}

/-- A path of an object is not that of a temporary file. -/
theorem pathFor_ne_temp (h : call.Sound codecs files) (id : ObjectId) :
    call.phase.temp? ≠ some (pathFor id) := by
  intro htemp
  obtain ⟨⟨sequence, hpath⟩, -⟩ := h.held _ htemp
  exact pathFor_ne_temporary id _ _ _ hpath

/-- A phase after the link needs its temporary file and the object. -/
theorem PutCall.Sound.goOn {phase : PutPhase} (hafter : phase.isBeforeLink = false)
    (hheld : ∀ temp, phase.temp? = some temp →
      (∃ sequence, temp = call.tempPath sequence) ∧ (files.names temp).isSome = true)
    (hpublished : phase.isPublished = true →
      (files.names (pathFor call.expected)).isSome = true) :
    (call.goOn phase).Sound codecs files where
  verified hbefore := by
    have hphase : phase.isBeforeLink = true := hbefore
    rw [hafter] at hphase
    exact nomatch hphase
  encoded hinstalling := by
    have hphase : phase.isInstalling = true := hinstalling
    cases phase <;> simp_all [PutPhase.isBeforeLink, PutPhase.isInstalling]
  held := hheld
  alone temp file written hwriting := by
    have hphase : phase = .writing temp file written := hwriting
    rw [hphase] at hafter
    exact nomatch hafter
  complete temp hcomplete := by
    have hphase : phase = .syncing temp ∨ phase = .linking temp := hcomplete
    rcases hphase with hphase | hphase
    · rw [hphase] at hafter
      exact nomatch hafter
    · rw [hphase] at hafter
      exact nomatch hafter
  published := hpublished

theorem PutCall.sound_fail (error : StoreError) : (call.fail error).Sound codecs files :=
  .goOn rfl nofun nofun

/-- A call that has its temporary file, and goes on to remove it after an error. -/
theorem PutCall.Sound.cleaning (h : call.Sound codecs files) {temp : ObjectPath}
    (htemp : call.phase.temp? = some temp) (error : StoreError) :
    (call.goOn (.cleaning temp (.error error))).Sound codecs files := by
  refine .goOn rfl ?_ nofun
  intro temp' htemp'
  obtain rfl := Option.some.inj htemp'
  exact h.held temp htemp

/-- The end of a verification. -/
theorem PutCall.Sound.settle (h : call.Sound codecs files) {temp : Option ObjectPath}
    (htemp : call.phase.temp? = temp) {result : StoreResult StoredObject}
    (hpublished : (∃ stored, result = .ok stored) →
      (files.names (pathFor call.expected)).isSome = true) :
    (call.settle temp result).Sound codecs files := by
  cases temp with
  | none =>
    refine .goOn rfl nofun fun hresult => ?_
    rcases result with error | stored
    · exact nomatch hresult
    · exact hpublished ⟨stored, rfl⟩
  | some temp =>
    refine .goOn rfl ?_ fun hresult => ?_
    · intro temp' htemp'
      obtain rfl := Option.some.inj htemp'
      exact h.held temp htemp
    · rcases result with error | stored
      · exact nomatch hresult
      · exact hpublished ⟨stored, rfl⟩

/-- What a step of a call ensures: for the others, for the objects, and for itself. -/
structure PutCall.Advances (codecs : Codecs) (files : ObjectFiles) (call : PutCall)
    (files' : ObjectFiles) (call' : PutCall) : Prop where
  undisturbed : files.Undisturbed (fun path => call.phase.temp? = some path) files'
  complete : PublishedComplete codecs files'
  sound : call'.Sound codecs files'
  /-- A new temporary file has a new name. -/
  fresh : ∀ temp, call'.phase.temp? = some temp →
    call.phase.temp? = some temp ∨ files.names temp = none

/-- A step that leaves the files as they are. -/
theorem PutCall.Advances.quiet (hcomplete : PublishedComplete codecs files)
    (hsound : call'.Sound codecs files)
    (hfresh : ∀ temp, call'.phase.temp? = some temp → call.phase.temp? = some temp) :
    call.Advances codecs files files call' :=
  ⟨.refl _ _, hcomplete, hsound, fun temp htemp => Or.inl (hfresh temp htemp)⟩

theorem PutCall.settle_temp? (call : PutCall) (temp : Option ObjectPath)
    (result : StoreResult StoredObject) : (call.settle temp result).phase.temp? = temp := by
  cases temp with
  | none => rfl
  | some temp => rfl

/-- Objects stay complete where no object gets another file, or a file another content. -/
theorem PublishedComplete.mono (h : PublishedComplete codecs files)
    (hnames : ∀ id content, files'.content? (pathFor id) = some content →
      files.content? (pathFor id) = some content) : PublishedComplete codecs files' :=
  fun id content hcontent => h id content (hnames id content hcontent)

/-! The steps that change the files. -/

theorem PutCall.Sound.createTemp (h : call.Sound codecs files)
    (hcomplete : PublishedComplete codecs files) {tries : Nat}
    (hphase : call.phase = .creating (tries + 1)) (choice : PutChoice) :
    call.Advances codecs files (call.createTemp files tries choice).1
      (call.createTemp files tries choice).2 := by
  have hverified := h.verified (by rw [hphase]; rfl)
  have hencoded := h.encoded (by rw [hphase]; rfl)
  unfold PutCall.createTemp
  dsimp only
  split
  case isTrue => exact .quiet hcomplete (sound_fail _) nofun
  split
  case isTrue =>
    exact .quiet hcomplete ⟨fun _ => hverified, fun _ => hencoded, nofun, nofun, nofun, nofun⟩ nofun
  case isFalse hfails htaken =>
    have hfree : files.names (call.tempPath choice.sequence) = none :=
      Option.not_isSome_iff_eq_none.mp htaken
    have hlength : (files.contents ++ [[]])[files.contents.length]? = some [] := by simp
    refine ⟨.create hfree, hcomplete.mono fun id content hcontent => ?_, ?_, fun temp htemp => ?_⟩
    · -- the new file has no object's name
      have hne : pathFor id ≠ call.tempPath choice.sequence := pathFor_ne_temporary id _ _ _
      obtain ⟨file, hnames, hfile⟩ := Option.bind_eq_some_iff.mp hcontent
      have hnames' : (if pathFor id = call.tempPath choice.sequence then
        some files.contents.length else files.names (pathFor id)) = some file := hnames
      rw [if_neg hne] at hnames'
      rw [LinkedFiles.content?_of_names hnames', ← hfile]
      exact (List.getElem?_append_left (files.valid _ _ hnames')).symm
    · refine ⟨fun _ => hverified, fun _ => hencoded, ?_, ?_, ?_, nofun⟩
      · intro temp htemp
        obtain rfl := Option.some.inj htemp
        refine ⟨⟨choice.sequence, rfl⟩, ?_⟩
        show (if _ then _ else _ : Option Nat).isSome = true
        rw [if_pos rfl]
        rfl
      · intro temp file written hwriting
        obtain ⟨rfl, rfl, rfl⟩ := PutPhase.writing.inj hwriting
        refine ⟨if_pos rfl, fun other hother => ?_, hlength⟩
        by_contra hne
        have hnames : files.names other = some files.contents.length := by
          have hother' : (if other = call.tempPath choice.sequence then some files.contents.length
            else files.names other) = some files.contents.length := hother
          rwa [if_neg hne] at hother'
        exact Nat.lt_irrefl _ (files.valid _ _ hnames)
      · rintro temp (hphase' | hphase')
        · exact nomatch hphase'
        · exact nomatch hphase'
    · obtain rfl := Option.some.inj htemp
      exact Or.inr hfree

theorem PutCall.Sound.writeTemp (h : call.Sound codecs files)
    (hcomplete : PublishedComplete codecs files) {temp : ObjectPath} {file written : Nat}
    (hphase : call.phase = .writing temp file written) (choice : PutChoice) :
    call.Advances codecs files (call.writeTemp files temp file written choice).1
      (call.writeTemp files temp file written choice).2 := by
  have htemp : call.phase.temp? = some temp := by
    rw [hphase]
    rfl
  have hverified := h.verified (by rw [hphase]; rfl)
  have hencoded := h.encoded (by rw [hphase]; rfl)
  obtain ⟨hnames, halone, hcontent⟩ := h.alone temp file written hphase
  unfold PutCall.writeTemp
  split
  case isTrue => exact .quiet hcomplete (h.cleaning htemp _) fun _ htemp' => htemp.trans htemp'
  case isFalse =>
    generalize hbytes : (call.envelope.drop written).take choice.amount = bytes
    have hcontent' : (files.append file bytes).contents[file]?
        = some (call.envelope.take (written + choice.amount)) := by
      show (files.contents.modify file (· ++ bytes))[file]? = _
      rw [List.getElem?_modify_eq, hcontent, ← hbytes, List.take_add]
      rfl
    have hheld : ∀ temp', some temp = some temp' → (∃ sequence, temp' = call.tempPath sequence)
        ∧ (files.names temp').isSome = true := by
      rintro temp' htemp'
      obtain rfl := Option.some.inj htemp'
      exact h.held temp htemp
    refine ⟨.append bytes fun other hother => ?_, hcomplete.mono fun id content hread => ?_, ?_, ?_⟩
    · rw [halone other hother]
      exact htemp
    · -- the file that is written is not an object's
      obtain ⟨file', hnames', hfile'⟩ := Option.bind_eq_some_iff.mp hread
      have hne : file ≠ file' := by
        rintro rfl
        exact pathFor_ne_temp h id (by rw [halone _ hnames']; exact htemp)
      have hold : files.names (pathFor id) = some file' := hnames'
      rw [LinkedFiles.content?_of_names hold, ← hfile']
      exact (List.getElem?_modify_ne _ _ hne).symm
    · split
      case isTrue hlength =>
        refine ⟨fun _ => hverified, fun _ => hencoded, hheld, nofun, ?_, nofun⟩
        rintro temp' (hsyncing | hlinking)
        · obtain rfl := PutPhase.syncing.inj hsyncing
          rw [LinkedFiles.content?_of_names (show (files.append file bytes).names temp
            = _ from hnames),
            hcontent', List.take_of_length_le hlength]
          rfl
        · exact nomatch hlinking
      case isFalse =>
        refine ⟨fun _ => hverified, fun _ => hencoded, hheld, ?_, ?_, nofun⟩
        · intro temp' file' written' hwriting
          obtain ⟨rfl, rfl, rfl⟩ := PutPhase.writing.inj hwriting
          exact ⟨hnames, halone, hcontent'⟩
        · rintro temp' (hsyncing | hlinking)
          · exact nomatch hsyncing
          · exact nomatch hlinking
    · intro temp' htemp'
      split at htemp'
      · exact Or.inl (htemp.trans htemp')
      · exact Or.inl (htemp.trans htemp')

theorem PutCall.Sound.hardLink (h : call.Sound codecs files)
    (hcomplete : PublishedComplete codecs files) {temp : ObjectPath}
    (hphase : call.phase = .linking temp) (choice : PutChoice) :
    call.Advances codecs files (call.hardLink files temp choice).1
      (call.hardLink files temp choice).2 := by
  have htemp : call.phase.temp? = some temp := by
    rw [hphase]
    rfl
  have hverified := h.verified (by rw [hphase]; rfl)
  have hencoded := h.encoded (by rw [hphase]; rfl)
  have hcontent : files.content? temp = some call.envelope := h.complete temp (Or.inr hphase)
  have hheld : ∀ temp', some temp = some temp' → (∃ sequence, temp' = call.tempPath sequence)
      ∧ (files.names temp').isSome = true := by
    rintro temp' htemp'
    obtain rfl := Option.some.inj htemp'
    exact h.held temp htemp
  unfold PutCall.hardLink
  split
  case isTrue => exact .quiet hcomplete (h.cleaning htemp _) fun _ htemp' => htemp.trans htemp'
  split
  case isTrue => exact .quiet hcomplete (.goOn rfl hheld nofun) fun _ htemp' => htemp.trans htemp'
  case isFalse hfound htaken =>
    have hfree : files.names (pathFor call.expected) = none :=
      Option.not_isSome_iff_eq_none.mp htaken
    obtain ⟨file, hnames, hfile⟩ := Option.bind_eq_some_iff.mp hcontent
    refine ⟨.link htemp hfree, ?_, .goOn rfl ?_ fun _ => ?_, fun _ htemp' =>
      Or.inl (htemp.trans htemp')⟩
    · -- the object is the envelope that the call has written
      intro id content hread
      by_cases hid : id = call.expected
      · refine ⟨call.bytes, ?_, hverified.trans hid.symm⟩
        have hnew : (files.link temp (pathFor call.expected)).names (pathFor id) = some file := by
          show (if pathFor id = pathFor call.expected then files.names temp else _) = _
          rw [hid, if_pos rfl]
          exact hnames
        rw [LinkedFiles.content?_of_names hnew] at hread
        obtain rfl := Option.some.inj (hfile.symm.trans hread)
        exact decode_encode hencoded
      · have hne : pathFor id ≠ pathFor call.expected := fun heq => hid (pathFor_injective heq)
        refine hcomplete id content ?_
        obtain ⟨file', hnames', hfile'⟩ := Option.bind_eq_some_iff.mp hread
        have hold : (if pathFor id = pathFor call.expected then files.names temp
          else files.names (pathFor id)) = some file' := hnames'
        rw [if_neg hne] at hold
        rw [LinkedFiles.content?_of_names hold]
        exact hfile'
    · intro temp' htemp'
      obtain ⟨hsequence, hsome⟩ := hheld temp' htemp'
      refine ⟨hsequence, ?_⟩
      show (if temp' = pathFor call.expected then files.names temp else files.names temp').isSome
        = true
      split
      · rw [hnames]
        rfl
      · exact hsome
    · show (if _ then files.names temp else _).isSome = true
      rw [if_pos rfl, hnames]
      rfl

theorem PutCall.Sound.cleanUp (h : call.Sound codecs files)
    (hcomplete : PublishedComplete codecs files) {temp : ObjectPath} {install : StoreResult Unit}
    (hphase : call.phase = .cleaning temp install) (choice : PutChoice) :
    call.Advances codecs files (call.cleanUp files temp install choice).1
      (call.cleanUp files temp install choice).2 := by
  have htemp : call.phase.temp? = some temp := by
    rw [hphase]
    rfl
  have hnames : ∀ id, (files.unlink temp).names (pathFor id) = files.names (pathFor id) := by
    intro id
    have hne : pathFor id ≠ temp := by
      rintro rfl
      exact pathFor_ne_temp h id htemp
    exact if_neg hne
  unfold PutCall.cleanUp
  split
  case isTrue =>
    cases install with
    | error error => exact .quiet hcomplete (sound_fail _) nofun
    | ok _ => exact .quiet hcomplete (sound_fail _) nofun
  case isFalse =>
    refine ⟨.unlink htemp, hcomplete.mono fun id content hread => ?_, .goOn rfl nofun ?_, nofun⟩
    · obtain ⟨file, hnames', hfile⟩ := Option.bind_eq_some_iff.mp hread
      rw [hnames] at hnames'
      rw [LinkedFiles.content?_of_names hnames']
      exact hfile
    · intro hreturned
      rw [hnames]
      refine h.published ?_
      rw [hphase]
      cases install with
      | error error => exact nomatch hreturned
      | ok _ => rfl

/-- The steps of a verification leave the files as they are. -/
theorem PutCall.Sound.readExisting (h : call.Sound codecs files)
    (hcomplete : PublishedComplete codecs files) {temp : Option ObjectPath} {file : Nat}
    (hphase : call.phase = .reading temp file) (choice : PutChoice) :
    call.Advances codecs files files (call.readExisting codecs files temp file choice) := by
  have htemp : call.phase.temp? = temp := by
    rw [hphase]
    rfl
  have hsettle : ∀ error, call.Advances codecs files files (call.settle temp (.error error)) := by
    intro error
    refine .quiet hcomplete (h.settle htemp ?_) fun temp' htemp' => ?_
    · rintro ⟨stored, hstored⟩
      exact nomatch hstored
    · rw [settle_temp?] at htemp'
      exact htemp.trans htemp'
  unfold PutCall.readExisting
  split
  · exact hsettle _
  split
  · exact hsettle _
  split
  · refine .quiet hcomplete (.goOn rfl (fun temp' htemp' => h.held temp' (htemp.trans htemp'))
      nofun) ?_
    exact fun temp' htemp' => htemp.trans htemp'
  · exact hsettle _

theorem PutCall.Sound.measure (h : call.Sound codecs files)
    (hcomplete : PublishedComplete codecs files) {temp : Option ObjectPath}
    (hphase : call.phase = .measuring temp) (choice : PutChoice) :
    call.Advances codecs files files (call.measure files temp choice) := by
  have htemp : call.phase.temp? = temp := by
    rw [hphase]
    rfl
  have hsettle : ∀ result : StoreResult StoredObject, ((∃ stored, result = .ok stored) →
      (files.names (pathFor call.expected)).isSome = true) →
      call.Advances codecs files files (call.settle temp result) := by
    intro result hresult
    refine .quiet hcomplete (h.settle htemp hresult) fun temp' htemp' => ?_
    rw [settle_temp?] at htemp'
    exact htemp.trans htemp'
  have herror : ∀ error, call.Advances codecs files files (call.settle temp (.error error)) := by
    intro error
    refine hsettle _ ?_
    rintro ⟨stored, hstored⟩
    exact nomatch hstored
  unfold PutCall.measure
  split
  case h_1 content hcontent =>
    split
    · exact herror _
    · refine hsettle _ fun _ => ?_
      rw [← LinkedFiles.content?_isSome, hcontent]
      rfl
  case h_2 => exact herror _

theorem PutCall.Sound.openExisting (h : call.Sound codecs files)
    (hcomplete : PublishedComplete codecs files) {temp : Option ObjectPath}
    (hphase : call.phase = .opening temp) (choice : PutChoice) :
    call.Advances codecs files files (call.openExisting files temp choice) := by
  have htemp : call.phase.temp? = temp := by
    rw [hphase]
    rfl
  have hsettle : ∀ error, call.Advances codecs files files (call.settle temp (.error error)) := by
    intro error
    refine .quiet hcomplete (h.settle htemp ?_) fun temp' htemp' => ?_
    · rintro ⟨stored, hstored⟩
      exact nomatch hstored
    · rw [settle_temp?] at htemp'
      exact htemp.trans htemp'
  unfold PutCall.openExisting
  split
  case h_1 file hnames =>
    split
    · exact hsettle _
    · refine .quiet hcomplete (.goOn rfl (fun temp' htemp' => h.held temp' (htemp.trans htemp'))
        fun _ => ?_) fun temp' htemp' => htemp.trans htemp'
      rw [hnames]
      rfl
  case h_2 => exact hsettle _

theorem PutCall.Sound.sync (h : call.Sound codecs files)
    (hcomplete : PublishedComplete codecs files) {temp : ObjectPath}
    (hphase : call.phase = .syncing temp) (fails : Bool) :
    call.Advances codecs files files (call.goOn
      (if fails then .cleaning temp (.error (.io "flush temporary object")) else .linking
        temp)) := by
  have htemp : call.phase.temp? = some temp := by
    rw [hphase]
    rfl
  have hverified := h.verified (by rw [hphase]; rfl)
  have hencoded := h.encoded (by rw [hphase]; rfl)
  have hcontent := h.complete temp (Or.inl hphase)
  split
  case isTrue => exact .quiet hcomplete (h.cleaning htemp _) fun _ htemp' => htemp.trans htemp'
  case isFalse =>
    refine .quiet hcomplete ⟨fun _ => hverified, fun _ => hencoded,
      fun temp' htemp' => h.held temp' (htemp.trans htemp'), nofun, ?_, nofun⟩
      fun _ htemp' => htemp.trans htemp'
    rintro temp' (hsyncing | hlinking)
    · exact nomatch hsyncing
    · obtain rfl := PutPhase.linking.inj hlinking
      exact hcontent

theorem PutCall.Sound.syncDirectory (h : call.Sound codecs files)
    (hcomplete : PublishedComplete codecs files) {temp : ObjectPath}
    (hphase : call.phase = .syncingDirectory temp) (install : StoreResult Unit) :
    call.Advances codecs files files (call.goOn (.cleaning temp install)) := by
  have htemp : call.phase.temp? = some temp := by
    rw [hphase]
    rfl
  have hpublished := h.published (by rw [hphase]; rfl)
  refine .quiet hcomplete (.goOn rfl (fun temp' htemp' => h.held temp' (htemp.trans htemp')) ?_)
    fun _ htemp' => htemp.trans htemp'
  exact fun _ => hpublished

/-- **One step of a call.** -/
theorem PutCall.Sound.advance (h : call.Sound codecs files)
    (hcomplete : PublishedComplete codecs files) (choice : PutChoice) :
    call.Advances codecs files (call.advance codecs files choice).1
      (call.advance codecs files choice).2 := by
  unfold PutCall.advance
  split
  case h_1 hphase =>
    refine .quiet hcomplete ?_ ?_
    · split
      · exact sound_fail _
      · exact ⟨fun _ => h.verified (by rw [hphase]; rfl), nofun, nofun, nofun, nofun, nofun⟩
    · intro temp htemp
      split at htemp
      · exact nomatch htemp
      · exact nomatch htemp
  case h_2 hphase =>
    have hverified := h.verified (by rw [hphase]; rfl)
    split
    · exact .quiet hcomplete (sound_fail _) nofun
    split
    · exact .quiet hcomplete (.goOn rfl nofun nofun) nofun
    split
    · exact .quiet hcomplete (sound_fail _) nofun
    case h_2 envelope hencode =>
      refine .quiet hcomplete ⟨fun _ => hverified, fun _ => hencode, nofun, nofun, nofun, nofun⟩
        nofun
  case h_3 => exact .quiet hcomplete (sound_fail _) nofun
  case h_4 tries hphase => exact h.createTemp hcomplete hphase choice
  case h_5 temp file written hphase => exact h.writeTemp hcomplete hphase choice
  case h_6 temp hphase => exact h.sync hcomplete hphase choice.fails
  case h_7 temp hphase => exact h.hardLink hcomplete hphase choice
  case h_8 temp hphase => exact h.syncDirectory hcomplete hphase _
  case h_9 temp hphase => exact h.openExisting hcomplete hphase choice
  case h_10 temp file hphase => exact h.readExisting hcomplete hphase choice
  case h_11 temp hphase => exact h.measure hcomplete hphase choice
  case h_12 temp install hphase => exact h.cleanUp hcomplete hphase choice
  case h_13 => exact .quiet hcomplete h fun _ htemp => htemp
  case h_14 => exact .quiet hcomplete h fun _ htemp => htemp

/-- A call does not notice what the others do to their files. -/
theorem PutCall.Sound.undisturbed (h : call.Sound codecs files) {mine : ObjectPath → Prop}
    (hfiles : files.Undisturbed mine files') (htemp : ∀ temp, call.phase.temp? = some temp
      → ¬ mine temp)
    (hobjects : ∀ id, ¬ mine (pathFor id)) : call.Sound codecs files' where
  verified := h.verified
  encoded := h.encoded
  held temp hheld := by
    obtain ⟨hsequence, hsome⟩ := h.held temp hheld
    obtain ⟨file, hnames⟩ := Option.isSome_iff_exists.mp hsome
    refine ⟨hsequence, ?_⟩
    rw [hfiles.names (htemp temp hheld) hnames]
    rfl
  alone temp file written hwriting := by
    obtain ⟨hnames, halone, hcontent⟩ := h.alone temp file written hwriting
    have hmine : ¬ mine temp := htemp temp (by rw [hwriting]; rfl)
    refine ⟨hfiles.names hmine hnames, hfiles.alone hmine hnames halone, ?_⟩
    rw [hfiles.contents hmine hnames]
    exact hcontent
  complete temp hcomplete := by
    refine hfiles.content? (htemp temp ?_) (h.complete temp hcomplete)
    rcases hcomplete with hphase | hphase
    · rw [hphase]
      rfl
    · rw [hphase]
      rfl
  published hpublished := by
    obtain ⟨file, hnames⟩ := Option.isSome_iff_exists.mp (h.published hpublished)
    rw [hfiles.names (hobjects call.expected) hnames]
    rfl

end Steps

/-! ### All the calls -/

section Runs

variable {codecs : Codecs} {s s' : Publication}

/-- The objects are complete, and no two calls share a temporary file. -/
structure Publication.Sound (codecs : Codecs) (s : Publication) : Prop where
  complete : PublishedComplete codecs s.files
  calls : ∀ call ∈ s.calls, call.Sound codecs s.files
  apart : ∀ (i j : Nat) (call call' : PutCall), i ≠ j → s.calls[i]? = some call
    → s.calls[j]? = some call' →
    ∀ temp, call.phase.temp? = some temp → call'.phase.temp? ≠ some temp

/-- Nothing that is published goes away or changes. -/
def Publication.Keeps (s s' : Publication) : Prop :=
  ∀ id content, s.files.content? (pathFor id) = some content →
    s'.files.content? (pathFor id) = some content

/-- A call that has just begun. -/
theorem PutCall.sound_start (codecs : Codecs) (files : ObjectFiles) (expected : ObjectId)
    (bytes : Bytes) (pid : Nat) :
    (PutCall.start codecs expected bytes pid).Sound codecs files
      ∧ (PutCall.start codecs expected bytes pid).phase.temp? = none := by
  unfold PutCall.start
  dsimp only
  split
  case isTrue hdigest =>
    exact ⟨⟨fun _ => hdigest, nofun, nofun, nofun, nofun, nofun⟩, rfl⟩
  case isFalse => exact ⟨⟨nofun, nofun, nofun, nofun, nofun, nofun⟩, rfl⟩

/-- A call takes the place of itself. -/
theorem Publication.Sound.set (h : s.Sound codecs) {i : Nat} {call call' : PutCall}
    (hcall : s.calls[i]? = some call) {files : ObjectFiles}
    (hadvances : call.Advances codecs s.files files call') :
    Publication.Sound codecs ⟨files, s.calls.set i call'⟩ := by
  have hlt : i < s.calls.length := (List.getElem?_eq_some_iff.mp hcall).1
  have hsound := h.calls call (List.mem_of_getElem? hcall)
  -- the temporary names of the others are taken, and none of theirs is this call's
  have hothers : ∀ j other, i ≠ j → s.calls[j]? = some other → ∀ temp,
      other.phase.temp? = some temp → call'.phase.temp? ≠ some temp := by
    intro j other hij hother temp htemp hnew
    rcases hadvances.fresh temp hnew with hold | hfree
    · exact h.apart i j call other hij hcall hother temp hold htemp
    · have hsome := ((h.calls other (List.mem_of_getElem? hother)).held temp htemp).2
      rw [hfree] at hsome
      exact nomatch hsome
  refine ⟨hadvances.complete, fun other hother => ?_, fun j k other other' hjk hj hk temp htemp =>
    ?_⟩
  · obtain ⟨j, hj⟩ := List.getElem?_of_mem hother
    rw [List.getElem?_set] at hj
    split at hj
    case isTrue hij =>
      obtain rfl := Option.some.inj hj
      exact hadvances.sound
    case isFalse hij =>
      refine (h.calls other (List.mem_of_getElem? hj)).undisturbed hadvances.undisturbed ?_
        (pathFor_ne_temp hsound)
      exact fun temp htemp hmine => h.apart i j call other hij hcall hj temp hmine htemp
  · rw [List.getElem?_set] at hj hk
    split at hj
    case isTrue hij =>
      obtain rfl := Option.some.inj hj
      rw [if_neg (fun hik => hjk (hij.symm.trans hik))] at hk
      intro htemp'
      exact hothers k other' (fun hik => hjk (hij.symm.trans hik)) hk temp htemp' htemp
    case isFalse hij =>
      split at hk
      case isTrue hik =>
        obtain rfl := Option.some.inj hk
        exact hothers j other hij hj temp htemp
      case isFalse hik => exact h.apart j k other other' hjk hj hk temp htemp

/-- **One step of the publication.** -/
theorem Publication.Sound.step (h : s.Sound codecs) (action : PutAction) :
    (s.step codecs action).Sound codecs ∧ s.Keeps (s.step codecs action) := by
  unfold Publication.step
  cases action with
  | begin expected bytes pid =>
    obtain ⟨hsound, hnone⟩ := PutCall.sound_start codecs s.files expected bytes pid
    refine ⟨⟨h.complete, fun call hcall => ?_, fun i j call call' hij hi hj temp htemp => ?_⟩,
      fun _ _ hcontent => hcontent⟩
    · rcases List.mem_append.mp hcall with hold | hnew
      · exact h.calls call hold
      · rw [List.mem_singleton.mp hnew]
        exact hsound
    · -- the new call has no temporary file
      have hold : ∀ {k : Nat} {other : PutCall} {temp' : ObjectPath},
          (s.calls ++ [PutCall.start codecs expected bytes pid])[k]? = some other →
          other.phase.temp? = some temp' → s.calls[k]? = some other := by
        intro k other temp' hk htemp'
        rw [List.getElem?_append] at hk
        split at hk
        · exact hk
        · obtain rfl : PutCall.start codecs expected bytes pid = other := by
            have hmem := List.mem_of_getElem? hk
            exact (List.mem_singleton.mp hmem).symm
          rw [hnone] at htemp'
          exact nomatch htemp'
      intro htemp'
      exact h.apart i j call call' hij (hold hi htemp) (hold hj htemp') temp htemp htemp'
  | advance i choice =>
    dsimp only
    split
    case h_1 call hcall =>
      have hsound := h.calls call (List.mem_of_getElem? hcall)
      have hadvances := hsound.advance h.complete choice
      refine ⟨h.set hcall hadvances, fun id content hcontent => ?_⟩
      exact hadvances.undisturbed.content? (pathFor_ne_temp hsound id) hcontent
    case h_2 => exact ⟨h, fun _ _ hcontent => hcontent⟩
  | crash i =>
    dsimp only
    split
    case h_1 call hcall =>
      refine ⟨h.set hcall ?_, fun _ _ hcontent => hcontent⟩
      exact .quiet h.complete (.goOn rfl nofun nofun) nofun
    case h_2 => exact ⟨h, fun _ _ hcontent => hcontent⟩

theorem Publication.Sound.run (h : s.Sound codecs) (actions : List PutAction) :
    (Machine.run (Publication.step codecs) s actions).Sound codecs
      ∧ s.Keeps (Machine.run (Publication.step codecs) s actions) := by
  induction actions generalizing s with
  | nil => exact ⟨h, fun _ _ hcontent => hcontent⟩
  | cons action rest ih =>
    obtain ⟨hstep, hkeeps⟩ := h.step action
    obtain ⟨hrun, hrest⟩ := ih hstep
    exact ⟨hrun, fun id content hcontent => hrest id content (hkeeps id content hcontent)⟩

/-- **Immutable publication.**  For any number of calls, in any interleaving, with failures and
crashes at any step: an object that is there is the complete envelope of a payload with its digest,
it stays as it is whatever comes next, and a call that has returned without an error has left it
there. -/
theorem object_publication (codecs : Codecs) (files : ObjectFiles)
    (hfiles : PublishedComplete codecs files) (actions more : List PutAction) :
    let s := Machine.run (Publication.step codecs) ⟨files, []⟩ actions
    let s' := Machine.run (Publication.step codecs) s more
    PublishedComplete codecs s.files
      ∧ (∀ id content, s.files.content? (pathFor id) = some content →
          s'.files.content? (pathFor id) = some content)
      ∧ ∀ call ∈ s.calls, ∀ stored, call.phase = .returned (.ok stored) →
          (s.files.content? (pathFor call.expected)).isSome = true := by
  intro s s'
  have hstart : Publication.Sound codecs ⟨files, []⟩ :=
    ⟨hfiles, fun _ hcall => absurd hcall List.not_mem_nil, fun _ _ _ _ _ hi => nomatch hi⟩
  have hs : s.Sound codecs := (hstart.run actions).1
  refine ⟨hs.complete, (hs.run more).2, fun call hcall stored hreturned => ?_⟩
  rw [LinkedFiles.content?_isSome]
  refine (hs.calls call hcall).published ?_
  rw [hreturned]
  rfl

end Runs

namespace Sample

/-- The call `i` takes `n` steps, which succeed. -/
def advances (i n : Nat) : List PutAction := List.replicate n (.advance i ⟨false, i, 100⟩)

/-- Two calls put the chunk; each has its temporary file before the other links, and a third one
ends in the middle of its write. -/
def racing : List PutAction :=
  [.begin outputId output 7, .begin outputId output 8, .begin outputId output 9]
    ++ advances 0 5 ++ advances 1 5 ++ advances 2 3 ++ [.advance 2 ⟨false, 2, 3⟩, .crash 2]
    ++ advances 0 3 ++ advances 1 5

def raced : Publication := Machine.run (Publication.step codecs) ⟨.empty, []⟩ racing

end Sample

/-- Both calls return the object that one of them has linked. -/
theorem object_publication_raced :
    (∀ call ∈ Sample.raced.calls, ∀ stored, call.phase = .returned (.ok stored) →
        (Sample.raced.files.content? (pathFor call.expected)).isSome = true)
      ∧ Sample.raced.calls.map (·.phase) = List.replicate 2
        (.returned (.ok ⟨Sample.outputId, 1, 17, .none⟩))
        ++ [.crashed] :=
  ⟨(object_publication Sample.codecs .empty (fun _ _ h => nomatch h) Sample.racing []).2.2,
    by decide +kernel⟩

end Rewind
