/-
Object files: their envelopes, their paths and their publication.

An object is one file below `objects/`, named by its digest, that holds a header and
the payload.  The database and the files are one `Disk`; each step on it may fail, or be
the last one before a crash, as a `FaultPlan` says by tick.

* `decode_encode` — an envelope gives its payload back;
* `pathFor_injective`, `pathFor_ne_temporary` — object paths are distinct from each other
  and from the temporary names of a publication.
-/
import Rewind.Store.Objects

namespace Rewind

/-! ### Envelopes -/

/-- `b"RWOB"`. -/
def MAGIC : Bytes := [82, 87, 79, 66]

def VERSION : UInt8 := 1

def COMPRESSION_NONE : UInt8 := 0

def HEADER_LEN : Nat := 16

/-- `encode`. -/
def encode (bytes : Bytes) : StoreResult Bytes := do
  ensure (bytes.length < 2 ^ 64) .objectTooLarge
  ensure (HEADER_LEN + bytes.length < 2 ^ 64) .objectTooLarge
  return MAGIC ++ [VERSION, COMPRESSION_NONE, 0, 0] ++ toLittleEndian 8 bytes.length ++ bytes

/-- `decode_header`. -/
def decodeHeader (header : Bytes) : StoreResult Nat := do
  ensure (header.length = HEADER_LEN ∧ header.take 4 = MAGIC)
    (.malformedObjectEnvelope "invalid magic or truncated header")
  let version := header.getD 4 0
  let compression := header.getD 5 0
  ensure (version = VERSION) (.unsupportedObjectEnvelopeVersion version)
  ensure (compression = COMPRESSION_NONE) (.unsupportedObjectCompression compression)
  ensure ((header.drop 6).take 2 = [0, 0])
    (.malformedObjectEnvelope "reserved header bytes are nonzero")
  return ofLittleEndian ((header.drop 8).take 8)

/-- `decode`. -/
def decode (envelope : Bytes) : StoreResult Bytes := do
  ensure (HEADER_LEN ≤ envelope.length ∧ envelope.take 4 = MAGIC)
    (.malformedObjectEnvelope "invalid magic or truncated header")
  let logicalLen ← decodeHeader (envelope.take HEADER_LEN)
  let payload := envelope.drop HEADER_LEN
  ensure (payload.length = logicalLen)
    (.malformedObjectEnvelope "logical length does not match payload")
  return payload

/-- `ObjectStore::get` on the content of the object's file: the payload, once its length is
within `maximum` and its digest is the object's. -/
def readObject (codecs : Codecs) (id : ObjectId) (maximum : Nat) (content : Bytes) :
    StoreResult Bytes := do
  ensure (HEADER_LEN ≤ content.length) (.io "read object envelope header")
  let logicalSize ← decodeHeader (content.take HEADER_LEN)
  ensure (logicalSize + HEADER_LEN < 2 ^ 64) .objectTooLarge
  ensure (content.length = logicalSize + HEADER_LEN)
    (.malformedObjectEnvelope "logical length does not match stored size")
  ensure (logicalSize ≤ maximum) (.objectReadLimit logicalSize maximum)
  let payload := content.drop HEADER_LEN
  ensure (ObjectId.digestOf codecs payload = id) (.io "verify object payload")
  return payload

theorem length_of_encode {bytes envelope : Bytes} (h : encode bytes = .ok envelope) :
    envelope.length = HEADER_LEN + bytes.length := by
  obtain ⟨-, h⟩ := ensure_bind_eq_ok_iff.mp h
  obtain ⟨-, h⟩ := ensure_bind_eq_ok_iff.mp h
  obtain rfl := Except.ok.inj h
  simp [MAGIC, HEADER_LEN, length_toLittleEndian]
  omega

theorem decodeHeader_append {size : Nat} (hsize : size < 2 ^ 64) :
    decodeHeader (MAGIC ++ [VERSION, COMPRESSION_NONE, 0, 0] ++ toLittleEndian 8 size)
      = .ok size := by
  have hlength := length_toLittleEndian 8 size
  have hvalue : ofLittleEndian (toLittleEndian 8 size) = size :=
    ofLittleEndian_toLittleEndian (by omega)
  have htake : (toLittleEndian 8 size).take 8 = toLittleEndian 8 size :=
    List.take_of_length_le (by omega)
  simp [decodeHeader, ensure, MAGIC, HEADER_LEN, hlength, htake, hvalue, Bind.bind, Except.bind,
    pure, Except.pure]

/-- An envelope gives its payload back. -/
theorem decode_encode {bytes envelope : Bytes} (h : encode bytes = .ok envelope) :
    decode envelope = .ok bytes := by
  have hlength := length_of_encode h
  obtain ⟨hsize, h⟩ := ensure_bind_eq_ok_iff.mp h
  obtain ⟨-, h⟩ := ensure_bind_eq_ok_iff.mp h
  have henvelope := Except.ok.inj h
  have hheader : (MAGIC ++ [VERSION, COMPRESSION_NONE, 0, 0]
      ++ toLittleEndian 8 bytes.length).length = HEADER_LEN := by
    simp [MAGIC, HEADER_LEN, length_toLittleEndian]
  have htake : envelope.take HEADER_LEN
      = MAGIC ++ [VERSION, COMPRESSION_NONE, 0, 0] ++ toLittleEndian 8 bytes.length := by
    rw [← henvelope, List.take_append_of_le_length (Nat.le_of_eq hheader.symm), ← hheader,
      List.take_length]
  have hdrop : envelope.drop HEADER_LEN = bytes := by
    rw [← henvelope, ← hheader, List.drop_left]
  unfold decode
  refine ensure_bind_eq_ok_iff.mpr ⟨⟨by omega, ?_⟩, ?_⟩
  · rw [← henvelope]
    rfl
  · rw [htake, decodeHeader_append hsize, hdrop]
    exact ensure_bind_eq_ok_iff.mpr ⟨rfl, rfl⟩

/-- A file that reads as an object is an envelope of a payload with that digest. -/
theorem readObject_ok {codecs : Codecs} {id : ObjectId} {maximum : Nat} {content payload : Bytes}
    (h : readObject codecs id maximum content = .ok payload) :
    decode content = .ok payload ∧ ObjectId.digestOf codecs payload = id := by
  obtain ⟨hheader, h⟩ := ensure_bind_eq_ok_iff.mp h
  obtain ⟨logicalSize, hdecode, h⟩ := Except.bind_eq_ok_iff.mp h
  obtain ⟨-, h⟩ := ensure_bind_eq_ok_iff.mp h
  obtain ⟨hlength, h⟩ := ensure_bind_eq_ok_iff.mp h
  obtain ⟨-, h⟩ := ensure_bind_eq_ok_iff.mp h
  obtain ⟨hdigest, h⟩ := ensure_bind_eq_ok_iff.mp h
  obtain rfl := Except.ok.inj h
  refine ⟨?_, hdigest⟩
  have hmagic : (content.take HEADER_LEN).take 4 = MAGIC :=
    (ensure_bind_eq_ok_iff.mp hdecode).1.2
  rw [List.take_take] at hmagic
  unfold decode
  refine ensure_bind_eq_ok_iff.mpr ⟨⟨hheader, hmagic⟩, ?_⟩
  rw [hdecode]
  refine ensure_bind_eq_ok_iff.mpr ⟨?_, rfl⟩
  rw [List.length_drop, hlength]
  omega

theorem length_le_of_readObject {codecs : Codecs} {id : ObjectId} {maximum : Nat}
    {content payload : Bytes} (h : readObject codecs id maximum content = .ok payload) :
    payload.length ≤ maximum := by
  obtain ⟨hheader, h⟩ := ensure_bind_eq_ok_iff.mp h
  obtain ⟨logicalSize, -, h⟩ := Except.bind_eq_ok_iff.mp h
  obtain ⟨-, h⟩ := ensure_bind_eq_ok_iff.mp h
  obtain ⟨hlength, h⟩ := ensure_bind_eq_ok_iff.mp h
  obtain ⟨hmaximum, h⟩ := ensure_bind_eq_ok_iff.mp h
  obtain ⟨-, h⟩ := ensure_bind_eq_ok_iff.mp h
  obtain rfl := Except.ok.inj h
  rw [List.length_drop, hlength]
  omega

/-- The envelope of a payload reads as its object. -/
theorem readObject_of_encode {codecs : Codecs} {maximum : Nat} {bytes envelope : Bytes}
    (h : encode bytes = .ok envelope) (hmaximum : bytes.length ≤ maximum) :
    readObject codecs (ObjectId.digestOf codecs bytes) maximum envelope = .ok bytes := by
  have hlength := length_of_encode h
  have hdecode := decode_encode h
  obtain ⟨hsize, h⟩ := ensure_bind_eq_ok_iff.mp h
  obtain ⟨hfits, -⟩ := ensure_bind_eq_ok_iff.mp h
  obtain ⟨-, hrest⟩ := ensure_bind_eq_ok_iff.mp hdecode
  obtain ⟨logicalSize, hheader, hrest⟩ := Except.bind_eq_ok_iff.mp hrest
  obtain ⟨hlogical, hpayload⟩ := ensure_bind_eq_ok_iff.mp hrest
  have hbytes : envelope.drop HEADER_LEN = bytes := Except.ok.inj hpayload
  rw [hbytes] at hlogical
  refine ensure_bind_eq_ok_iff.mpr ⟨by omega, Except.bind_eq_ok_iff.mpr ⟨logicalSize, hheader, ?_⟩⟩
  refine ensure_bind_eq_ok_iff.mpr ⟨by omega, ensure_bind_eq_ok_iff.mpr ⟨by omega, ?_⟩⟩
  refine ensure_bind_eq_ok_iff.mpr ⟨by omega, ?_⟩
  rw [hbytes]
  exact ensure_bind_eq_ok_iff.mpr ⟨rfl, rfl⟩

/-! ### Files -/

/-- A path below `objects/`: a fan-out directory, and a name in it. -/
structure ObjectPath where
  directory : Bytes
  name : Bytes
deriving DecidableEq

/-- What a name in a fan-out directory stands for. -/
inductive Node where
  | file (content : Bytes)
  | other
deriving DecidableEq

structure DirEntry where
  path : ObjectPath
  node : Node
deriving DecidableEq

/-- The entries of the fan-out directories. -/
abbrev Files := List DirEntry

/-- `path_for`. -/
def pathFor (id : ObjectId) : ObjectPath := ⟨id.digest.hex.take 2, id.digest.hex.drop 2⟩

/-- `.tmp-<pid>-<sequence>`. -/
def temporaryName (pid sequence : Nat) : Bytes :=
  utf8 ".tmp-" ++ utf8 (toString pid) ++ utf8 "-" ++ utf8 (toString sequence)

namespace Files

def node? (files : Files) (path : ObjectPath) : Option Node :=
  (Table.find DirEntry.path files path).map (·.node)

/-- `O_CREAT | O_EXCL`, and `link` to a new name. -/
def create (files : Files) (path : ObjectPath) (node : Node) : Files := files ++ [⟨path, node⟩]

def write (files : Files) (path : ObjectPath) (content : Bytes) : Files :=
  Table.update (fun entry => entry.path = path) (fun entry => { entry with node := .file content })
    files

def remove (files : Files) (path : ObjectPath) : Files := files.filter fun entry =>
    entry.path ≠ path

theorem node?_create (files : Files) (path : ObjectPath) (node : Node) (p : ObjectPath) :
    (files.create path node).node? p
      = (files.node? p).or (if path = p then some node else none) := by
  rw [node?, node?, create, Table.find_append, Table.find_cons]
  rcases Table.find DirEntry.path files p with _ | entry
  · by_cases h : path = p
    · simp [h]
    · simp [h]
  · rfl

theorem node?_write (files : Files) (path : ObjectPath) (content : Bytes) (p : ObjectPath) :
    (files.write path content).node? p
      = if path = p then (files.node? p).map fun _ => .file content else files.node? p := by
  have hfind := Table.find_update DirEntry.path (p := fun entry => entry.path = path)
    (f := fun entry => { entry with node := .file content }) (fun _ => rfl) files p
  rw [node?, node?, write, hfind]
  rcases hentry : Table.find DirEntry.path files p with _ | entry
  · by_cases h : path = p <;> simp [h]
  · have hpath := Table.find_some_key DirEntry.path hentry
    by_cases h : path = p
    · simp [h, hpath]
    · have hne : ¬ entry.path = path := fun heq => h (heq.symm.trans hpath)
      simp [h, hne]

theorem node?_cons (entry : DirEntry) (files : Files) (p : ObjectPath) :
    Files.node? (entry :: files) p = if entry.path = p then some entry.node else files.node? p := by
  rw [node?, node?, Table.find_cons]
  by_cases h : entry.path = p
  · rw [if_pos h, if_pos h]
    rfl
  · rw [if_neg h, if_neg h]

theorem node?_remove (files : Files) (path p : ObjectPath) :
    (files.remove path).node? p = if path = p then none else files.node? p := by
  induction files with
  | nil => simp [remove, node?]
  | cons entry rest ih =>
    rw [node?_cons]
    by_cases hentry : entry.path = path
    · have hremove : remove (entry :: rest) path = remove rest path := by simp [remove, hentry]
      rw [hremove, ih]
      by_cases h : path = p
      · rw [if_pos h, if_pos h]
      · rw [if_neg h, if_neg h, if_neg fun heq => h (hentry.symm.trans heq)]
    · have hremove : remove (entry :: rest) path = entry :: remove rest path := by
        simp [remove, hentry]
      rw [hremove, node?_cons, ih]
      by_cases h : path = p
      · rw [if_pos h, if_neg fun heq => hentry (heq.trans h.symm), if_pos h]
      · rw [if_neg h, if_neg h]

end Files

/-- Distinct objects have distinct paths. -/
theorem pathFor_injective {id id' : ObjectId} (h : pathFor id = pathFor id') : id = id' := by
  obtain ⟨hdirectory, hname⟩ := ObjectPath.mk.inj h
  have hhex : id.digest.hex = id'.digest.hex := by
    rw [← List.take_append_drop 2 id.digest.hex, hdirectory, hname, List.take_append_drop]
  have hbytes := toHex_injective hhex
  rcases id with ⟨⟨bytes, hlength⟩⟩
  rcases id' with ⟨⟨bytes', hlength'⟩⟩
  obtain rfl : bytes = bytes' := hbytes
  rfl

theorem hexDigit_ne_dot : ∀ i : Fin 16, hexDigit (UInt8.ofNat i.val) ≠ 46 := by decide

/-- Hexadecimal text has no dot in it. -/
theorem dot_not_mem_toHex (bytes : Bytes) : (46 : UInt8) ∉ toHex bytes := by
  induction bytes with
  | nil => exact List.not_mem_nil
  | cons b rest ih =>
    obtain ⟨i, j, hi, hj, -⟩ := half_eq b
    rw [toHex_cons, List.mem_append, not_or]
    refine ⟨?_, ih⟩
    simp only [hexByte, hi, hj, List.mem_cons, List.not_mem_nil, or_false, not_or]
    exact ⟨(hexDigit_ne_dot i).symm, (hexDigit_ne_dot j).symm⟩

theorem pathFor_ne_temporary (id : ObjectId) (directory : Bytes) (pid sequence : Nat) :
    pathFor id ≠ ⟨directory, temporaryName pid sequence⟩ := by
  intro h
  have hname := congrArg ObjectPath.name h
  refine dot_not_mem_toHex id.digest.bytes (List.mem_of_mem_drop (i := 2) ?_)
  show (46 : UInt8) ∈ (pathFor id).name
  rw [hname]
  simp [temporaryName, show utf8 ".tmp-" = [46, 116, 109, 112, 45] by decide]

end Rewind
