/-
Identifiers and times of durable records.

Record identifiers are UUIDs, content identifiers are BLAKE3 digests.  A digest
carries its length and an event sequence its range, so that neither a 31-byte
digest nor a zero sequence can be built.
-/
import Rewind.Lib.Bytes
import Mathlib.Data.Int.Basic

namespace Rewind

/-! ### Record identifiers -/

/-- A UUID. -/
structure Uuid where
  bits : BitVec 128
deriving DecidableEq, Repr

/-- The hexadecimal digits `from`, …, `from + count - 1` of a UUID, counted from the left. -/
def Uuid.digits (u : Uuid) (first count : Nat) : String :=
  String.ofList <| (List.range count).map fun i =>
    Nat.digitChar ((u.bits.toNat >>> (4 * (31 - (first + i)))) % 16)

/-- `Uuid::hyphenated`. -/
def Uuid.hyphenated (u : Uuid) : String :=
  u.digits 0 8 ++ "-" ++ u.digits 8 4 ++ "-" ++ u.digits 12 4 ++ "-" ++ u.digits 16 4 ++ "-"
    ++ u.digits 20 12

/-- A locally generated, time-sortable run identifier. -/
structure RunId where
  uuid : Uuid
deriving DecidableEq, Repr

/-- An identifier shared by records on one execution branch. -/
structure BranchId where
  uuid : Uuid
deriving DecidableEq, Repr

structure CheckpointId where
  uuid : Uuid
deriving DecidableEq, Repr

structure EventId where
  uuid : Uuid
deriving DecidableEq, Repr

/-- An identifier for one recorded terminal byte stream. -/
structure TerminalStreamId where
  uuid : Uuid
deriving DecidableEq, Repr

instance : ToString RunId := ⟨fun id => id.uuid.hyphenated⟩
instance : ToString CheckpointId := ⟨fun id => id.uuid.hyphenated⟩
instance : ToString EventId := ⟨fun id => id.uuid.hyphenated⟩

/-! ### Content identifiers -/

/-- The 32 bytes of a BLAKE3 digest. -/
structure Digest where
  bytes : Bytes
  length_eq : bytes.length = 32
deriving DecidableEq

/-- The BLAKE3 identity of a canonical snapshot representation. -/
structure SnapshotId where
  digest : Digest
deriving DecidableEq

/-- The BLAKE3 identity of immutable object bytes. -/
structure ObjectId where
  digest : Digest
deriving DecidableEq

/-- `Display` of a digest identifier: 64 lower-case hexadecimal digits. -/
def Digest.hex (d : Digest) : Bytes := toHex d.bytes

theorem Digest.length_hex (d : Digest) : d.hex.length = 64 := by
  rw [Digest.hex, length_toHex, d.length_eq]

/-- Digests compare as their bytes do. -/
instance : LinearOrder Digest :=
  LinearOrder.lift' Digest.bytes fun d d' h => by
    cases d
    cases d'
    cases h
    rfl

instance : LinearOrder SnapshotId :=
  LinearOrder.lift' SnapshotId.digest fun id id' h => by
    cases id
    cases id'
    cases h
    rfl

instance : LinearOrder ObjectId :=
  LinearOrder.lift' ObjectId.digest fun id id' h => by
    cases id
    cases id'
    cases h
    rfl

instance : ToString SnapshotId := ⟨fun id => asciiString id.digest.hex⟩
instance : ToString ObjectId := ⟨fun id => asciiString id.digest.hex⟩

/-- `parse_digest`, without its errors. -/
def parseDigest (input : Bytes) : Option Digest :=
  (ofHex input).bind fun bytes => if h : bytes.length = 32 then some ⟨bytes, h⟩ else none

theorem parseDigest_eq_some_iff {input : Bytes} {d : Digest} :
    parseDigest input = some d ↔ d.hex = input := by
  unfold parseDigest
  rw [Option.bind_eq_some_iff]
  constructor
  · rintro ⟨bytes, hbytes, hd⟩
    by_cases hlength : bytes.length = 32
    · rw [dif_pos hlength] at hd
      obtain rfl := Option.some.inj hd
      exact toHex_of_ofHex hbytes
    · rw [dif_neg hlength] at hd
      exact absurd hd (by simp)
  · rintro rfl
    exact ⟨d.bytes, ofHex_toHex d.bytes, dif_pos d.length_eq⟩

/-- The digest whose bytes are all `b`. -/
def Digest.fill (b : UInt8) : Digest where
  bytes := List.replicate 32 b
  length_eq := List.length_replicate

/-! ### Event sequences and process identifiers -/

/-- A nonzero event position within one run (`NonZeroU64`). -/
@[ext] structure EventSequence where
  get : Nat
  pos : 0 < get
  lt : get < 2 ^ 64
deriving DecidableEq, Repr

namespace EventSequence

/-- The first valid sequence number in a run. -/
def first : EventSequence := ⟨1, by decide, by decide⟩

/-- The sequence numbered `value`, or `none` for zero. -/
def new (value : UInt64) : Option EventSequence :=
  if h : 0 < value.toNat then some ⟨value.toNat, h, value.toNat_lt⟩ else none

/-- The next sequence, or `none` at `u64::MAX`. -/
def checkedNext (s : EventSequence) : Option EventSequence :=
  if h : s.get + 1 < 2 ^ 64 then some ⟨s.get + 1, Nat.succ_pos _, h⟩ else none

@[simp] theorem get_first : first.get = 1 := rfl

theorem get_injective {s t : EventSequence} (h : s.get = t.get) : s = t := EventSequence.ext h

theorem checkedNext_eq_some_iff {s t : EventSequence} :
    s.checkedNext = some t ↔ t.get = s.get + 1 := by
  unfold checkedNext
  by_cases h : s.get + 1 < 2 ^ 64
  · rw [dif_pos h, Option.some.injEq, EventSequence.ext_iff]
    exact eq_comm
  · rw [dif_neg h]
    constructor
    · intro hnone
      exact absurd hnone (by simp)
    · intro hget
      exact absurd (hget ▸ t.lt) h

end EventSequence

/-- A nonzero operating-system process identifier (`NonZeroU32`). -/
structure ProcessId where
  get : UInt32
  ne_zero : get ≠ 0
deriving DecidableEq

theorem ProcessId.one_ne_zero : (1 : UInt32) ≠ 0 := by decide

/-! ### Times -/

/-- Milliseconds from the Unix epoch. -/
structure Timestamp where
  unixMilliseconds : Int64
deriving DecidableEq

/-- Nanoseconds from the start of a run. -/
structure MonotonicDuration where
  nanoseconds : UInt64
deriving DecidableEq

/-- `as_nanoseconds`. -/
def MonotonicDuration.asNanoseconds (d : MonotonicDuration) : Nat := d.nanoseconds.toNat

/-- No time at all. -/
def MonotonicDuration.zero : MonotonicDuration := ⟨0⟩

@[simp] theorem MonotonicDuration.asNanoseconds_zero : zero.asNanoseconds = 0 := rfl

end Rewind
