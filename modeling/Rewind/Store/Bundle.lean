/-
Bundles: named byte sequences in one file.

A bundle is a header with the number of entries, and the entries in the order of their paths, each
with its lengths and the digest of its bytes in front.  Three parts of the program have the format
in them: `encode_bundle`, `BundleStreamWriter` and `decode_bundle`.

* `bundleBytes` — the format, from which the three are compared;
* `encodeBundle`, `BundleStreamWriter` — the encoders, one in memory and one on a stream;
* `decodeBundle` — the decoder, in which an access outside of the input would be a failure of its
  own;
* **`streamBundle_ok`** — a stream has the bytes of the encoding of its entries.
-/
import Rewind.Domain.Snapshot
import Rewind.Lib.Fallible
import Mathlib.Data.List.Sort

namespace Rewind

/-! ### Entries -/

/-- One named byte sequence in a Rewind bundle. -/
structure BundleEntry where
  path : Bytes
  bytes : Bytes
  text : validUtf8 path = true

theorem BundleEntry.eq_iff {e e' : BundleEntry} :
    e.path = e'.path ∧ e.bytes = e'.bytes ↔ e = e' := by
  cases e
  cases e'
  simp

instance : DecidableEq BundleEntry := fun _ _ => decidable_of_iff _ BundleEntry.eq_iff

/-- Resource ceilings of the decoder. -/
structure BundleDecodeLimits where
  maximumEntries : UInt32
  maximumEntryBytes : UInt64
  maximumTotalBytes : UInt64

inductive BundleError where
  | invalidMagic
  | unsupportedVersion (found supported : Nat)
  | unsupportedFlags
  | truncated
  | trailingBytes
  | nonUtf8Path
  | unsafePath (path : Bytes)
  | nonCanonicalOrder (path : Bytes)
  | tooManyEntries (actual : Nat) (maximum : UInt32)
  | entryTooLarge (path : Bytes) (actual : Nat) (maximum : UInt64)
  | totalTooLarge (maximum : UInt64)
  | checksumMismatch (path : Bytes)
  | numericRange
  | entryCountMismatch (declared : UInt32) (written : Nat)
  | io (source : String)
  | sourceLengthMismatch (path : Bytes)
deriving DecidableEq

abbrev BundleResult (α : Type) := Except BundleError α

namespace Bundle

/-- `b"RWBN"`. -/
def MAGIC : Bytes := [82, 87, 66, 78]

def BUNDLE_VERSION : Nat := 1

def HEADER_BYTES : Nat := 12

def ENTRY_HEADER_BYTES : Nat := 44

def MAX_ARCHIVE_PATH_BYTES : Nat := 4096

/-- The size of the buffer that a source is copied through. -/
def BUFFER_BYTES : Nat := 64 * 1024

end Bundle

/-- The paths that `validate_archive_path` accepts. -/
def isArchivePath (path : Bytes) : Bool :=
  !path.isEmpty && decide (path.length ≤ Bundle.MAX_ARCHIVE_PATH_BYTES)
    && decide (path.head? ≠ some slash) && !path.contains 92 && !path.contains 0
    && (splitSlash path).all fun component =>
      !component.isEmpty && decide (component ≠ [46]) && decide (component ≠ [46, 46])

/-- `validate_archive_path`. -/
def validateArchivePath (path : Bytes) : BundleResult Unit :=
  ensure (isArchivePath path = true) (.unsafePath path)

/-! ### The format -/

namespace Bundle

/-- The bytes in front of the entries. -/
def header (count : Nat) : Bytes :=
  MAGIC ++ toLittleEndian 2 BUNDLE_VERSION ++ toLittleEndian 2 0 ++ toLittleEndian 4 count

/-- The bytes of an entry in front of its payload. -/
def entryHeader (path : Bytes) (byteLen : Nat) (checksum : Digest) : Bytes :=
  toLittleEndian 2 path.length ++ toLittleEndian 2 0 ++ toLittleEndian 8 byteLen
    ++ checksum.bytes ++ path

def entry (codecs : Codecs) (e : BundleEntry) : Bytes :=
  entryHeader e.path e.bytes.length (codecs.blake3 e.bytes) ++ e.bytes

end Bundle

/-- The bundle of entries in this order. -/
def bundleBytes (codecs : Codecs) (entries : List BundleEntry) : Bytes :=
  Bundle.header entries.length ++ entries.flatMap (Bundle.entry codecs)

/-! ### The stream -/

/-- `std::io::Write`, for which a call that fails ends the stream. -/
class Write (W : Type) where
  writeAll : W → Bytes → BundleResult W

/-- A `Vec<u8>`. -/
instance : Write Bytes where
  writeAll written bytes := .ok (written ++ bytes)

/-- What a writer has received. -/
structure Received (W : Type) [Write W] where
  bytes : W → Bytes
  writeAll : ∀ {w w' : W} {more : Bytes}, Write.writeAll w more = .ok w' →
    bytes w' = bytes w ++ more

structure BundleStreamWriter (W : Type) where
  writer : W
  declared : UInt32
  written : Nat
  previous : Option Bytes

/-- What a reader returns, call after call; no bytes are the end of the file. -/
abbrev Reader := List (Except String Bytes)

/-- `reader.read(&mut buffer[..wanted])`; what does not fit comes with the next call. -/
def Reader.read (wanted : Nat) : Reader → BundleResult (Bytes × Reader)
  | [] => .ok ([], [])
  | .error error :: _ => .error (.io error)
  | .ok chunk :: rest =>
    if chunk.length ≤ wanted then .ok (chunk, rest)
    else .ok (chunk.take wanted, .ok (chunk.drop wanted) :: rest)

/-- No more is read than asked for. -/
theorem Reader.length_of_read {wanted : Nat} {reader reader' : Reader} {chunk : Bytes}
    (h : reader.read wanted = .ok (chunk, reader')) : chunk.length ≤ wanted := by
  unfold Reader.read at h
  split at h
  · obtain ⟨rfl, -⟩ := Prod.mk.inj (Except.ok.inj h)
    exact Nat.zero_le wanted
  · exact nomatch h
  · split at h
    case isTrue hfits =>
      obtain ⟨rfl, -⟩ := Prod.mk.inj (Except.ok.inj h)
      exact hfits
    case isFalse =>
      obtain ⟨rfl, -⟩ := Prod.mk.inj (Except.ok.inj h)
      exact List.length_take_le wanted _

namespace BundleStreamWriter

variable {W : Type} [Write W] (codecs : Codecs)

/-- Writes a bundle header. -/
def new (writer : W) (entryCount : UInt32) : BundleResult (BundleStreamWriter W) := do
  let writer ← Write.writeAll writer Bundle.MAGIC
  let writer ← Write.writeAll writer (toLittleEndian 2 Bundle.BUNDLE_VERSION)
  let writer ← Write.writeAll writer (toLittleEndian 2 0)
  let writer ← Write.writeAll writer (toLittleEndian 4 entryCount.toNat)
  return ⟨writer, entryCount, 0, none⟩

/-- `write_entry_header`. -/
def writeEntryHeader (s : BundleStreamWriter W) (path : Bytes) (byteLen : Nat)
    (checksum : Digest) : BundleResult (BundleStreamWriter W) := do
  validateArchivePath path
  ensure (s.written ≠ s.declared.toNat) (.entryCountMismatch s.declared (s.written + 1))
  ensure (∀ previous, s.previous = some previous → previous < path) (.nonCanonicalOrder path)
  ensure (path.length < 2 ^ 16) .numericRange
  let writer ← Write.writeAll s.writer (toLittleEndian 2 path.length)
  let writer ← Write.writeAll writer (toLittleEndian 2 0)
  let writer ← Write.writeAll writer (toLittleEndian 8 byteLen)
  let writer ← Write.writeAll writer checksum.bytes
  let writer ← Write.writeAll writer path
  return { s with writer }

/-- `complete_entry`. -/
def completeEntry (s : BundleStreamWriter W) (path : Bytes) : BundleStreamWriter W :=
  { s with previous := some path, written := s.written + 1 }

/-- `write_entry`. -/
def writeEntry (s : BundleStreamWriter W) (path bytes : Bytes) :
    BundleResult (BundleStreamWriter W) := do
  ensure (bytes.length < 2 ^ 64) .numericRange
  let s ← s.writeEntryHeader path bytes.length (codecs.blake3 bytes)
  let writer ← Write.writeAll s.writer bytes
  return { s with writer }.completeEntry path

/-- The loop of `write_prehashed_entry`, with the bytes that are hashed so far. -/
def copy (path : Bytes) (writer : W) (remaining : Nat) (hashed : Bytes) (reader : Reader) :
    BundleResult (W × Bytes × Reader) :=
  if remaining = 0 then
    .ok (writer, hashed, reader)
  else
    match hread : reader.read (min remaining Bundle.BUFFER_BYTES) with
    | .error error => .error error
    | .ok ([], _) => .error (.sourceLengthMismatch path)
    | .ok (b :: chunk, rest) =>
      match Write.writeAll writer (b :: chunk) with
      | .error error => .error error
      | .ok writer =>
        have : remaining - (b :: chunk).length < remaining := by
          have hlength := Reader.length_of_read hread
          rw [List.length_cons] at hlength ⊢
          omega
        copy path writer (remaining - (b :: chunk).length) (hashed ++ b :: chunk) rest
termination_by remaining

/-- `write_prehashed_entry`. -/
def writePrehashedEntry (s : BundleStreamWriter W) (path : Bytes) (byteLen : UInt64)
    (checksum : Digest) (reader : Reader) : BundleResult (BundleStreamWriter W) := do
  let s ← s.writeEntryHeader path byteLen.toNat checksum
  let (writer, hashed, reader) ← copy path s.writer byteLen.toNat [] reader
  let (extra, _) ← reader.read 1
  ensure (extra = []) (.sourceLengthMismatch path)
  ensure (codecs.blake3 hashed = checksum) (.checksumMismatch path)
  return { s with writer }.completeEntry path

/-- `finish`. -/
def finish (s : BundleStreamWriter W) : BundleResult W := do
  ensure (s.written = s.declared.toNat) (.entryCountMismatch s.declared s.written)
  return s.writer

end BundleStreamWriter

/-- A call that writes an entry. -/
inductive EntryWrite where
  | direct (entry : BundleEntry)
  | prehashed (path : Bytes) (text : validUtf8 path = true) (byteLen : UInt64) (checksum : Digest)
      (reader : Reader)

/-- The bytes up to the end of the file. -/
def Reader.content : Reader → Bytes
  | .ok (b :: chunk) :: rest => b :: chunk ++ content rest
  | _ => []

/-- The entry that a call is fed. -/
def EntryWrite.entry : EntryWrite → BundleEntry
  | .direct entry => entry
  | .prehashed path text _ _ reader => ⟨path, reader.content, text⟩

def EntryWrite.exec {W : Type} [Write W] (codecs : Codecs) (s : BundleStreamWriter W) :
    EntryWrite → BundleResult (BundleStreamWriter W)
  | .direct entry => s.writeEntry codecs entry.path entry.bytes
  | .prehashed path _ byteLen checksum reader =>
    s.writePrehashedEntry codecs path byteLen checksum reader

/-- A stream from its header to its end. -/
def streamBundle {W : Type} [Write W] (codecs : Codecs) (writer : W) (entryCount : UInt32)
    (calls : List EntryWrite) : BundleResult W := do
  let s ← BundleStreamWriter.new writer entryCount
  let s ← calls.foldlM (fun s call => call.exec codecs s) s
  s.finish

/-! ### The encoder -/

/-- `left.path.cmp(&right.path)`, for `sort_by`. -/
def sortByPath (entries : List BundleEntry) : List BundleEntry :=
  entries.mergeSort fun left right => decide (left.path ≤ right.path)

/-- The loop that looks for a path twice. -/
def checkDistinct : List Bytes → List BundleEntry → BundleResult Unit
  | _, [] => .ok ()
  | paths, e :: rest => do
    ensure (e.path ∉ paths) (.nonCanonicalOrder e.path)
    checkDistinct (e.path :: paths) rest

/-- `encode_bundle`. -/
def encodeBundle (codecs : Codecs) (entries : List BundleEntry) : BundleResult Bytes := do
  entries.forM fun e => validateArchivePath e.path
  let entries := sortByPath entries
  checkDistinct [] entries
  ensure (entries.length < 2 ^ 32) .numericRange
  let writer ← BundleStreamWriter.new ([] : Bytes) (UInt32.ofNat entries.length)
  let writer ← entries.foldlM (fun (writer : BundleStreamWriter Bytes) e =>
    writer.writeEntry codecs e.path e.bytes) writer
  writer.finish

/-! ### The decoder -/

/-- Why a decoding ends without entries: an error of the format, or an access that is not in the
input. -/
inductive DecodeFailure where
  | outOfBounds
  | error (source : BundleError)
deriving DecidableEq

abbrev Decoding (α : Type) := Except DecodeFailure α

namespace Bundle

/-- `bytes[i]`. -/
def index (bytes : Bytes) (i : Nat) : Decoding UInt8 :=
  match bytes[i]? with
  | some b => .ok b
  | none => .error .outOfBounds

/-- `&bytes[start..stop]`. -/
def slice (bytes : Bytes) (start stop : Nat) : Decoding Bytes :=
  if start ≤ stop ∧ stop ≤ bytes.length then .ok ((bytes.drop start).take (stop - start))
  else .error .outOfBounds

/-- `u16::from_le_bytes([bytes[i], bytes[i + 1]])`. -/
def u16At (bytes : Bytes) (i : Nat) : Decoding Nat := do
  let b₀ ← index bytes i
  let b₁ ← index bytes (i + 1)
  return ofLittleEndian [b₀, b₁]

/-- `u32::from_le_bytes([bytes[i], bytes[i + 1], bytes[i + 2], bytes[i + 3]])`. -/
def u32At (bytes : Bytes) (i : Nat) : Decoding Nat := do
  let b₀ ← index bytes i
  let b₁ ← index bytes (i + 1)
  let b₂ ← index bytes (i + 2)
  let b₃ ← index bytes (i + 3)
  return ofLittleEndian [b₀, b₁, b₂, b₃]

/-- `usize::checked_add` and `u64::checked_add`. -/
def checkedAdd (a b : Nat) : Option Nat := if a + b < 2 ^ 64 then some (a + b) else none

/-- `take`: a slice from the cursor on, and the cursor after it. -/
def take (bytes : Bytes) (cursor length : Nat) : Decoding (Bytes × Nat) :=
  match (checkedAdd cursor length).filter (fun stop => decide (stop ≤ bytes.length)) with
  | some stop => do
    let taken ← slice bytes cursor stop
    return (taken, stop)
  | none => .error (.error .truncated)

/-- A result of the format. -/
def ofResult {α : Type} (result : BundleResult α) : Decoding α := result.mapError .error

/-- The total with another entry. -/
def addToTotal (limits : BundleDecodeLimits) (total byteLen : Nat) : BundleResult Nat :=
  match checkedAdd total byteLen with
  | some total =>
    if total ≤ limits.maximumTotalBytes.toNat then .ok total
    else .error (.totalTooLarge limits.maximumTotalBytes)
  | none => .error (.totalTooLarge limits.maximumTotalBytes)

/-- An entry, and the cursor and the total after it. -/
def decodeEntry (codecs : Codecs) (bytes : Bytes) (limits : BundleDecodeLimits)
    (cursor total : Nat) (previous : Option Bytes) : Decoding (BundleEntry × Nat × Nat) := do
  let (header, cursor) ← take bytes cursor ENTRY_HEADER_BYTES
  let pathLen ← u16At header 0
  let flags ← u16At header 2
  ofResult (ensure (flags = 0) .unsupportedFlags)
  let byteLen ← slice header 4 12
  let byteLen := ofLittleEndian byteLen
  let checksum ← slice header 12 44
  let (path, cursor) ← take bytes cursor pathLen
  if text : validUtf8 path = true then do
    ofResult (validateArchivePath path)
    ofResult (ensure (∀ value, previous = some value → value < path) (.nonCanonicalOrder path))
    ofResult (ensure (byteLen ≤ limits.maximumEntryBytes.toNat)
      (.entryTooLarge path byteLen limits.maximumEntryBytes))
    let total ← ofResult (addToTotal limits total byteLen)
    let (payload, cursor) ← take bytes cursor byteLen
    ofResult (ensure ((codecs.blake3 payload).bytes = checksum) (.checksumMismatch path))
    return (⟨path, payload, text⟩, cursor, total)
  else
    throw (.error .nonUtf8Path)

/-- The loop over the entries, and the cursor after them. -/
def decodeEntries (codecs : Codecs) (bytes : Bytes) (limits : BundleDecodeLimits) :
    Nat → Nat → Nat → Option Bytes → Decoding (List BundleEntry × Nat)
  | 0, cursor, _, _ => return ([], cursor)
  | count + 1, cursor, total, previous => do
    let (e, cursor, total) ← decodeEntry codecs bytes limits cursor total previous
    let (entries, cursor) ← decodeEntries codecs bytes limits count cursor total (some e.path)
    return (e :: entries, cursor)

end Bundle

open Bundle in
/-- `decode_bundle`. -/
def decodeBundle (codecs : Codecs) (bytes : Bytes) (limits : BundleDecodeLimits) :
    Decoding (List BundleEntry) := do
  ofResult (ensure (HEADER_BYTES ≤ bytes.length) .truncated)
  let magic ← slice bytes 0 4
  ofResult (ensure (magic = Bundle.MAGIC) .invalidMagic)
  let version ← u16At bytes 4
  ofResult (ensure (version = BUNDLE_VERSION) (.unsupportedVersion version BUNDLE_VERSION))
  let flags ← u16At bytes 6
  ofResult (ensure (flags = 0) .unsupportedFlags)
  let count ← u32At bytes 8
  ofResult (ensure (count ≤ limits.maximumEntries.toNat)
    (.tooManyEntries count limits.maximumEntries))
  let (entries, cursor) ← decodeEntries codecs bytes limits count HEADER_BYTES 0 none
  ofResult (ensure (cursor = bytes.length) .trailingBytes)
  return entries

/-! ### What the calls write -/

/-- Entries with the paths of an archive, in strictly increasing order after `previous`, of lengths
that the format has fields for. -/
def Canonical : Option Bytes → List BundleEntry → Prop
  | _, [] => True
  | previous, e :: rest =>
    isArchivePath e.path = true ∧ (∀ value, previous = some value → value < e.path)
      ∧ e.bytes.length < 2 ^ 64 ∧ Canonical (some e.path) rest

/-- An archive path has a length of two bytes. -/
theorem length_of_isArchivePath {path : Bytes} (h : isArchivePath path = true) :
    path.length < 2 ^ 16 := by
  simp only [isArchivePath, Bool.and_eq_true] at h
  have hlength : path.length ≤ Bundle.MAX_ARCHIVE_PATH_BYTES := of_decide_eq_true h.1.1.1.1.2
  rw [Bundle.MAX_ARCHIVE_PATH_BYTES] at hlength
  omega

/-- Every later path is greater. -/
theorem Canonical.lt {previous : Bytes} {entries : List BundleEntry}
    (h : Canonical (some previous) entries) : ∀ e ∈ entries, previous < e.path := by
  induction entries generalizing previous with
  | nil => exact fun e he => absurd he List.not_mem_nil
  | cons first rest ih =>
    obtain ⟨-, horder, -, hrest⟩ := h
    have hfirst : previous < first.path := horder previous rfl
    intro e he
    rcases List.mem_cons.mp he with rfl | he
    · exact hfirst
    · exact lt_trans hfirst (ih hrest e he)

theorem Canonical.pairwise {previous : Option Bytes} {entries : List BundleEntry}
    (h : Canonical previous entries) :
    entries.Pairwise fun left right => left.path < right.path := by
  induction entries generalizing previous with
  | nil => exact List.Pairwise.nil
  | cons first rest ih => exact List.pairwise_cons.mpr ⟨h.2.2.2.lt, ih h.2.2.2⟩

theorem Canonical.valid {previous : Option Bytes} {entries : List BundleEntry}
    (h : Canonical previous entries) :
    ∀ e ∈ entries, isArchivePath e.path = true ∧ e.bytes.length < 2 ^ 64 := by
  induction entries generalizing previous with
  | nil => exact fun e he => absurd he List.not_mem_nil
  | cons first rest ih =>
    intro e he
    rcases List.mem_cons.mp he with rfl | he
    · exact ⟨h.1, h.2.2.1⟩
    · exact ih h.2.2.2 e he

/-- Valid entries whose paths increase are canonical. -/
theorem canonical_of_pairwise {previous : Option Bytes} {entries : List BundleEntry}
    (hvalid : ∀ e ∈ entries, isArchivePath e.path = true ∧ e.bytes.length < 2 ^ 64)
    (hprevious : ∀ value, previous = some value → ∀ e ∈ entries, value < e.path)
    (hpairwise : entries.Pairwise fun left right => left.path < right.path) :
    Canonical previous entries := by
  induction entries generalizing previous with
  | nil => trivial
  | cons first rest ih =>
    obtain ⟨hfirst, hrest⟩ := List.forall_mem_cons.mp hvalid
    obtain ⟨hbefore, hpairwise⟩ := List.pairwise_cons.mp hpairwise
    refine ⟨hfirst.1, fun value hvalue => hprevious value hvalue first List.mem_cons_self, hfirst.2,
      ih hrest ?_ hpairwise⟩
    intro value hvalue
    obtain rfl := Option.some.inj hvalue
    exact hbefore

section Streams

variable {W : Type} [Write W] {codecs : Codecs}

/-- What an entry needs to be written next. -/
def BundleStreamWriter.Accepts (s : BundleStreamWriter W) (path : Bytes) : Prop :=
  isArchivePath path = true ∧ s.written ≠ s.declared.toNat
    ∧ ∀ previous, s.previous = some previous → previous < path

theorem new_ok (received : Received W) {writer : W} {entryCount : UInt32} {s : BundleStreamWriter W}
    (h : BundleStreamWriter.new writer entryCount = .ok s) :
    received.bytes s.writer = received.bytes writer ++ Bundle.header entryCount.toNat
      ∧ s.declared = entryCount ∧ s.written = 0 ∧ s.previous = none := by
  obtain ⟨w₁, h₁, h⟩ := Except.bind_eq_ok_iff.mp h
  obtain ⟨w₂, h₂, h⟩ := Except.bind_eq_ok_iff.mp h
  obtain ⟨w₃, h₃, h⟩ := Except.bind_eq_ok_iff.mp h
  obtain ⟨w₄, h₄, h⟩ := Except.bind_eq_ok_iff.mp h
  obtain rfl := Except.ok.inj h
  refine ⟨?_, rfl, rfl, rfl⟩
  show received.bytes w₄ = _
  rw [received.writeAll h₄, received.writeAll h₃, received.writeAll h₂, received.writeAll h₁]
  simp only [Bundle.header, List.append_assoc]

theorem writeEntryHeader_ok (received : Received W) {s s' : BundleStreamWriter W} {path : Bytes}
    {byteLen : Nat} {checksum : Digest} (h : s.writeEntryHeader path byteLen checksum = .ok s') :
    s.Accepts path ∧ received.bytes s'.writer
        = received.bytes s.writer ++ Bundle.entryHeader path byteLen checksum
      ∧ s'.declared = s.declared ∧ s'.written = s.written := by
  obtain ⟨u, hvalid, h⟩ := Except.bind_eq_ok_iff.mp h
  obtain ⟨hcount, h⟩ := ensure_bind_eq_ok_iff.mp h
  obtain ⟨horder, h⟩ := ensure_bind_eq_ok_iff.mp h
  obtain ⟨-, h⟩ := ensure_bind_eq_ok_iff.mp h
  obtain ⟨w₁, h₁, h⟩ := Except.bind_eq_ok_iff.mp h
  obtain ⟨w₂, h₂, h⟩ := Except.bind_eq_ok_iff.mp h
  obtain ⟨w₃, h₃, h⟩ := Except.bind_eq_ok_iff.mp h
  obtain ⟨w₄, h₄, h⟩ := Except.bind_eq_ok_iff.mp h
  obtain ⟨w₅, h₅, h⟩ := Except.bind_eq_ok_iff.mp h
  obtain rfl := Except.ok.inj h
  refine ⟨⟨ensure_eq_ok_iff.mp hvalid, hcount, horder⟩, ?_, rfl, rfl⟩
  show received.bytes w₅ = _
  rw [received.writeAll h₅, received.writeAll h₄, received.writeAll h₃, received.writeAll h₂,
    received.writeAll h₁]
  simp only [Bundle.entryHeader, List.append_assoc]

/-- A call has written an entry. -/
structure Wrote (codecs : Codecs) (received : Received W) (s : BundleStreamWriter W)
    (e : BundleEntry) (s' : BundleStreamWriter W) : Prop where
  accepts : s.Accepts e.path
  fits : e.bytes.length < 2 ^ 64
  bytes : received.bytes s'.writer = received.bytes s.writer ++ Bundle.entry codecs e
  declared : s'.declared = s.declared
  written : s'.written = s.written + 1
  previous : s'.previous = some e.path

theorem writeEntry_ok (received : Received W) {s s' : BundleStreamWriter W} {e : BundleEntry}
    (h : s.writeEntry codecs e.path e.bytes = .ok s') : Wrote codecs received s e s' := by
  obtain ⟨hfits, h⟩ := ensure_bind_eq_ok_iff.mp h
  obtain ⟨s₁, hheader, h⟩ := Except.bind_eq_ok_iff.mp h
  obtain ⟨w, hpayload, h⟩ := Except.bind_eq_ok_iff.mp h
  obtain rfl := Except.ok.inj h
  obtain ⟨haccepts, hbytes, hdeclared, hwritten⟩ := writeEntryHeader_ok received hheader
  refine ⟨haccepts, hfits, ?_, hdeclared, ?_, rfl⟩
  · show received.bytes w = _
    rw [received.writeAll hpayload, hbytes, Bundle.entry, List.append_assoc]
  · show s₁.written + 1 = s.written + 1
    rw [hwritten]

/-- A read takes from the front of the content, and nothing only at its end. -/
theorem content_of_read {wanted : Nat} (hwanted : 0 < wanted) {reader reader' : Reader}
    {chunk : Bytes} (h : reader.read wanted = .ok (chunk, reader')) :
    (chunk = [] → reader.content = []) ∧
      (chunk ≠ [] → reader.content = chunk ++ reader'.content) := by
  unfold Reader.read at h
  split at h
  · obtain ⟨rfl, -⟩ := Prod.mk.inj (Except.ok.inj h)
    exact ⟨fun _ => rfl, fun hne => absurd rfl hne⟩
  · exact nomatch h
  case h_3 bytes rest =>
    cases bytes with
    | nil =>
      rw [if_pos (show ([] : Bytes).length ≤ wanted from Nat.zero_le wanted)] at h
      obtain ⟨rfl, -⟩ := Prod.mk.inj (Except.ok.inj h)
      exact ⟨fun _ => rfl, fun hne => absurd rfl hne⟩
    | cons b tail =>
      split at h
      case isTrue =>
        obtain ⟨rfl, rfl⟩ := Prod.mk.inj (Except.ok.inj h)
        exact ⟨nofun, fun _ => rfl⟩
      case isFalse hlong =>
        -- the rest of the chunk is not empty, so the content goes on with it
        obtain ⟨rfl, rfl⟩ := Prod.mk.inj (Except.ok.inj h)
        have hdrop : (b :: tail).drop wanted ≠ [] := by
          intro hnil
          have hlength := congrArg List.length hnil
          rw [List.length_drop, List.length_nil] at hlength
          omega
        obtain ⟨c, more, hmore⟩ := List.exists_cons_of_ne_nil hdrop
        refine ⟨fun hnil => ?_, fun _ => ?_⟩
        · have hlength := congrArg List.length hnil
          rw [List.length_take, List.length_cons, List.length_nil] at hlength
          omega
        · show b :: tail ++ Reader.content rest
            = (b :: tail).take wanted ++ Reader.content (.ok ((b :: tail).drop wanted) :: rest)
          rw [hmore, Reader.content, ← hmore, ← List.append_assoc, List.take_append_drop]

/-- The loop copies as many bytes as asked for, from the front of the content. -/
theorem copy_ok (received : Received W) {path : Bytes} {writer writer' : W} {remaining : Nat}
    {hashed hashed' : Bytes} {reader reader' : Reader}
    (h : BundleStreamWriter.copy path writer remaining hashed reader
      = .ok (writer', hashed', reader')) :
    ∃ copied, copied.length = remaining ∧ reader.content = copied ++ reader'.content
      ∧ received.bytes writer' = received.bytes writer ++ copied ∧ hashed' = hashed ++ copied := by
  induction remaining using Nat.strong_induction_on generalizing writer hashed reader with
  | _ remaining ih =>
    rw [BundleStreamWriter.copy] at h
    split at h
    case isTrue hzero =>
      obtain ⟨rfl, rfl, rfl⟩ := by simpa using Except.ok.inj h
      exact ⟨[], hzero.symm, rfl, (List.append_nil _).symm, (List.append_nil _).symm⟩
    case isFalse hzero =>
      split at h
      · exact nomatch h
      · exact nomatch h
      case h_3 b chunk rest hread =>
        split at h
        · exact nomatch h
        case h_2 w hwrite =>
          have hwanted : 0 < min remaining Bundle.BUFFER_BYTES := by
            rw [Bundle.BUFFER_BYTES]
            omega
          have hlength := Reader.length_of_read hread
          have hcontent := (content_of_read hwanted hread).2 (List.cons_ne_nil b chunk)
          have hless : remaining - (b :: chunk).length < remaining := by
            rw [List.length_cons]
            omega
          obtain ⟨copied, hcopied, hrest, hbytes, hhashed⟩ := ih _ hless h
          refine ⟨b :: chunk ++ copied, ?_, ?_, ?_, ?_⟩
          · rw [List.length_append, hcopied]
            omega
          · rw [hcontent, hrest, List.append_assoc]
          · rw [hbytes, received.writeAll hwrite, List.append_assoc]
          · rw [hhashed, List.append_assoc]

/-- A reader is taken only with the length and the digest that were announced. -/
theorem writePrehashedEntry_read (received : Received W) {s s' : BundleStreamWriter W}
    {path : Bytes} {byteLen : UInt64} {checksum : Digest} {reader : Reader}
    (h : s.writePrehashedEntry codecs path byteLen checksum reader = .ok s') :
    reader.content.length = byteLen.toNat ∧ codecs.blake3 reader.content = checksum := by
  obtain ⟨s₁, hheader, h⟩ := Except.bind_eq_ok_iff.mp h
  obtain ⟨⟨w, hashed, reader'⟩, hcopy, h⟩ := Except.bind_eq_ok_iff.mp h
  obtain ⟨⟨extra, reader''⟩, hextra, h⟩ := Except.bind_eq_ok_iff.mp h
  obtain ⟨hend, h⟩ := ensure_bind_eq_ok_iff.mp h
  obtain ⟨hchecksum, h⟩ := ensure_bind_eq_ok_iff.mp h
  obtain ⟨copied, hlength, hcontent, -, hhashed⟩ := copy_ok received hcopy
  have hempty : reader'.content = [] := (content_of_read Nat.zero_lt_one hextra).1 hend
  rw [hempty, List.append_nil] at hcontent
  rw [List.nil_append] at hhashed
  rw [hcontent, ← hhashed]
  exact ⟨hhashed ▸ hlength, hchecksum⟩

theorem writePrehashedEntry_ok (received : Received W) {s s' : BundleStreamWriter W} {path : Bytes}
    (text : validUtf8 path = true) {byteLen : UInt64} {checksum : Digest} {reader : Reader}
    (h : s.writePrehashedEntry codecs path byteLen checksum reader = .ok s') :
    Wrote codecs received s ⟨path, reader.content, text⟩ s' := by
  obtain ⟨hbyteLen, hdigest⟩ := writePrehashedEntry_read received h
  obtain ⟨s₁, hheader, h⟩ := Except.bind_eq_ok_iff.mp h
  obtain ⟨⟨w, hashed, reader'⟩, hcopy, h⟩ := Except.bind_eq_ok_iff.mp h
  obtain ⟨⟨extra, reader''⟩, hextra, h⟩ := Except.bind_eq_ok_iff.mp h
  obtain ⟨hend, h⟩ := ensure_bind_eq_ok_iff.mp h
  obtain ⟨-, h⟩ := ensure_bind_eq_ok_iff.mp h
  obtain rfl := Except.ok.inj h
  obtain ⟨haccepts, hbytes, hdeclared, hwritten⟩ := writeEntryHeader_ok received hheader
  obtain ⟨copied, -, hcontent, hcopied, -⟩ := copy_ok received hcopy
  have hempty : reader'.content = [] := (content_of_read Nat.zero_lt_one hextra).1 hend
  rw [hempty, List.append_nil] at hcontent
  refine ⟨haccepts, ?_, ?_, hdeclared, ?_, rfl⟩
  · show reader.content.length < 2 ^ 64
    rw [hbyteLen]
    exact byteLen.toNat_lt
  · show received.bytes w = _
    rw [hcopied, hbytes, Bundle.entry]
    show _ = received.bytes s.writer
      ++ (Bundle.entryHeader path reader.content.length (codecs.blake3 reader.content)
        ++ reader.content)
    rw [hbyteLen, hdigest, hcontent, List.append_assoc]
  · show s₁.written + 1 = s.written + 1
    rw [hwritten]

/-- Every call that returns `Ok` has written the entry it was fed. -/
theorem exec_wrote (received : Received W) {s s' : BundleStreamWriter W} {call : EntryWrite}
    (h : call.exec codecs s = .ok s') : Wrote codecs received s call.entry s' := by
  cases call with
  | direct entry => exact writeEntry_ok received h
  | prehashed path text byteLen checksum reader => exact writePrehashedEntry_ok received text h

/-- Entries have been written, one after the other. -/
inductive WroteAll (codecs : Codecs) (received : Received W) :
    BundleStreamWriter W → List BundleEntry → BundleStreamWriter W → Prop where
  | nil (s : BundleStreamWriter W) : WroteAll codecs received s [] s
  | cons {s s₁ s' : BundleStreamWriter W} {e : BundleEntry} {rest : List BundleEntry}
    (h : Wrote codecs received s e s₁) (hrest : WroteAll codecs received s₁ rest s') :
    WroteAll codecs received s (e :: rest) s'

theorem Wrote.all {received : Received W} {s s' : BundleStreamWriter W} {e : BundleEntry}
    (h : Wrote codecs received s e s') : WroteAll codecs received s [e] s' := .cons h (.nil s')

theorem WroteAll.append {received : Received W} {s s₁ s' : BundleStreamWriter W}
    {entries entries' : List BundleEntry} (h : WroteAll codecs received s entries s₁)
    (h' : WroteAll codecs received s₁ entries' s') :
    WroteAll codecs received s (entries ++ entries') s' := by
  induction h with
  | nil s => exact h'
  | cons hfirst _ ih => exact .cons hfirst (ih h')

theorem WroteAll.spec {received : Received W} {s s' : BundleStreamWriter W}
    {entries : List BundleEntry} (h : WroteAll codecs received s entries s') :
    Canonical s.previous entries
      ∧ received.bytes s'.writer
        = received.bytes s.writer ++ entries.flatMap (Bundle.entry codecs)
      ∧ s'.declared = s.declared ∧ s'.written = s.written + entries.length := by
  induction h with
  | nil s => exact ⟨trivial, (List.append_nil _).symm, rfl, rfl⟩
  | cons hwrote _ ih =>
    obtain ⟨hcanonical, hbytes, hdeclared, hwritten⟩ := ih
    rw [hwrote.previous] at hcanonical
    refine ⟨⟨hwrote.accepts.1, hwrote.accepts.2.2, hwrote.fits, hcanonical⟩, ?_, ?_, ?_⟩
    · rw [hbytes, hwrote.bytes, List.flatMap_cons, List.append_assoc]
    · rw [hdeclared, hwrote.declared]
    · rw [hwritten, hwrote.written, List.length_cons]
      omega

/-- What is written between the header and the end is the bundle of the entries. -/
theorem WroteAll.bundle {received : Received W} {writer writer' : W} {entryCount : UInt32}
    {s s' : BundleStreamWriter W} {entries : List BundleEntry}
    (hnew : BundleStreamWriter.new writer entryCount = .ok s)
    (h : WroteAll codecs received s entries s') (hfinish : s'.finish = .ok writer') :
    Canonical none entries ∧ entries.length = entryCount.toNat
      ∧ received.bytes writer' = received.bytes writer ++ bundleBytes codecs entries := by
  obtain ⟨hcount, hfinish⟩ := ensure_bind_eq_ok_iff.mp hfinish
  obtain rfl := Except.ok.inj hfinish
  obtain ⟨hheader, hdeclared, hzero, hprevious⟩ := new_ok received hnew
  obtain ⟨hcanonical, hbytes, hdeclared', hwritten⟩ := h.spec
  rw [hprevious] at hcanonical
  have hlength : entries.length = entryCount.toNat := by
    rw [hwritten, hzero, hdeclared', hdeclared] at hcount
    omega
  refine ⟨hcanonical, hlength, ?_⟩
  rw [hbytes, hheader, bundleBytes, hlength, List.append_assoc]

/-- A loop each of whose steps writes an entry that belongs to its item. -/
theorem WroteAll.of_foldlM {α ε : Type} {received : Received W} {R : α → BundleEntry → Prop}
    {f : BundleStreamWriter W → α → Except ε (BundleStreamWriter W)} {as : List α}
    {s s' : BundleStreamWriter W}
    (hf : ∀ a ∈ as, ∀ s s', f s a = .ok s' → ∃ e, R a e ∧ Wrote codecs received s e s')
    (h : as.foldlM f s = .ok s') :
    ∃ entries, List.Forall₂ R as entries ∧ WroteAll codecs received s entries s' := by
  induction as generalizing s with
  | nil =>
    obtain rfl := Except.ok.inj h
    exact ⟨[], .nil, .nil s⟩
  | cons a rest ih =>
    obtain ⟨s₁, hfirst, hrest⟩ := List.foldlM_eq_ok_cons.mp h
    obtain ⟨e, he, hwrote⟩ := hf a List.mem_cons_self s s₁ hfirst
    obtain ⟨entries, hentries, hall⟩ := ih (fun a ha => hf a (List.mem_cons_of_mem _ ha)) hrest
    exact ⟨e :: entries, .cons he hentries, .cons hwrote hall⟩

/-- The calls of a stream, one after the other. -/
theorem foldlM_wrote (received : Received W) {s s' : BundleStreamWriter W}
    {calls : List EntryWrite}
    (h : calls.foldlM (fun s call => call.exec codecs s) s = .ok s') :
    WroteAll codecs received s (calls.map EntryWrite.entry) s' := by
  obtain ⟨entries, hentries, hall⟩ := WroteAll.of_foldlM (R := fun call e => call.entry = e)
    (fun call _ s s' hcall => ⟨call.entry, rfl, exec_wrote received hcall⟩) h
  have hmap : calls.map EntryWrite.entry = entries := by
    rw [← List.forall₂_eq_eq_eq, List.forall₂_map_left_iff]
    exact hentries
  rwa [hmap]

/-- A stream whose calls all return `Ok` is the bundle of its entries. -/
theorem streamBundle_ok (received : Received W) {writer writer' : W} {entryCount : UInt32}
    {calls : List EntryWrite} (h : streamBundle codecs writer entryCount calls = .ok writer') :
    Canonical none (calls.map EntryWrite.entry) ∧ calls.length = entryCount.toNat
      ∧ received.bytes writer' = received.bytes writer
        ++ bundleBytes codecs (calls.map EntryWrite.entry) := by
  obtain ⟨s, hnew, h⟩ := Except.bind_eq_ok_iff.mp h
  obtain ⟨s', hcalls, hfinish⟩ := Except.bind_eq_ok_iff.mp h
  have hbundle := WroteAll.bundle hnew (foldlM_wrote received hcalls) hfinish
  rw [List.length_map] at hbundle
  exact hbundle

end Streams

/-! ### What the encoder returns -/

section Encoding

variable {codecs : Codecs} {entries : List BundleEntry}

theorem sortByPath_pairwise (entries : List BundleEntry) :
    (sortByPath entries).Pairwise fun left right => left.path ≤ right.path := by
  have h := @List.pairwise_mergeSort _ (fun left right : BundleEntry =>
    decide (left.path ≤ right.path)) ?_ ?_ entries
  · exact h.imp fun hle => of_decide_eq_true hle
  · intro a b c hab hbc
    exact decide_eq_true (le_trans (of_decide_eq_true hab) (of_decide_eq_true hbc))
  · intro a b
    rw [Bool.or_eq_true, decide_eq_true_eq, decide_eq_true_eq]
    exact le_total a.path b.path

/-- Entries in strict order are sorted. -/
theorem sortByPath_of_pairwise
    (h : entries.Pairwise fun left right => left.path < right.path) :
      sortByPath entries = entries :=
  List.mergeSort_of_pairwise (h.imp fun hlt => decide_eq_true (le_of_lt hlt))

/-- Distinct paths are in strict order once they are sorted. -/
theorem canonical_sortByPath
    (hvalid : ∀ e ∈ entries, isArchivePath e.path = true ∧ e.bytes.length < 2 ^ 64)
    (hdistinct : (entries.map BundleEntry.path).Nodup) : Canonical none (sortByPath entries) := by
  have hperm : (sortByPath entries).Perm entries := List.mergeSort_perm _ _
  refine canonical_of_pairwise (fun e he => hvalid e (hperm.mem_iff.mp he)) nofun ?_
  have hnodup : ((sortByPath entries).map BundleEntry.path).Nodup :=
    (hperm.map BundleEntry.path).nodup_iff.mpr hdistinct
  have hne : (sortByPath entries).Pairwise fun left right => left.path ≠ right.path :=
    List.pairwise_map.mp hnodup
  exact ((sortByPath_pairwise entries).and hne).imp fun ⟨hle, hne⟩ => lt_of_le_of_ne hle hne

theorem checkDistinct_ok {paths : List Bytes} :
    checkDistinct paths entries = .ok ()
      ↔ (entries.map BundleEntry.path).Nodup ∧ ∀ e ∈ entries, e.path ∉ paths := by
  induction entries generalizing paths with
  | nil => simp [checkDistinct]
  | cons e rest ih =>
    rw [checkDistinct, ensure_bind_eq_ok_iff, ih, List.map_cons, List.nodup_cons]
    constructor
    · rintro ⟨hnew, hnodup, hrest⟩
      refine ⟨⟨fun hmem => ?_, hnodup⟩, fun e' he' => ?_⟩
      · obtain ⟨e', he', hpath⟩ := List.mem_map.mp hmem
        exact hrest e' he' (hpath ▸ List.mem_cons_self)
      · rcases List.mem_cons.mp he' with rfl | he'
        · exact hnew
        · exact fun hmem => hrest e' he' (List.mem_cons_of_mem _ hmem)
    · rintro ⟨⟨hfirst, hnodup⟩, hall⟩
      obtain ⟨hnew, hrest⟩ := List.forall_mem_cons.mp hall
      refine ⟨hnew, hnodup, fun e' he' hmem => ?_⟩
      rcases List.mem_cons.mp hmem with hsame | hmem
      · exact hfirst (List.mem_map.mpr ⟨e', he', hsame⟩)
      · exact hrest e' he' hmem

/-- Writing to memory does not fail. -/
theorem writeEntry_vec (codecs : Codecs) {s : BundleStreamWriter Bytes} {e : BundleEntry}
    (haccepts : s.Accepts e.path) (hfits : e.bytes.length < 2 ^ 64) :
    s.writeEntry codecs e.path e.bytes
      = .ok ⟨s.writer ++ Bundle.entry codecs e, s.declared, s.written + 1, some e.path⟩ := by
  obtain ⟨hvalid, hcount, horder⟩ := haccepts
  have hlength := length_of_isArchivePath hvalid
  have hheader : s.writeEntryHeader e.path e.bytes.length (codecs.blake3 e.bytes)
      = .ok ⟨s.writer ++ Bundle.entryHeader e.path e.bytes.length (codecs.blake3 e.bytes),
        s.declared, s.written, s.previous⟩ := by
    refine Except.bind_eq_ok_iff.mpr ⟨(), ensure_eq_ok_iff.mpr hvalid, ?_⟩
    refine ensure_bind_eq_ok_iff.mpr ⟨hcount, ensure_bind_eq_ok_iff.mpr ⟨horder, ?_⟩⟩
    refine ensure_bind_eq_ok_iff.mpr ⟨hlength, ?_⟩
    simp [Write.writeAll, Bundle.entryHeader, Bind.bind, Except.bind, pure, Except.pure]
  refine ensure_bind_eq_ok_iff.mpr ⟨hfits, Except.bind_eq_ok_iff.mpr ⟨_, hheader, ?_⟩⟩
  simp [Write.writeAll, Bundle.entry, BundleStreamWriter.completeEntry, Bind.bind, Except.bind,
    pure, Except.pure]

theorem foldlM_vec (codecs : Codecs) {s : BundleStreamWriter Bytes}
    (hcanonical : Canonical s.previous entries)
      (hcount : s.written + entries.length ≤ s.declared.toNat) :
    ∃ previous, entries.foldlM (fun (writer : BundleStreamWriter Bytes) e =>
        writer.writeEntry codecs e.path e.bytes) s
      = .ok ⟨s.writer ++ entries.flatMap (Bundle.entry codecs), s.declared,
        s.written + entries.length, previous⟩ := by
  induction entries generalizing s with
  | nil => exact ⟨s.previous, by simp [pure, Except.pure]⟩
  | cons e rest ih =>
    obtain ⟨hvalid, horder, hfits, hrest⟩ := hcanonical
    rw [List.length_cons] at hcount
    have hopen : s.written ≠ s.declared.toNat := by omega
    have hentry := writeEntry_vec codecs ⟨hvalid, hopen, horder⟩ hfits
    have hcount' : s.written + 1 + rest.length ≤ s.declared.toNat := by omega
    obtain ⟨previous, hfold⟩ := ih (s := ⟨s.writer ++ Bundle.entry codecs e, s.declared,
      s.written + 1, some e.path⟩) hrest hcount'
    refine ⟨previous, List.foldlM_eq_ok_cons.mpr ⟨_, hentry, ?_⟩⟩
    rw [hfold, List.flatMap_cons, List.length_cons, List.append_assoc, Nat.add_assoc,
      Nat.add_comm 1]

/-- **The encoder** writes the bundle of the sorted entries. -/
theorem encodeBundle_ok
    (hvalid : ∀ e ∈ entries, isArchivePath e.path = true ∧ e.bytes.length < 2 ^ 64)
    (hdistinct : (entries.map BundleEntry.path).Nodup) (hcount : entries.length < 2 ^ 32) :
    encodeBundle codecs entries = .ok (bundleBytes codecs (sortByPath entries)) := by
  have hcanonical := canonical_sortByPath hvalid hdistinct
  have hlength : (sortByPath entries).length = entries.length := List.length_mergeSort _
  have hdistinct' : checkDistinct [] (sortByPath entries) = .ok () := by
    refine checkDistinct_ok.mpr ⟨?_, fun _ _ => List.not_mem_nil⟩
    exact List.pairwise_map.mpr (hcanonical.pairwise.imp fun hlt => ne_of_lt hlt)
  have hvalidated : entries.forM (fun e => validateArchivePath e.path) = .ok () := by
    clear hdistinct hcount hcanonical hlength hdistinct'
    induction entries with
    | nil => rfl
    | cons e rest ih =>
      obtain ⟨hfirst, hrest⟩ := List.forall_mem_cons.mp hvalid
      show (validateArchivePath e.path >>= fun _ => rest.forM fun e => validateArchivePath e.path)
        = .ok ()
      exact Except.bind_eq_ok_iff.mpr ⟨(), ensure_eq_ok_iff.mpr hfirst.1, ih hrest⟩
  have hdeclared : (UInt32.ofNat (sortByPath entries).length).toNat
      = (sortByPath entries).length := by
    rw [UInt32.toNat_ofNat', Nat.mod_eq_of_lt (by omega)]
  refine Except.bind_eq_ok_iff.mpr ⟨(), hvalidated, ?_⟩
  refine Except.bind_eq_ok_iff.mpr ⟨(), hdistinct', ?_⟩
  refine ensure_bind_eq_ok_iff.mpr ⟨by omega, ?_⟩
  have hnew : BundleStreamWriter.new ([] : Bytes) (UInt32.ofNat (sortByPath entries).length)
      = .ok ⟨Bundle.header (sortByPath entries).length,
        UInt32.ofNat (sortByPath entries).length, 0, none⟩ := by
    rw [BundleStreamWriter.new, hdeclared]
    rfl
  obtain ⟨previous, hfold⟩ := foldlM_vec codecs (s :=
    ⟨Bundle.header (sortByPath entries).length, UInt32.ofNat (sortByPath entries).length, 0, none⟩)
    hcanonical (by rw [hdeclared, Nat.zero_add])
  refine Except.bind_eq_ok_iff.mpr ⟨_, hnew, Except.bind_eq_ok_iff.mpr ⟨_, hfold, ?_⟩⟩
  refine ensure_bind_eq_ok_iff.mpr ⟨?_, rfl⟩
  show 0 + (sortByPath entries).length = _
  rw [hdeclared, Nat.zero_add]

theorem Canonical.encodeBundle (h : Canonical none entries) (hcount : entries.length < 2 ^ 32) :
    encodeBundle codecs entries = .ok (bundleBytes codecs entries) := by
  have hdistinct : (entries.map BundleEntry.path).Nodup :=
    List.pairwise_map.mpr (h.pairwise.imp fun hlt => ne_of_lt hlt)
  rw [encodeBundle_ok h.valid hdistinct hcount, sortByPath_of_pairwise h.pairwise]

end Encoding

end Rewind
