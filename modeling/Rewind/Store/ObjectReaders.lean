/-
The ways to read an object.

`ObjectReader` gives the payload piece by piece, `ObjectStore.get` as a whole, and
`ObjectStore.verify` only looks at it.  The file is static, and each read of it may return less
than was asked for.

* `get_eq` — `get` returns what `readObject` does, however the file is read;
* **`object_reads_agree`** — the readers and the envelope agree on every file.
-/
import Rewind.Lib.Chunks
import Rewind.Store.Queries

namespace Rewind

open Chunks

/-! ### The readers -/

/-- The errors of `ObjectReader::read`. -/
inductive ReadError where
  | grew
  | digestMismatch (expected actual : ObjectId)
  | ended
deriving DecidableEq

instance : ToString ReadError where
  toString
    | .grew => "object grew while it was read"
    | .digestMismatch expected actual =>
      s!"object digest mismatch: expected {expected}, computed {actual}"
    | .ended => "object ended before its declared length"

/-- An object reader; `hasher` are the bytes that have been hashed. -/
structure ObjectReader where
  file : Source UInt8
  id : ObjectId
  logicalSize : Nat
  remaining : Nat
  hasher : Bytes
  verified : Bool

section

variable (codecs : Codecs) (chunks : Nat → Nat)

/-- `ObjectReader::read` into a buffer of this size. -/
def ObjectReader.read (size : Nat) (reader : ObjectReader) :
    Except ReadError (Bytes × ObjectReader) :=
  if size = 0 then
    .ok ([], reader)
  else if reader.remaining = 0 then
    if reader.verified then
      .ok ([], reader)
    else
      let (extra, file) := reader.file.read chunks 1
      let actual := ObjectId.digestOf codecs reader.hasher
      if extra ≠ [] then
        .error .grew
      else if actual ≠ reader.id then
        .error (.digestMismatch reader.id actual)
      else
        .ok ([], { reader with file := file, verified := true })
  else
    let wanted := min reader.remaining size
    let (chunk, file) := reader.file.read chunks wanted
    if chunk = [] then
      .error .ended
    else
      .ok (chunk, { reader with
        file := file
        hasher := reader.hasher ++ chunk
        remaining := reader.remaining - chunk.length })

namespace ObjectStore

/-- What `open_reader` and `verify` do alike: the header of an open file, and the checks of its
length.  The result is the logical size. -/
def readHeader (maximum : UInt64) (content : Bytes) : StoreResult (Nat × Source UInt8) := do
  let (header, file) ← (readExact (Source.reader chunks) HEADER_LEN ⟨content, 0⟩).mapError
    fun _ => .io "read object envelope header"
  let logicalSize ← decodeHeader header
  ensure (logicalSize + HEADER_LEN < 2 ^ 64) .objectTooLarge
  ensure (content.length = logicalSize + HEADER_LEN)
    (.malformedObjectEnvelope "logical length does not match stored size")
  ensure (logicalSize ≤ maximum.toNat) (.objectReadLimit logicalSize maximum.toNat)
  return (logicalSize, file)

/-- `open_reader`, on the content of the object's file. -/
def openReader (id : ObjectId) (maximum : UInt64) (content : Bytes) : StoreResult ObjectReader := do
  let (logicalSize, file) ← readHeader chunks maximum content
  return ⟨file, id, logicalSize, logicalSize, [], false⟩

/-- `get`. -/
def get (id : ObjectId) (maximum : UInt64) (content : Bytes) : StoreResult Bytes := do
  let reader ← openReader chunks id maximum content
  let (bytes, reader) ← (readExact (ObjectReader.read codecs chunks) reader.logicalSize
    reader).mapError fun _ => .io "read object payload"
  let (extra, _) ← (ObjectReader.read codecs chunks 1 reader).mapError
    fun _ => .io "verify object payload"
  ensure (extra = [])
    (.invariant "bounded object reader returned bytes beyond its declared length")
  return bytes

/-- The buffer of `verify`. -/
def VERIFY_BUFFER : Nat := 64 * 1024

/-- The loop of `verify`: the bytes it has hashed. -/
def hashPayload (remaining : Nat) (hasher : Bytes) (file : Source UInt8) : StoreResult Bytes :=
  if _h : remaining = 0 then
    .ok hasher
  else
    let readLen := min remaining VERIFY_BUFFER
    match readExact (Source.reader chunks) readLen file with
    | .error _ => .error (.io "read object payload for verification")
    | .ok (buffer, file) => hashPayload (remaining - readLen) (hasher ++ buffer) file
termination_by remaining
decreasing_by
  have hbuffer : 0 < VERIFY_BUFFER := by decide
  omega

/-- `verify`. -/
def verify (id : ObjectId) (maximum : UInt64) (content : Bytes) : StoreResult StoredObject := do
  let (logicalSize, file) ← readHeader chunks maximum content
  let hasher ← hashPayload chunks logicalSize [] file
  let actual := ObjectId.digestOf codecs hasher
  ensure (actual = id) (.objectDigestMismatch id actual)
  return ⟨id, UInt64.ofNat logicalSize, UInt64.ofNat content.length, .none⟩

end ObjectStore

end

/-! ### The envelope -/

variable {codecs : Codecs} {chunks : Nat → Nat} {id : ObjectId} {maximum : UInt64}
  {content payload : Bytes}

/-- What opens is an envelope whose payload is short enough. -/
theorem openReader_eq_ok_iff {maximum size : Nat} (hfits : content.length < 2 ^ 64) :
    openReader maximum content = .ok (size, payload) ↔
      decode content = .ok payload ∧ size = payload.length ∧ size ≤ maximum := by
  constructor
  · intro h
    obtain ⟨hheader, h⟩ := ensure_bind_eq_ok_iff.mp h
    obtain ⟨logicalSize, hdecode, h⟩ := Except.bind_eq_ok_iff.mp h
    obtain ⟨-, h⟩ := ensure_bind_eq_ok_iff.mp h
    obtain ⟨hlength, h⟩ := ensure_bind_eq_ok_iff.mp h
    obtain ⟨hmaximum, h⟩ := ensure_bind_eq_ok_iff.mp h
    obtain ⟨rfl, rfl⟩ := Prod.mk.inj (Except.ok.inj h)
    have hmagic : (content.take HEADER_LEN).take 4 = MAGIC :=
      (ensure_bind_eq_ok_iff.mp hdecode).1.2
    rw [List.take_take] at hmagic
    have hpayload : (content.drop HEADER_LEN).length = logicalSize := by
      rw [List.length_drop]
      omega
    refine ⟨ensure_bind_eq_ok_iff.mpr ⟨⟨hheader, hmagic⟩, ?_⟩, hpayload.symm, hmaximum⟩
    exact Except.bind_eq_ok_iff.mpr
      ⟨logicalSize, hdecode, ensure_bind_eq_ok_iff.mpr ⟨hpayload, rfl⟩⟩
  · rintro ⟨h, hsize, hmaximum⟩
    obtain ⟨⟨hheader, -⟩, h⟩ := ensure_bind_eq_ok_iff.mp h
    obtain ⟨logicalSize, hdecode, h⟩ := Except.bind_eq_ok_iff.mp h
    obtain ⟨hpayload, h⟩ := ensure_bind_eq_ok_iff.mp h
    obtain rfl := Except.ok.inj h
    obtain rfl : size = logicalSize := hsize.trans hpayload
    rw [List.length_drop] at hpayload
    refine ensure_bind_eq_ok_iff.mpr ⟨hheader, Except.bind_eq_ok_iff.mpr ⟨size, hdecode, ?_⟩⟩
    refine ensure_bind_eq_ok_iff.mpr ⟨by omega, ensure_bind_eq_ok_iff.mpr ⟨by omega, ?_⟩⟩
    exact ensure_bind_eq_ok_iff.mpr ⟨hmaximum, rfl⟩

/-- A header is what `encode` writes in front of a payload of that size. -/
theorem header_of_decodeHeader {header : Bytes} {size : Nat} (h : decodeHeader header = .ok size) :
    header = MAGIC ++ [VERSION, COMPRESSION_NONE, 0, 0] ++ toLittleEndian 8 size := by
  obtain ⟨⟨hlength, hmagic⟩, h⟩ := ensure_bind_eq_ok_iff.mp h
  obtain ⟨hversion, h⟩ := ensure_bind_eq_ok_iff.mp h
  obtain ⟨hcompression, h⟩ := ensure_bind_eq_ok_iff.mp h
  obtain ⟨hreserved, h⟩ := ensure_bind_eq_ok_iff.mp h
  obtain rfl := Except.ok.inj h
  have hlength : header.length = 16 := hlength
  have hsize : ((header.drop 8).take 8).length = 8 := by
    rw [List.length_take, List.length_drop]
    omega
  have hvalue := toLittleEndian_ofLittleEndian ((header.drop 8).take 8)
  rw [hsize] at hvalue
  have htail : (header.drop 8).take 8 = header.drop 8 :=
    List.take_of_length_le (by rw [List.length_drop]; omega)
  have hfour : header.getD 4 0 = header[4] := by simp [List.getD_eq_getElem?_getD, hlength]
  have hfive : header.getD 5 0 = header[5] := by simp [List.getD_eq_getElem?_getD, hlength]
  rw [hfour] at hversion
  rw [hfive] at hcompression
  have hsix : (header.drop 6).take 2 ++ header.drop 8 = header.drop 6 := by
    have hdrop : (header.drop 6).drop 2 = header.drop 8 := List.drop_drop
    rw [← hdrop, List.take_append_drop]
  calc header = header.take 4 ++ header.drop 4 := (List.take_append_drop 4 header).symm
    _ = header.take 4 ++ header[4] :: header[5] :: header.drop 6 := by
      rw [List.drop_eq_getElem_cons (by omega), List.drop_eq_getElem_cons (by omega)]
    _ = header.take 4 ++ header[4] :: header[5] :: ((header.drop 6).take 2 ++ header.drop 8) := by
      rw [hsix]
    _ = _ := by
      rw [hmagic, hversion, hcompression, hreserved, hvalue, htail]
      rfl

/-- Only an envelope decodes. -/
theorem encode_of_decode (hfits : content.length < 2 ^ 64) (h : decode content = .ok payload) :
    encode payload = .ok content := by
  obtain ⟨⟨hlength, -⟩, h⟩ := ensure_bind_eq_ok_iff.mp h
  obtain ⟨size, hheader, h⟩ := Except.bind_eq_ok_iff.mp h
  obtain ⟨hsize, h⟩ := ensure_bind_eq_ok_iff.mp h
  obtain rfl := Except.ok.inj h
  have hcontent : content = content.take HEADER_LEN ++ content.drop HEADER_LEN :=
    (List.take_append_drop _ _).symm
  rw [List.length_drop] at hsize
  unfold encode
  simp only [ensure_bind_eq_ok_iff, Except.pure_eq_ok_iff, List.length_drop]
  refine ⟨by omega, by omega, ?_⟩
  rw [hsize, ← header_of_decodeHeader hheader, ← hcontent]

theorem exists_encode (hfits : HEADER_LEN + payload.length < 2 ^ 64) :
    ∃ envelope, encode payload = .ok envelope := by
  unfold encode
  simp only [ensure_bind_eq_ok_iff, Except.pure_eq_ok_iff]
  exact ⟨_, by omega, hfits, rfl⟩

/-! ### Reading the payload -/

/-- The state of a reader with `rest` of the payload ahead. -/
structure ObjectReader.Ahead (codecs : Codecs) (id : ObjectId) (payload : Bytes)
    (reader : ObjectReader) (rest : Bytes) : Prop where
  id_eq : reader.id = id
  hashed : reader.hasher ++ rest = payload
  file : reader.file.rest = rest
  remaining : reader.remaining = rest.length
  verified : reader.verified = true → ObjectId.digestOf codecs payload = id

theorem ObjectReader.feeds (codecs : Codecs) (chunks : Nat → Nat) (id : ObjectId)
    (payload : Bytes) :
    Feeds (ObjectReader.read codecs chunks) (ObjectReader.Ahead codecs id payload) where
  zero := by
    intro reader rest h
    exact ⟨reader, if_pos rfl, h⟩
  step := by
    intro reader rest size h hsize hne
    have hremaining : reader.remaining ≠ 0 := by
      rw [h.remaining]
      exact fun hzero => hne (List.eq_nil_of_length_eq_zero hzero)
    have hfile : reader.file.rest ≠ [] := by rwa [h.file]
    obtain ⟨hchunk, hlength, happend⟩ := Source.read_spec chunks (min reader.remaining size)
      reader.file (by omega) hfile
    rw [h.file] at happend
    refine ⟨(reader.file.read chunks (min reader.remaining size)).1,
      (reader.file.read chunks (min reader.remaining size)).2.rest,
      { reader with
        file := (reader.file.read chunks (min reader.remaining size)).2
        hasher := reader.hasher ++ (reader.file.read chunks (min reader.remaining size)).1
        remaining := reader.remaining
          - (reader.file.read chunks (min reader.remaining size)).1.length },
      ?_, hchunk, by omega, happend, ⟨h.id_eq, ?_, rfl, ?_, h.verified⟩⟩
    · rw [ObjectReader.read, if_neg (Nat.ne_of_gt hsize), if_neg hremaining]
      exact if_neg hchunk
    · show _ ++ _ ++ _ = payload
      rw [List.append_assoc, happend, h.hashed]
    · show reader.remaining - _ = _
      have hsum := congrArg List.length happend
      rw [List.length_append] at hsum
      have hleft := h.remaining
      omega

/-- Behind the payload a reader looks at the digest. -/
theorem ObjectReader.read_end (chunks : Nat → Nat) {reader : ObjectReader} {size : Nat}
    (h : ObjectReader.Ahead codecs id payload reader []) (hsize : 0 < size) :
    (ObjectId.digestOf codecs payload = id →
      ∃ reader', ObjectReader.read codecs chunks size reader = .ok ([], reader'))
      ∧ (ObjectId.digestOf codecs payload ≠ id →
        ∃ error, ObjectReader.read codecs chunks size reader = .error error) := by
  have hremaining : reader.remaining = 0 := h.remaining
  have hhashed : reader.hasher = payload := by simpa using h.hashed
  have hextra : (reader.file.read chunks 1).1 = [] := by
    rw [Source.read, h.file, List.take_nil]
  rw [ObjectReader.read, if_neg (Nat.ne_of_gt hsize), if_pos hremaining]
  by_cases hverified : reader.verified = true
  · rw [if_pos hverified]
    exact ⟨fun _ => ⟨reader, rfl⟩, fun hne => absurd (h.verified hverified) hne⟩
  · rw [if_neg hverified]
    show (_ → ∃ reader', (if (reader.file.read chunks 1).1 ≠ [] then
          Except.error ReadError.grew
        else if ObjectId.digestOf codecs reader.hasher ≠ reader.id then _ else _) = _)
      ∧ (_ → ∃ error, (if (reader.file.read chunks 1).1 ≠ [] then
          Except.error ReadError.grew
        else if ObjectId.digestOf codecs reader.hasher ≠ reader.id then _ else _) = _)
    rw [if_neg (not_not.mpr hextra), hhashed, h.id_eq]
    exact ⟨fun heq => ⟨_, if_neg (not_not.mpr heq)⟩, fun hne => ⟨_, if_pos hne⟩⟩

namespace ObjectStore

/-! ### The whole reads -/

/-- The header of an open file, as `readObject` sees it. -/
theorem readHeader_agree (chunks : Nat → Nat) (maximum : UInt64) (content : Bytes) :
    Except.Agree (fun opened expected => opened.1 = expected.1 ∧ opened.2.rest = expected.2)
      (readHeader chunks maximum content) (Rewind.openReader maximum.toNat content) := by
  unfold readHeader Rewind.openReader
  by_cases hlength : HEADER_LEN ≤ content.length
  · obtain ⟨file, hread, hfile⟩ := (Source.feeds (α := UInt8) chunks).readExact_ok
      (s := ⟨content, 0⟩) rfl hlength
    rw [hread, ensure, if_pos hlength]
    show Except.Agree _ (decodeHeader (content.take HEADER_LEN) >>= _)
      (decodeHeader (content.take HEADER_LEN) >>= _)
    refine Except.Agree.bind_same fun size _ => Except.Agree.bind_same fun _ _ => ?_
    refine Except.Agree.bind_same fun _ _ => Except.Agree.bind_same fun _ _ => ?_
    exact .ok ⟨rfl, hfile⟩
  · have hshort : readExact (Source.reader chunks) HEADER_LEN ⟨content, 0⟩
        = .error .unexpectedEof :=
      (Source.feeds chunks).readExact_short rfl (fun hs _ => Source.ends chunks hs)
        (Nat.not_le.mp hlength)
    rw [hshort, ensure, if_neg hlength]
    exact .error _

/-- The reader that `open_reader` returns has the whole payload ahead. -/
theorem openReader_agree (codecs : Codecs) (chunks : Nat → Nat) (id : ObjectId) (maximum : UInt64)
    (content : Bytes) :
    Except.Agree (fun reader opened => reader.logicalSize = opened.1
        ∧ (opened.1 = opened.2.length → reader.Ahead codecs id opened.2 opened.2))
      (openReader chunks id maximum content) (Rewind.openReader maximum.toNat content) := by
  have h := readHeader_agree chunks maximum content
  have hbind := h.bind (f := fun p => (return ⟨p.2, id, p.1, p.1, [], false⟩ :
    StoreResult ObjectReader))
    (g := pure) (S := fun reader opened => reader.logicalSize = opened.1
      ∧ (opened.1 = opened.2.length → reader.Ahead codecs id opened.2 opened.2)) ?_
  · rwa [bind_pure] at hbind
  · rintro ⟨size, file⟩ ⟨size', payload⟩ ⟨rfl, rfl⟩
    refine .ok ⟨rfl, fun hsize => ⟨rfl, List.nil_append _, rfl, hsize, ?_⟩⟩
    exact fun hverified => absurd hverified (by simp)

/-- What is behind the header is as long as the header says. -/
theorem size_of_openReader {maximum size : Nat}
    (h : Rewind.openReader maximum content = .ok (size, payload)) : size = payload.length := by
  obtain ⟨-, h⟩ := ensure_bind_eq_ok_iff.mp h
  obtain ⟨logicalSize, -, h⟩ := Except.bind_eq_ok_iff.mp h
  obtain ⟨-, h⟩ := ensure_bind_eq_ok_iff.mp h
  obtain ⟨hlength, h⟩ := ensure_bind_eq_ok_iff.mp h
  obtain ⟨-, h⟩ := ensure_bind_eq_ok_iff.mp h
  obtain ⟨rfl, rfl⟩ := Prod.mk.inj (Except.ok.inj h)
  rw [List.length_drop]
  omega

theorem exists_openReader (codecs : Codecs) (chunks : Nat → Nat) (id : ObjectId) {size : Nat}
    (h : Rewind.openReader maximum.toNat content = .ok (size, payload)) :
    ∃ reader, openReader chunks id maximum content = .ok reader
      ∧ reader.logicalSize = payload.length ∧ reader.Ahead codecs id payload payload := by
  have hagree := openReader_agree codecs chunks id maximum content
  rw [h] at hagree
  obtain ⟨reader, hreader, hsize, hahead⟩ := hagree.ok_of_right
  have hpayload := size_of_openReader h
  exact ⟨reader, hreader, hsize.trans hpayload, hahead hpayload⟩

theorem readObject_eq (codecs : Codecs) (id : ObjectId) (maximum : Nat) (content : Bytes) :
    readObject codecs id maximum content = do
      let (_, payload) ← Rewind.openReader maximum content
      ensure (ObjectId.digestOf codecs payload = id) (.io "verify object payload")
      return payload := by
  simp only [readObject, Rewind.openReader, bind_assoc, pure_bind]

/-- `get` returns what `readObject` does, errors included, however the file is read. -/
theorem get_eq (codecs : Codecs) (chunks : Nat → Nat) (id : ObjectId) (maximum : UInt64)
    (content : Bytes) :
    get codecs chunks id maximum content = readObject codecs id maximum.toNat content := by
  rw [readObject_eq, get]
  rcases hopened : Rewind.openReader maximum.toNat content with error | ⟨size, payload⟩
  · have hagree := openReader_agree codecs chunks id maximum content
    rw [hopened] at hagree
    rw [hagree.error_of_right]
    rfl
  · obtain ⟨reader, hreader, hsize, hahead⟩ := exists_openReader codecs chunks id hopened
    obtain ⟨reader', hread, hahead'⟩ := (ObjectReader.feeds codecs chunks id payload).readExact_ok
      hahead (Nat.le_refl _)
    rw [List.take_length] at hread
    rw [List.drop_length] at hahead'
    obtain ⟨hgood, hbad⟩ := ObjectReader.read_end chunks hahead' Nat.one_pos
    rw [hreader]
    show ((readExact (ObjectReader.read codecs chunks) reader.logicalSize reader).mapError _ >>= _)
      = _
    rw [hsize, hread]
    show ((ObjectReader.read codecs chunks 1 reader').mapError _ >>= _) = (ensure _ _ >>= _)
    by_cases hdigest : ObjectId.digestOf codecs payload = id
    · obtain ⟨reader'', hend⟩ := hgood hdigest
      rw [hend, ensure, if_pos hdigest]
      rfl
    · obtain ⟨error, hend⟩ := hbad hdigest
      rw [hend, ensure, if_neg hdigest]
      rfl

/-- The loop of `verify` hashes the whole payload. -/
theorem hashPayload_eq (chunks : Nat → Nat) {remaining : Nat} {file : Source UInt8}
    (hasher : Bytes) (h : remaining = file.rest.length) :
    hashPayload chunks remaining hasher file = .ok (hasher ++ file.rest) := by
  induction remaining using Nat.strongRecOn generalizing hasher file with
  | _ remaining ih =>
    rw [hashPayload]
    by_cases hzero : remaining = 0
    · rw [dif_pos hzero, List.eq_nil_of_length_eq_zero (h.symm.trans hzero), List.append_nil]
    · have hbuffer : 0 < VERIFY_BUFFER := by decide
      obtain ⟨file', hread, hfile'⟩ := (Source.feeds chunks).readExact_ok rfl
        (show min remaining VERIFY_BUFFER ≤ file.rest.length by omega)
      have hleft : remaining - min remaining VERIFY_BUFFER = file'.rest.length := by
        rw [hfile', List.length_drop, h]
      rw [dif_neg hzero]
      show (match readExact (Source.reader chunks) (min remaining VERIFY_BUFFER) file with
        | .error _ => Except.error _
        | .ok (buffer, file) => hashPayload chunks (remaining - min remaining VERIFY_BUFFER)
            (hasher ++ buffer) file) = _
      rw [hread]
      show hashPayload chunks (remaining - min remaining VERIFY_BUFFER) _ file' = _
      rw [ih _ (by omega) _ hleft, hfile', List.append_assoc, List.take_append_drop]

/-- `verify` accepts what opens and has the digest. -/
theorem verify_eq_ok_iff (codecs : Codecs) (chunks : Nat → Nat) (id : ObjectId) (maximum : UInt64)
    (content : Bytes) (stored : StoredObject) :
    verify codecs chunks id maximum content = .ok stored ↔
      ∃ size payload, Rewind.openReader maximum.toNat content = .ok (size, payload)
        ∧ ObjectId.digestOf codecs payload = id
        ∧ stored = ⟨id, UInt64.ofNat size, UInt64.ofNat content.length, .none⟩ := by
  have hagree := readHeader_agree chunks maximum content
  unfold verify
  rcases hopened : Rewind.openReader maximum.toNat content with error | ⟨size, payload⟩
  · rw [hopened] at hagree
    rw [hagree.error_of_right]
    exact iff_of_false (fun h => nomatch h) fun ⟨_, _, h, _⟩ => nomatch h
  · rw [hopened] at hagree
    obtain ⟨⟨size, file⟩, hheader, rfl, rfl⟩ := hagree.ok_of_right
    rw [hheader]
    show (hashPayload chunks size [] file >>= _) = _ ↔ _
    rw [hashPayload_eq chunks [] (size_of_openReader hopened), List.nil_append]
    show (ensure (ObjectId.digestOf codecs file.rest = id) _ >>= _) = _ ↔ _
    rw [ensure_bind_eq_ok_iff]
    constructor
    · rintro ⟨hdigest, hstored⟩
      exact ⟨size, file.rest, rfl, hdigest, (Except.ok.inj hstored).symm⟩
    · rintro ⟨_, _, hsame, hdigest, rfl⟩
      obtain ⟨rfl, rfl⟩ := Prod.mk.inj (Except.ok.inj hsame)
      exact ⟨hdigest, rfl⟩

end ObjectStore

/-! ### The agreement -/

/-- The file is the envelope of a payload that has the digest and is short enough. -/
structure EnvelopeOf (codecs : Codecs) (id : ObjectId) (maximum : UInt64)
    (content payload : Bytes) : Prop where
  decoded : decode content = .ok payload
  digest : ObjectId.digestOf codecs payload = id
  short : payload.length ≤ maximum.toNat

/-- Reads of these sizes, from an open reader. -/
def ObjectReader.reads (codecs : Codecs) (chunks : Nat → Nat) (reader : ObjectReader)
    (sizes : List Nat) : Bytes × Ending ReadError :=
  drain (ObjectReader.read codecs chunks) sizes reader

theorem envelopeOf_iff (hfits : content.length < 2 ^ 64) :
    EnvelopeOf codecs id maximum content payload ↔
      Rewind.openReader maximum.toNat content = .ok (payload.length, payload)
        ∧ ObjectId.digestOf codecs payload = id := by
  rw [openReader_eq_ok_iff hfits]
  constructor
  · rintro ⟨hdecoded, hdigest, hshort⟩
    exact ⟨⟨hdecoded, rfl, hshort⟩, hdigest⟩
  · rintro ⟨⟨hdecoded, -, hshort⟩, hdigest⟩
    exact ⟨hdecoded, hdigest, hshort⟩

/-- What a reader of an object returns, to reads of any sizes. -/
theorem reads_of_envelopeOf (hfits : content.length < 2 ^ 64) (chunks : Nat → Nat)
    (h : EnvelopeOf codecs id maximum content payload) :
    ∃ reader, ObjectStore.openReader chunks id maximum content = .ok reader
      ∧ reader.logicalSize = payload.length
      ∧ ∀ sizes, (reader.reads codecs chunks sizes = (payload, .finished)
          ∨ (reader.reads codecs chunks sizes).2 = .unfinished
            ∧ (reader.reads codecs chunks sizes).1 <+: payload)
        ∧ (payload.length < asking sizes →
          reader.reads codecs chunks sizes = (payload, .finished)) := by
  obtain ⟨hopened, hdigest⟩ := (envelopeOf_iff hfits).mp h
  obtain ⟨reader, hreader, hsize, hahead⟩ :=
    ObjectStore.exists_openReader codecs chunks id hopened
  refine ⟨reader, hreader, hsize, fun sizes => ?_⟩
  exact (ObjectReader.feeds codecs chunks id payload).drain_ends
    (fun hend hpos => (ObjectReader.read_end chunks hend hpos).1 hdigest) sizes hahead

/-- A reader that has come to its end has returned the object. -/
theorem envelopeOf_of_reads (hfits : content.length < 2 ^ 64) {reader : ObjectReader}
    (hreader : ObjectStore.openReader chunks id maximum content = .ok reader) {sizes : List Nat}
    (hreads : reader.reads codecs chunks sizes = (payload, .finished)) :
    EnvelopeOf codecs id maximum content payload := by
  rcases hopened : Rewind.openReader maximum.toNat content with error | ⟨size, payload'⟩
  · have hagree := ObjectStore.openReader_agree codecs chunks id maximum content
    rw [hopened] at hagree
    rw [hagree.error_of_right] at hreader
    exact nomatch hreader
  · obtain ⟨reader', hreader', -, hahead⟩ :=
      ObjectStore.exists_openReader codecs chunks id hopened
    obtain rfl : reader = reader' := Except.ok.inj (hreader.symm.trans hreader')
    obtain rfl := ObjectStore.size_of_openReader hopened
    have hfeeds := ObjectReader.feeds codecs chunks id payload'
    by_cases hdigest : ObjectId.digestOf codecs payload' = id
    · have hends := (hfeeds.drain_ends
        (fun hend hpos => (ObjectReader.read_end chunks hend hpos).1 hdigest) sizes hahead).1
      rcases hends with hfinished | ⟨hunfinished, -⟩
      · obtain ⟨rfl, -⟩ := Prod.mk.inj (hreads.symm.trans hfinished)
        exact (envelopeOf_iff hfits).mpr ⟨hopened, hdigest⟩
      · exact nomatch (congrArg Prod.snd hreads).symm.trans hunfinished
    · -- Behind the last byte comes the error of the digest.
      exact absurd (congrArg Prod.snd hreads) (hfeeds.drain_fails
        (fun hend hpos => (ObjectReader.read_end chunks hend hpos).2 hdigest) sizes hahead)

/-- On every file, and however it is read, the three ways to read an object agree with the
envelope: `get` returns a payload, `verify` its length, and the open reader the payload and then
its end, exactly when the file decodes to this payload, which has the digest and is no longer than
asked for.  What is encoded decodes, and only that does. -/
theorem object_reads_agree (codecs : Codecs) (chunks : Nat → Nat) (id : ObjectId)
    (maximum : UInt64) (content : Bytes) (hfits : content.length < 2 ^ 64) :
    (∀ payload, ObjectStore.get codecs chunks id maximum content = .ok payload ↔
        EnvelopeOf codecs id maximum content payload)
      ∧ (∀ size : UInt64, (∃ stored, ObjectStore.verify codecs chunks id maximum content
        = .ok stored
          ∧ stored.logicalSize = size) ↔
        ∃ payload, EnvelopeOf codecs id maximum content payload ∧ payload.length = size.toNat)
      ∧ (∀ payload, (∃ reader, ObjectStore.openReader chunks id maximum content = .ok reader
          ∧ ∀ sizes, payload.length < asking sizes →
            reader.reads codecs chunks sizes = (payload, .finished)) ↔
        EnvelopeOf codecs id maximum content payload)
      ∧ (∀ reader, ObjectStore.openReader chunks id maximum content = .ok reader →
        ∀ payload sizes, (reader.reads codecs chunks sizes = (payload, .finished) →
            EnvelopeOf codecs id maximum content payload)
          ∧ (EnvelopeOf codecs id maximum content payload →
            reader.reads codecs chunks sizes = (payload, .finished)
              ∨ (reader.reads codecs chunks sizes).2 = .unfinished
                ∧ (reader.reads codecs chunks sizes).1 <+: payload))
      ∧ (∀ payload, HEADER_LEN + payload.length < 2 ^ 64 →
        ∃ envelope, encode payload = .ok envelope ∧ decode envelope = .ok payload)
      ∧ ∀ payload, decode content = .ok payload → encode payload = .ok content := by
  refine ⟨fun payload => ?_, fun size => ?_, fun payload => ?_, fun reader hreader payload sizes =>
    ⟨envelopeOf_of_reads hfits hreader, fun h => ?_⟩, fun payload hshort => ?_,
    fun payload => encode_of_decode hfits⟩
  · rw [ObjectStore.get_eq, ObjectStore.readObject_eq, envelopeOf_iff hfits]
    constructor
    · intro h
      obtain ⟨⟨size, payload'⟩, hopened, h⟩ := Except.bind_eq_ok_iff.mp h
      obtain ⟨hdigest, h⟩ := ensure_bind_eq_ok_iff.mp h
      obtain rfl := Except.ok.inj h
      obtain rfl := ObjectStore.size_of_openReader hopened
      exact ⟨hopened, hdigest⟩
    · rintro ⟨hopened, hdigest⟩
      exact Except.bind_eq_ok_iff.mpr ⟨_, hopened, ensure_bind_eq_ok_iff.mpr ⟨hdigest, rfl⟩⟩
  · simp only [ObjectStore.verify_eq_ok_iff, envelopeOf_iff hfits]
    constructor
    · rintro ⟨_, ⟨length, payload, hopened, hdigest, rfl⟩, rfl⟩
      obtain rfl := ObjectStore.size_of_openReader hopened
      have hshort := ((openReader_eq_ok_iff hfits).mp hopened).2.2
      have hlt := maximum.toNat_lt
      have hsize : UInt64.size = 2 ^ 64 := rfl
      refine ⟨payload, ⟨hopened, hdigest⟩, ?_⟩
      rw [UInt64.toNat_ofNat_of_lt' (by omega)]
    · rintro ⟨payload, ⟨hopened, hdigest⟩, hsize⟩
      refine ⟨_, ⟨_, payload, hopened, hdigest, rfl⟩, ?_⟩
      rw [hsize, UInt64.ofNat_toNat]
  · constructor
    · rintro ⟨reader, hreader, hreads⟩
      refine envelopeOf_of_reads hfits hreader (hreads (List.replicate (payload.length + 1) 1) ?_)
      simp [asking]
    · intro h
      obtain ⟨reader, hreader, -, hreads⟩ := reads_of_envelopeOf hfits chunks h
      exact ⟨reader, hreader, fun sizes => (hreads sizes).2⟩
  · obtain ⟨reader', hreader', -, hreads⟩ := reads_of_envelopeOf hfits chunks h
    obtain rfl : reader = reader' := Except.ok.inj (hreader.symm.trans hreader')
    exact (hreads sizes).1
  · obtain ⟨envelope, henvelope⟩ := exists_encode hshort
    exact ⟨envelope, henvelope, decode_encode henvelope⟩

/-- The recorded chunk, read one byte at a time. -/
theorem object_reads_agree_sample :
    ∃ envelope, encode Sample.output = .ok envelope
      ∧ ObjectStore.get Sample.codecs (fun _ => 1) Sample.outputId 100 envelope
        = .ok Sample.output := by
  have hshort : HEADER_LEN + Sample.output.length < 2 ^ 64 := by decide
  obtain ⟨envelope, henvelope⟩ := exists_encode hshort
  have hlength := length_of_encode henvelope
  have hfits : envelope.length < 2 ^ 64 := by
    rw [hlength]
    decide
  have hagree := object_reads_agree Sample.codecs (fun _ => 1) Sample.outputId 100 envelope hfits
  refine ⟨envelope, henvelope, (hagree.1 Sample.output).mpr
    ⟨decode_encode henvelope, ?_, by decide⟩⟩
  decide

end Rewind
