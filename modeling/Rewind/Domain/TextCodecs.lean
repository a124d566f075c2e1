/-
The texts of identifiers and times.

Digests, process identifiers, event sequences, timestamps and durations are displayed as text and
parsed from text.  Each of them has one text: what is displayed is parsed as the value, and nothing
else is.

* `Digest.fromStr_eq_ok_iff` and its like — the texts that are accepted;
* `Digest.hex_lt_iff` — digests and their texts have one order;
* `codecs_canonical` — all of this.
-/
import Rewind.Domain.Ids
import Rewind.Lib.Decimal
import Rewind.Lib.Fallible

namespace Rewind

/-! ### Digests -/

inductive DigestIdParseError where
  | invalidLength (actual : Nat)
  | invalidCharacter (index : Nat)
deriving DecidableEq

instance : ToString DigestIdParseError where
  toString
    | .invalidLength actual =>
      s!"digest IDs must contain exactly 64 hexadecimal digits (found {actual})"
    | .invalidCharacter index =>
      s!"digest ID contains a non-lowercase-hex character at byte {index}"

/-- `hex_nibble` of the byte at `index`. -/
def nibbleAt (index : Nat) (b : UInt8) : Except DigestIdParseError UInt8 :=
  (hexNibble b).elim (.error (.invalidCharacter index)) .ok

/-- The loop of `parse_digest`, over the pairs from the one numbered `index` on. -/
def parsePairs : Nat → Bytes → Except DigestIdParseError Bytes
  | index, high :: low :: rest => do
    let high ← nibbleAt (index * 2) high
    let low ← nibbleAt (index * 2 + 1) low
    let bytes ← parsePairs (index + 1) rest
    return (high <<< 4 ||| low) :: bytes
  | _, _ => .ok []

theorem nibbleAt_eq_ok_iff {index : Nat} {b n : UInt8} :
    nibbleAt index b = .ok n ↔ hexNibble b = some n :=
  Option.elim_error_eq_ok_iff

/-- The loop reads what `ofHex` reads. -/
theorem parsePairs_eq_ok_iff {text bytes : Bytes} (heven : text.length % 2 = 0) (index : Nat) :
    parsePairs index text = .ok bytes ↔ ofHex text = some bytes := by
  induction text using ofHex.induct generalizing index bytes with
  | case1 => simp [parsePairs, ofHex]
  | case2 b => simp at heven
  | case3 high low rest ih =>
    have hrest : rest.length % 2 = 0 := by
      rw [List.length_cons, List.length_cons] at heven
      omega
    rw [parsePairs, ofHex]
    simp only [Except.bind_eq_ok_iff, nibbleAt_eq_ok_iff, Option.bind_eq_bind,
      Option.bind_eq_some_iff, Except.pure_eq_ok_iff, Option.pure_def, Option.some.injEq, ih hrest]

/-- The 32 bytes that the loop reads from 64 digits. -/
theorem length_of_ofHex {text bytes : Bytes} (h : ofHex text = some bytes) :
    text.length = 2 * bytes.length := by
  rw [← toHex_of_ofHex h, length_toHex]

/-- `parse_digest`. -/
def Digest.fromStr (input : Bytes) : Except DigestIdParseError Digest :=
  if hlength : input.length ≠ 64 then
    .error (.invalidLength input.length)
  else
    match hbytes : parsePairs 0 input with
    | .error error => .error error
    | .ok bytes => .ok ⟨bytes, by
      have heven : input.length % 2 = 0 := by omega
      have hread := length_of_ofHex ((parsePairs_eq_ok_iff heven 0).mp hbytes)
      omega⟩

/-- The digits of a digest are the text that is parsed as it. -/
theorem Digest.fromStr_eq_ok_iff {input : Bytes} {d : Digest} :
    Digest.fromStr input = .ok d ↔ d.hex = input := by
  constructor
  · intro h
    rw [Digest.fromStr] at h
    by_cases hlength : input.length ≠ 64
    · rw [dif_pos hlength] at h
      exact absurd h (by simp)
    · rw [dif_neg hlength] at h
      have heven : input.length % 2 = 0 := by omega
      split at h
      · exact absurd h (by simp)
      · rename_i bytes hbytes
        rw [← Except.ok.inj h]
        exact toHex_of_ofHex ((parsePairs_eq_ok_iff heven 0).mp hbytes)
  · rintro rfl
    have hlength := d.length_hex
    have heven : d.hex.length % 2 = 0 := by omega
    have hread : parsePairs 0 d.hex = .ok d.bytes :=
      (parsePairs_eq_ok_iff heven 0).mpr (ofHex_toHex d.bytes)
    rw [Digest.fromStr, dif_neg (not_not.mpr hlength)]
    split
    · rename_i error herror
      rw [hread] at herror
      exact absurd herror (by simp)
    · rename_i bytes hbytes
      obtain rfl : d.bytes = bytes := Except.ok.inj (hread.symm.trans hbytes)
      rfl

/-- `SnapshotId::from_str`. -/
def SnapshotId.fromStr (input : Bytes) : Except DigestIdParseError SnapshotId :=
  (Digest.fromStr input).map (⟨·⟩)

/-- `ObjectId::from_str`. -/
def ObjectId.fromStr (input : Bytes) : Except DigestIdParseError ObjectId :=
  (Digest.fromStr input).map (⟨·⟩)

theorem SnapshotId.fromStr_eq_ok_iff {input : Bytes} {id : SnapshotId} :
    SnapshotId.fromStr input = .ok id ↔ id.digest.hex = input := by
  rw [← Digest.fromStr_eq_ok_iff, SnapshotId.fromStr]
  obtain ⟨digest⟩ := id
  cases Digest.fromStr input with
  | error error => simp [Except.map]
  | ok d => simp [Except.map]

theorem ObjectId.fromStr_eq_ok_iff {input : Bytes} {id : ObjectId} :
    ObjectId.fromStr input = .ok id ↔ id.digest.hex = input := by
  rw [← Digest.fromStr_eq_ok_iff, ObjectId.fromStr]
  obtain ⟨digest⟩ := id
  cases Digest.fromStr input with
  | error error => simp [Except.map]
  | ok d => simp [Except.map]

/-- Digests are ordered as their texts are. -/
theorem Digest.hex_lt_iff {d d' : Digest} : d.hex < d'.hex ↔ d < d' := toHex_lt_iff d.bytes d'.bytes

/-! ### Nonzero integers -/

inductive IntegerIdParseError where
  | nonCanonical
  | zero
  | outOfRange
deriving DecidableEq

instance : ToString IntegerIdParseError where
  toString
    | .nonCanonical => "integer IDs must use canonical unsigned decimal text"
    | .zero => "integer IDs must be greater than zero"
    | .outOfRange => "integer ID is outside the supported range"

/-- `validate_decimal`. -/
def validateDecimal (input : Bytes) : Except IntegerIdParseError Unit :=
  if input = [] ∨ (∃ b ∈ input, isAsciiDigit b = false)
      ∨ (input.length > 1 ∧ input.head? = some 48) then
    .error .nonCanonical
  else
    .ok ()

/-- Validated digits in range are the text of their value. -/
theorem validateDecimal_parse_iff {high : Nat} {value : Int} {input : Bytes} :
    (validateDecimal input = .ok () ∧ parseInteger 0 high input = some value)
      ↔ ∃ n : Nat, value = n ∧ decimal n = input ∧ n ≤ high := by
  have hzero : (0 : Int) ≤ high := Int.natCast_nonneg high
  constructor
  · rintro ⟨hvalid, hparse⟩
    rw [validateDecimal] at hvalid
    split at hvalid
    · exact absurd hvalid (by simp)
    · rename_i hnot
      simp only [not_or, not_exists, not_and] at hnot
      obtain ⟨hne, hall, hhead⟩ := hnot
      have hdigits : ∀ b ∈ input, isAsciiDigit b = true :=
        fun b hb => Bool.of_not_eq_false (hall b hb)
      rw [parseInteger_of_digits hne hdigits,
        parseDigits_eq_some_iff (le_refl 0) hzero (Or.inl rfl)] at hparse
      obtain ⟨-, hvalue, -, hrange⟩ := hparse
      exact ⟨digitsValue input, by omega, decimal_digitsValue hne hdigits hhead, by omega⟩
  · rintro ⟨n, rfl, rfl, hrange⟩
    have hall := isAsciiDigit_decimal n
    refine ⟨?_, ?_⟩
    · rw [validateDecimal, if_neg]
      rintro (hempty | ⟨b, hb, hnot⟩ | ⟨hlong, hhead⟩)
      · exact decimal_ne_nil n hempty
      · rw [hall b hb] at hnot
        exact absurd hnot (by simp)
      · by_cases hpos : 0 < n
        · exact head?_decimal hpos hhead
        · obtain rfl : n = 0 := by omega
          exact absurd hlong (by decide)
    · rw [parseInteger_of_digits (decimal_ne_nil n) hall,
        parseDigits_eq_some_iff (le_refl 0) hzero (Or.inl rfl), digitsValue_decimal]
      exact ⟨hall, by omega, by omega, by omega⟩

/-- The nonzero integer that a text is parsed as, up to `high`; `new` is the constructor of the
type. -/
def parseNonZero {α : Type} (high : Nat) (new : Nat → Option α) (input : Bytes) :
    Except IntegerIdParseError α := do
  validateDecimal input
  let value ← (parseInteger 0 high input).elim (.error .outOfRange) .ok
  (new value.toNat).elim (.error .zero) .ok

/-- Parsing is the inverse of display for a type of nonzero integers. -/
theorem parseNonZero_eq_ok_iff {α : Type} {high : Nat} {new : Nat → Option α} (get : α → Nat)
    (hget : ∀ a, get a ≤ high) (hnew : ∀ n a, n ≤ high → (new n = some a ↔ get a = n))
    {input : Bytes} {a : α} : parseNonZero high new input = .ok a ↔ decimal (get a) = input := by
  have hinverse : parseNonZero high new input = .ok a
      ↔ ∃ value, (validateDecimal input = .ok () ∧ parseInteger 0 high input = some value)
        ∧ new value.toNat = some a := by
    simp only [parseNonZero, Except.bind_eq_ok_iff, Option.elim_error_eq_ok_iff]
    constructor
    · rintro ⟨_, hvalid, value, hparse, ha⟩
      exact ⟨value, ⟨hvalid, hparse⟩, ha⟩
    · rintro ⟨value, ⟨hvalid, hparse⟩, ha⟩
      exact ⟨(), hvalid, value, hparse, ha⟩
  rw [hinverse]
  constructor
  · rintro ⟨value, ⟨hvalid, hparse⟩, ha⟩
    obtain ⟨n, rfl, htext, hrange⟩ := validateDecimal_parse_iff.mp ⟨hvalid, hparse⟩
    rw [Int.toNat_natCast] at ha
    rw [(hnew n a hrange).mp ha, htext]
  · rintro rfl
    refine ⟨get a, validateDecimal_parse_iff.mpr ⟨get a, rfl, rfl, hget a⟩, ?_⟩
    rw [Int.toNat_natCast]
    exact (hnew (get a) a (hget a)).mpr rfl

/-- `ProcessId::new`. -/
def ProcessId.new (value : Nat) : Option ProcessId :=
  if h : UInt32.ofNat value ≠ 0 then some ⟨UInt32.ofNat value, h⟩ else none

/-- `Display` of a process identifier. -/
def ProcessId.display (pid : ProcessId) : Bytes := decimal pid.get.toNat

/-- `ProcessId::from_str`. -/
def ProcessId.fromStr (input : Bytes) : Except IntegerIdParseError ProcessId :=
  parseNonZero (2 ^ 32 - 1) ProcessId.new input

/-- `Display` of an event sequence. -/
def EventSequence.display (sequence : EventSequence) : Bytes := decimal sequence.get

/-- `EventSequence::from_str`. -/
def EventSequence.fromStr (input : Bytes) : Except IntegerIdParseError EventSequence :=
  parseNonZero (2 ^ 64 - 1) (fun value => EventSequence.new (UInt64.ofNat value)) input

theorem ProcessId.fromStr_eq_ok_iff {input : Bytes} {pid : ProcessId} :
    ProcessId.fromStr input = .ok pid ↔ pid.display = input := by
  refine parseNonZero_eq_ok_iff (fun pid : ProcessId => pid.get.toNat) ?_ ?_
  · intro pid
    have hlt := pid.get.toNat_lt
    omega
  · intro n pid hn
    have hvalue : (UInt32.ofNat n).toNat = n := by
      rw [UInt32.toNat_ofNat', Nat.mod_eq_of_lt]
      omega
    obtain ⟨get, hne⟩ := pid
    show ProcessId.new n = some ⟨get, hne⟩ ↔ get.toNat = n
    constructor
    · intro h
      obtain ⟨_, hsome⟩ := Option.dite_none_right_eq_some.mp h
      have hget : UInt32.ofNat n = get := congrArg ProcessId.get (Option.some.inj hsome)
      rw [← hget, hvalue]
    · rintro rfl
      have hback : UInt32.ofNat get.toNat = get := UInt32.ofNat_toNat
      rw [ProcessId.new]
      simp only [hback, hne, ne_eq, not_false_eq_true, dif_pos]

theorem EventSequence.fromStr_eq_ok_iff {input : Bytes} {sequence : EventSequence} :
    EventSequence.fromStr input = .ok sequence ↔ sequence.display = input := by
  refine parseNonZero_eq_ok_iff EventSequence.get ?_ ?_
  · intro sequence
    have hlt := sequence.lt
    omega
  · intro n sequence hn
    have hvalue : (UInt64.ofNat n).toNat = n := by
      rw [UInt64.toNat_ofNat', Nat.mod_eq_of_lt]
      omega
    constructor
    · intro h
      obtain ⟨_, hsome⟩ := Option.dite_none_right_eq_some.mp h
      exact (congrArg EventSequence.get (Option.some.inj hsome)).symm.trans hvalue
    · rintro rfl
      have hpos : 0 < (UInt64.ofNat sequence.get).toNat := by
        rw [hvalue]
        exact sequence.pos
      rw [EventSequence.new, dif_pos hpos]
      exact congrArg some (EventSequence.get_injective hvalue)

/-! ### Times -/

inductive TimeParseError where
  | nonCanonical
  | outOfRange
deriving DecidableEq

instance : ToString TimeParseError where
  toString
    | .nonCanonical => "time values must use canonical decimal text"
    | .outOfRange => "time value is outside the supported range"

/-- The integer a text is parsed as, if the text is the one that the integer has. -/
def parseExact (low high : Int) (input : Bytes) : Except TimeParseError Int := do
  let value ← (parseInteger low high input).elim (.error .outOfRange) .ok
  ensure (signedDecimal value = input) .nonCanonical
  return value

/-- Parsing is the inverse of display for a type of integers. -/
theorem map_parseExact_eq_ok_iff {α : Type} {low high : Int} {make : Int → α} (get : α → Int)
    (hlow : low ≤ 0) (hhigh : 0 ≤ high) (hget : ∀ a, low ≤ get a ∧ get a ≤ high)
    (hmake : ∀ i a, low ≤ i → i ≤ high → (make i = a ↔ get a = i)) {input : Bytes} {a : α} :
    (parseExact low high input).map make = .ok a ↔ signedDecimal (get a) = input := by
  have hparse : ∀ value, parseExact low high input = .ok value
      ↔ parseInteger low high input = some value ∧ signedDecimal value = input := by
    intro value
    simp only [parseExact, Except.bind_eq_ok_iff, Option.elim_error_eq_ok_iff, ensure_eq_ok_iff,
      Except.pure_eq_ok_iff]
    constructor
    · rintro ⟨_, hread, _, htext, rfl⟩
      exact ⟨hread, htext⟩
    · rintro ⟨hread, htext⟩
      exact ⟨value, hread, (), htext, rfl⟩
  constructor
  · intro h
    cases hread : parseExact low high input with
    | error error =>
      rw [hread] at h
      exact absurd h (by simp [Except.map])
    | ok value =>
      rw [hread] at h
      obtain ⟨hvalue, htext⟩ := (hparse value).mp hread
      obtain ⟨hmin, hmax⟩ := range_of_parseInteger hlow hhigh hvalue
      rw [(hmake value a hmin hmax).mp (Except.ok.inj h), htext]
  · rintro rfl
    have hread : parseExact low high (signedDecimal (get a)) = .ok (get a) :=
      (hparse (get a)).mpr ⟨parseInteger_signedDecimal hlow hhigh (hget a), rfl⟩
    rw [hread]
    exact congrArg Except.ok ((hmake (get a) a (hget a).1 (hget a).2).mpr rfl)

/-- `Display` of a timestamp. -/
def Timestamp.display (timestamp : Timestamp) : Bytes :=
  signedDecimal timestamp.unixMilliseconds.toInt

/-- `Timestamp::from_str`. -/
def Timestamp.fromStr (input : Bytes) : Except TimeParseError Timestamp :=
  (parseExact (-2 ^ 63) (2 ^ 63 - 1) input).map fun value => ⟨Int64.ofInt value⟩

/-- `Display` of a duration. -/
def MonotonicDuration.display (duration : MonotonicDuration) : Bytes :=
  decimal duration.nanoseconds.toNat

/-- `MonotonicDuration::from_str`. -/
def MonotonicDuration.fromStr (input : Bytes) : Except TimeParseError MonotonicDuration :=
  (parseExact 0 (2 ^ 64 - 1) input).map fun value => ⟨UInt64.ofNat value.toNat⟩

theorem Timestamp.fromStr_eq_ok_iff {input : Bytes} {timestamp : Timestamp} :
    Timestamp.fromStr input = .ok timestamp ↔ timestamp.display = input := by
  refine map_parseExact_eq_ok_iff (fun t : Timestamp => t.unixMilliseconds.toInt)
    (by decide) (by decide) ?_ ?_
  · intro t
    have hmin := t.unixMilliseconds.le_toInt
    have hmax := t.unixMilliseconds.toInt_lt
    omega
  · intro i t hmin hmax
    obtain ⟨milliseconds⟩ := t
    constructor
    · intro h
      rw [← congrArg Timestamp.unixMilliseconds h]
      exact Int64.toInt_ofInt_of_le hmin (by omega)
    · rintro rfl
      exact congrArg Timestamp.mk (Int64.ofInt_toInt milliseconds)

theorem MonotonicDuration.fromStr_eq_ok_iff {input : Bytes} {duration : MonotonicDuration} :
    MonotonicDuration.fromStr input = .ok duration ↔ duration.display = input := by
  have hdisplay : duration.display = signedDecimal (duration.nanoseconds.toNat : Int) := by
    have hnonneg : ¬ (duration.nanoseconds.toNat : Int) < 0 := by omega
    rw [signedDecimal, if_neg hnonneg, Int.natAbs_natCast]
    rfl
  rw [hdisplay]
  refine map_parseExact_eq_ok_iff (fun d : MonotonicDuration => (d.nanoseconds.toNat : Int))
    (by decide) (by decide) ?_ ?_
  · intro d
    have hlt := d.nanoseconds.toNat_lt
    omega
  · intro i d hmin hmax
    obtain ⟨nanoseconds⟩ := d
    constructor
    · intro h
      have hvalue : (UInt64.ofNat i.toNat).toNat = i.toNat := by
        rw [UInt64.toNat_ofNat', Nat.mod_eq_of_lt]
        omega
      rw [← congrArg MonotonicDuration.nanoseconds h]
      show ((UInt64.ofNat i.toNat).toNat : Int) = i
      omega
    · rintro rfl
      exact congrArg MonotonicDuration.mk UInt64.ofNat_toNat

/-! ### One text for each value -/

/-- **Identifiers and times have one text each.**  A text is accepted exactly if it is the display
of the value it is parsed as, and digests are ordered as their texts. -/
theorem codecs_canonical :
    (∀ input (id : SnapshotId), SnapshotId.fromStr input = .ok id ↔ id.digest.hex = input)
    ∧ (∀ input (id : ObjectId), ObjectId.fromStr input = .ok id ↔ id.digest.hex = input)
    ∧ (∀ input pid, ProcessId.fromStr input = .ok pid ↔ pid.display = input)
    ∧ (∀ input sequence, EventSequence.fromStr input = .ok sequence ↔ sequence.display = input)
    ∧ (∀ input timestamp, Timestamp.fromStr input = .ok timestamp ↔ timestamp.display = input)
    ∧ (∀ input duration,
      MonotonicDuration.fromStr input = .ok duration ↔ duration.display = input)
    ∧ ∀ d d' : Digest, d < d' ↔ d.hex < d'.hex :=
  ⟨fun _ _ => SnapshotId.fromStr_eq_ok_iff, fun _ _ => ObjectId.fromStr_eq_ok_iff,
    fun _ _ => ProcessId.fromStr_eq_ok_iff, fun _ _ => EventSequence.fromStr_eq_ok_iff,
    fun _ _ => Timestamp.fromStr_eq_ok_iff, fun _ _ => MonotonicDuration.fromStr_eq_ok_iff,
    fun _ _ => Digest.hex_lt_iff.symm⟩

end Rewind
