/-
Text forms of identifiers and enumerations.

The store keeps identifiers and enumerations as text, and parses the text when it reads a row.  A
record identifier is a UUID in its canonical form, of version 7; a content identifier is a digest
in hexadecimal.

* `parseRecordId_eq_some_iff`, `parseSnapshotId_eq_some_iff` — what parses is what is printed;
* `Uuid.hyphenated_injective` — two identifiers have two texts;
* `Platform.fromStr_asStr` and its like — the spellings are read back.
-/
import Rewind.Domain.Run

namespace Rewind

/-! ### UUIDs -/

namespace Uuid

/-- The digit at position `i`, counted from the left. -/
def digit (u : Uuid) (i : Nat) : Nat := (u.bits.toNat >>> (4 * (31 - i))) % 16

/-- `get_version_num`. -/
def version (u : Uuid) : Nat := u.digit 12

/-- The number a hexadecimal digit stands for. -/
def hexValue (c : Char) : Nat :=
  if c.toNat ≤ 57 then c.toNat - 48 else c.toNat - 87

/-- The UUID that has the digits of a text. -/
def ofDigits (digits : List Char) : Uuid :=
  ⟨BitVec.ofNat 128 (digits.foldl (fun value c => 16 * value + hexValue c) 0)⟩

theorem digit_lt (u : Uuid) (i : Nat) : u.digit i < 16 := Nat.mod_lt _ (by decide)

theorem hexValue_digitChar : ∀ n : Fin 16, hexValue (Nat.digitChar n.val) = n.val := by decide

theorem digitChar_ne_hyphen : ∀ n : Fin 16, Nat.digitChar n.val ≠ '-' := by decide

theorem toList_digits (u : Uuid) (first count : Nat) :
    (u.digits first count).toList
      = (List.range' first count).map fun i => Nat.digitChar (u.digit i) := by
  rw [digits, String.toList_ofList, List.range'_eq_map_range, List.map_map]
  rfl

/-- The digits of the canonical text, without its hyphens. -/
theorem filter_hyphenated (u : Uuid) :
    u.hyphenated.toList.filter (· ≠ '-')
      = (List.range 32).map fun i => Nat.digitChar (u.digit i) := by
  have hdigits : ∀ first count, (u.digits first count).toList.filter (· ≠ '-')
      = (List.range' first count).map fun i => Nat.digitChar (u.digit i) := by
    intro first count
    rw [toList_digits, List.filter_eq_self]
    intro c hc
    obtain ⟨i, -, rfl⟩ := List.mem_map.mp hc
    exact decide_eq_true (digitChar_ne_hyphen ⟨u.digit i, u.digit_lt i⟩)
  have hhyphen : "-".toList.filter (· ≠ '-') = [] := by decide
  have hrange : List.range 32
      = List.range' 0 8 ++ List.range' 8 4 ++ List.range' 12 4 ++ List.range' 16 4
        ++ List.range' 20 12 := by decide
  simp only [hyphenated, String.toList_append, List.filter_append, hdigits, hhyphen,
    List.append_nil]
  rw [hrange]
  simp only [List.map_append]

/-- The first `k` digits make the number without its other digits. -/
theorem foldl_digits (u : Uuid) {k : Nat} (hk : k ≤ 32) :
    ((List.range k).map fun i => Nat.digitChar (u.digit i)).foldl
      (fun value c => 16 * value + hexValue c) 0 = u.bits.toNat >>> (4 * (32 - k)) := by
  induction k with
  | zero =>
    have hlt : u.bits.toNat < 2 ^ 128 := u.bits.isLt
    rw [List.range_zero, List.map_nil, List.foldl_nil, Nat.shiftRight_eq_div_pow]
    exact (Nat.div_eq_of_lt hlt).symm
  | succ k ih =>
    have hvalue : hexValue (Nat.digitChar (u.digit k)) = u.digit k :=
      hexValue_digitChar ⟨u.digit k, u.digit_lt k⟩
    have hshift : u.bits.toNat >>> (4 * (32 - k)) = (u.bits.toNat >>> (4 * (31 - k))) / 16 := by
      rw [show 4 * (32 - k) = 4 * (31 - k) + 4 by omega, Nat.shiftRight_add,
        Nat.shiftRight_eq_div_pow _ 4]
    rw [List.range_succ, List.map_append, List.foldl_append, ih (by omega), List.map_singleton,
      List.foldl_cons, List.foldl_nil, hvalue, hshift, show 32 - (k + 1) = 31 - k by omega]
    -- a number is sixteen times its quotient, and its last digit
    exact Nat.div_add_mod _ 16

/-- The canonical text has the digits of its UUID. -/
theorem ofDigits_hyphenated (u : Uuid) : ofDigits (u.hyphenated.toList.filter (· ≠ '-')) = u := by
  rw [ofDigits, filter_hyphenated, foldl_digits u (Nat.le_refl 32)]
  show (⟨BitVec.ofNat 128 u.bits.toNat⟩ : Uuid) = u
  rw [BitVec.ofNat_toNat, BitVec.setWidth_eq]

theorem hyphenated_injective {u v : Uuid} (h : u.hyphenated = v.hyphenated) : u = v := by
  rw [← ofDigits_hyphenated u, h, ofDigits_hyphenated]

/-- The canonical text is made of digits and hyphens. -/
theorem mem_hyphenated {u : Uuid} {c : Char} (h : c ∈ u.hyphenated.toList) :
    c = '-' ∨ ∃ n : Fin 16, c = Nat.digitChar n.val := by
  have hdigits : ∀ first count, c ∈ (u.digits first count).toList →
      c = '-' ∨ ∃ n : Fin 16, c = Nat.digitChar n.val := by
    intro first count hc
    rw [toList_digits] at hc
    obtain ⟨i, -, rfl⟩ := List.mem_map.mp hc
    exact Or.inr ⟨⟨u.digit i, u.digit_lt i⟩, rfl⟩
  have hhyphen : "-".toList = ['-'] := by decide
  simp only [hyphenated, String.toList_append, List.mem_append, hhyphen, List.mem_singleton] at h
  rcases h with (((((((h | h) | h) | h) | h) | h) | h) | h) | h
  · exact hdigits _ _ h
  · exact Or.inl h
  · exact hdigits _ _ h
  · exact Or.inl h
  · exact hdigits _ _ h
  · exact Or.inl h
  · exact hdigits _ _ h
  · exact Or.inl h
  · exact hdigits _ _ h

theorem length_hyphenated (u : Uuid) : u.hyphenated.toList.length = 36 := by
  have hdigits : ∀ first count, (u.digits first count).toList.length = count := by
    intro first count
    rw [toList_digits, List.length_map, List.length_range']
  have hhyphen : "-".toList.length = 1 := by decide
  simp only [hyphenated, String.toList_append, List.length_append, hdigits, hhyphen]

end Uuid

/-- `parse_record_id`, without its errors: the crate reads other forms of a UUID too, and those are
not canonical. -/
def parseRecordId (input : String) : Option Uuid :=
  let parsed := Uuid.ofDigits (input.toList.filter (· ≠ '-'))
  if parsed.hyphenated = input ∧ parsed.version = 7 then some parsed else none

theorem parseRecordId_eq_some_iff {input : String} {u : Uuid} :
    parseRecordId input = some u ↔ u.hyphenated = input ∧ u.version = 7 := by
  rw [parseRecordId, Option.ite_none_right_eq_some]
  constructor
  · rintro ⟨hcanonical, heq⟩
    obtain rfl := Option.some.inj heq
    exact hcanonical
  · rintro ⟨rfl, hversion⟩
    rw [Uuid.ofDigits_hyphenated]
    exact ⟨⟨rfl, hversion⟩, rfl⟩

instance : ToString BranchId := ⟨fun id => id.uuid.hyphenated⟩

theorem RunId.toString_injective {id id' : RunId} (h : toString id = toString id') : id = id' :=
  congrArg RunId.mk (Uuid.hyphenated_injective h)

theorem CheckpointId.toString_injective {id id' : CheckpointId} (h : toString id = toString id') :
    id = id' := congrArg CheckpointId.mk (Uuid.hyphenated_injective h)

/-! ### Digests -/

/-- `SnapshotId::from_str`, without its errors. -/
def parseSnapshotId (input : String) : Option SnapshotId :=
  (parseDigest (utf8 input)).map SnapshotId.mk

theorem utf8_asciiString {bs : Bytes} (h : ∀ b ∈ bs, b < 0x80) : utf8 (asciiString bs) = bs := by
  rw [utf8_eq_flatMap, asciiString, String.toList_ofList]
  induction bs with
  | nil => rfl
  | cons b rest ih =>
    obtain ⟨hb, hrest⟩ := List.forall_mem_cons.mp h
    rw [List.map_cons, List.flatMap_cons, ih hrest]
    have hlt : b.toNat < 128 := UInt8.lt_iff_toNat_lt.mp hb
    have hchar : (Char.ofNat b.toNat).val.toNat = b.toNat := by
      rw [Char.ofNat, dif_pos (Or.inl (by omega))]
      exact UInt32.toNat_ofNatLT
    have hone : String.utf8EncodeChar (Char.ofNat b.toNat) = [b] := by
      unfold String.utf8EncodeChar
      dsimp only
      rw [if_pos (by omega), hchar]
      exact congrArg (fun b => [b]) (UInt8.ofNat_toNat)
    rw [hone, List.singleton_append]

theorem toHex_ascii {bs : Bytes} {b : UInt8} (h : b ∈ toHex bs) : b < 0x80 := by
  have hdigit : ∀ i : Fin 16, hexDigit (UInt8.ofNat i.val) < 0x80 := by decide
  obtain ⟨byte, -, hb⟩ := List.mem_flatMap.mp h
  obtain ⟨i, j, hi, hj, -⟩ := half_eq byte
  rw [hexByte, hi, hj, List.mem_cons, List.mem_singleton] at hb
  rcases hb with rfl | rfl
  · exact hdigit i
  · exact hdigit j

theorem utf8_toString (id : SnapshotId) : utf8 (toString id) = id.digest.hex :=
  utf8_asciiString fun _ hb => toHex_ascii hb

theorem parseSnapshotId_eq_some_iff {input : String} {id : SnapshotId} :
    parseSnapshotId input = some id ↔ toString id = input := by
  rw [parseSnapshotId, Option.map_eq_some_iff]
  constructor
  · rintro ⟨digest, hdigest, rfl⟩
    refine utf8_injective ?_
    rw [utf8_toString]
    exact parseDigest_eq_some_iff.mp hdigest
  · rintro rfl
    exact ⟨id.digest, parseDigest_eq_some_iff.mpr (utf8_toString id).symm, rfl⟩

/-! ### Enumerations -/

namespace Platform

def asStr : Platform → String
  | macOsAarch64 => "macos_aarch64"
  | linuxX86_64 => "linux_x86_64"
  | linuxAarch64 => "linux_aarch64"

def fromStr : String → Option Platform
  | "macos_aarch64" => some macOsAarch64
  | "linux_x86_64" => some linuxX86_64
  | "linux_aarch64" => some linuxAarch64
  | _ => none

theorem fromStr_asStr (platform : Platform) : fromStr platform.asStr = some platform := by
  cases platform <;> rfl

end Platform

namespace InputRecordingPolicy

def asStr : InputRecordingPolicy → String
  | auto => "auto"
  | always => "always"
  | never => "never"

def fromStr : String → Option InputRecordingPolicy
  | "auto" => some auto
  | "always" => some always
  | "never" => some never
  | _ => none

theorem fromStr_asStr (policy : InputRecordingPolicy) : fromStr policy.asStr = some policy := by
  cases policy <;> rfl

end InputRecordingPolicy

namespace RunStatus

def fromStr : String → Option RunStatus
  | "preparing" => some preparing
  | "running" => some running
  | "completed" => some completed
  | "failed" => some failed
  | "interrupted" => some interrupted
  | "crashed" => some crashed
  | _ => none

theorem fromStr_asStr (status : RunStatus) : fromStr status.asStr = some status := by
  cases status <;> rfl

end RunStatus

end Rewind
