/-
The decoder of bundles is the inverse of their encoders.

The decoder is compared with the format from both sides: what it returns is what the input is the
bundle of, and it returns the entries of every bundle within its limits.  The encoders write
bundles, so the three agree.

* `take_ok`, `take_append` — the decoder's cursor, from both sides;
* `decodeBundle_inBounds` — no access is outside of the input;
* **`bundle_codec`** — the round trips, and the stream.
-/
import Rewind.Lib.Slices
import Rewind.Store.Bundle
import Rewind.Store.Writer

namespace Rewind

open Bundle

/-! ### Accesses inside of the input -/

/-- No access of the computation was outside of the input. -/
def InBounds {α : Type} (d : Decoding α) : Prop := d ≠ .error .outOfBounds

section Bounds

variable {α β : Type}

theorem inBounds_bind {d : Decoding α} {f : α → Decoding β} (hd : InBounds d)
    (hf : ∀ a, d = .ok a → InBounds (f a)) : InBounds (d >>= f) := by
  rcases d with failure | a
  · intro h
    obtain rfl : failure = .outOfBounds := Except.error.inj h
    exact hd rfl
  · exact hf a rfl

theorem inBounds_ofResult (result : BundleResult α) : InBounds (ofResult result) := by
  rcases result with error | a
  · exact nofun
  · exact nofun

theorem index_inBounds {bytes : Bytes} {i : Nat} (h : i < bytes.length) :
    InBounds (index bytes i) := by
  rw [index, List.getElem?_eq_getElem h]
  exact nofun

theorem u16At_inBounds {bytes : Bytes} {i : Nat} (h : i + 2 ≤ bytes.length) :
    InBounds (u16At bytes i) := by
  refine inBounds_bind (index_inBounds (by omega)) fun _ _ => ?_
  exact inBounds_bind (index_inBounds (by omega)) fun _ _ => nofun

theorem u32At_inBounds {bytes : Bytes} {i : Nat} (h : i + 4 ≤ bytes.length) :
    InBounds (u32At bytes i) := by
  refine inBounds_bind (index_inBounds (by omega)) fun _ _ => ?_
  refine inBounds_bind (index_inBounds (by omega)) fun _ _ => ?_
  refine inBounds_bind (index_inBounds (by omega)) fun _ _ => ?_
  exact inBounds_bind (index_inBounds (by omega)) fun _ _ => nofun

theorem slice_inBounds {bytes : Bytes} {start stop : Nat} (h : start ≤ stop)
    (hstop : stop ≤ bytes.length) : InBounds (slice bytes start stop) := by
  rw [slice, if_pos ⟨h, hstop⟩]
  exact nofun

end Bounds

/-! ### The cursor -/

theorem checkedAdd_eq_some {a b c : Nat} :
    checkedAdd a b = some c ↔ a + b < 2 ^ 64 ∧ c = a + b := by
  unfold checkedAdd
  split
  case isTrue h =>
    constructor
    · intro hc
      exact ⟨h, (Option.some.inj hc).symm⟩
    · rintro ⟨-, rfl⟩
      rfl
  case isFalse h => exact ⟨fun hc => absurd hc (by simp), fun hc => absurd hc.1 h⟩

/-- What `take` does: the next bytes, where there are so many. -/
theorem take_eq (bytes : Bytes) (cursor length : Nat) :
    take bytes cursor length
      = if cursor + length < 2 ^ 64 ∧ cursor + length ≤ bytes.length
        then .ok ((bytes.drop cursor).take length, cursor + length)
        else .error (.error .truncated) := by
  unfold take
  by_cases hadd : cursor + length < 2 ^ 64
  · by_cases hstop : cursor + length ≤ bytes.length
    · rw [if_pos ⟨hadd, hstop⟩, checkedAdd_eq_some.mpr ⟨hadd, rfl⟩, Option.filter_some,
        if_pos (decide_eq_true hstop)]
      show (slice bytes cursor (cursor + length) >>= fun taken =>
        Except.ok (taken, cursor + length))
        = _
      rw [slice, if_pos ⟨Nat.le_add_right cursor length, hstop⟩, Nat.add_sub_cancel_left]
      rfl
    · rw [if_neg (fun h => hstop h.2), checkedAdd_eq_some.mpr ⟨hadd, rfl⟩, Option.filter_some,
        if_neg (fun h => hstop (of_decide_eq_true h))]
  · rw [if_neg (fun h => hadd h.1), checkedAdd, if_neg hadd]
    rfl

theorem take_inBounds (bytes : Bytes) (cursor length : Nat) :
    InBounds (take bytes cursor length) := by
  rw [take_eq]
  split
  · exact nofun
  · exact nofun

/-- What is taken is what the input goes on with. -/
theorem take_ok {bytes taken : Bytes} {cursor cursor' length : Nat}
    (h : take bytes cursor length = .ok (taken, cursor')) :
    taken.length = length ∧ cursor' ≤ bytes.length
      ∧ bytes.drop cursor = taken ++ bytes.drop cursor' := by
  rw [take_eq] at h
  split at h
  case isTrue hfits =>
    obtain ⟨rfl, rfl⟩ := Prod.mk.inj (Except.ok.inj h)
    refine ⟨?_, hfits.2, ?_⟩
    · rw [List.length_take, List.length_drop]
      omega
    · rw [← List.drop_drop, List.take_append_drop]
  case isFalse => exact nomatch h

/-- What the input goes on with is taken. -/
theorem take_append {bytes taken rest : Bytes} {cursor : Nat}
    (h : bytes.drop cursor = taken ++ rest) (hcursor : cursor + taken.length ≤ bytes.length)
    (hsize : bytes.length < 2 ^ 64) :
    take bytes cursor taken.length = .ok (taken, cursor + taken.length)
      ∧ bytes.drop (cursor + taken.length) = rest := by
  constructor
  · rw [take_eq, if_pos ⟨by omega, hcursor⟩, h, List.take_left]
  · rw [← List.drop_drop, h, List.drop_left]

/-! ### The fields -/

theorem index_ok {bytes : Bytes} {i : Nat} {b : UInt8} (h : index bytes i = .ok b) :
    bytes[i]? = some b := by
  unfold index at h
  split at h
  case h_1 c hc =>
    rw [hc, Except.ok.inj h]
  case h_2 => exact nomatch h

theorem index_append (pre : Bytes) (b : UInt8) (post : Bytes) :
    index (pre ++ b :: post) pre.length = .ok b := by
  rw [index, List.getElem?_append_right (Nat.le_refl _), Nat.sub_self]
  rfl

theorem u16At_ok {bytes : Bytes} {i n : Nat} (h : u16At bytes i = .ok n) :
    bytes.drop i = toLittleEndian 2 n ++ bytes.drop (i + 2) := by
  obtain ⟨b₀, h₀, h⟩ := Except.bind_eq_ok_iff.mp h
  obtain ⟨b₁, h₁, h⟩ := Except.bind_eq_ok_iff.mp h
  obtain rfl := Except.ok.inj h
  have hfield := toLittleEndian_ofLittleEndian [b₀, b₁]
  rw [drop_of_getElem? (index_ok h₀), drop_of_getElem? (index_ok h₁)]
  show _ = toLittleEndian [b₀, b₁].length _ ++ _
  rw [hfield]
  rfl

theorem u32At_ok {bytes : Bytes} {i n : Nat} (h : u32At bytes i = .ok n) :
    bytes.drop i = toLittleEndian 4 n ++ bytes.drop (i + 4) ∧ n < 2 ^ 32 := by
  obtain ⟨b₀, h₀, h⟩ := Except.bind_eq_ok_iff.mp h
  obtain ⟨b₁, h₁, h⟩ := Except.bind_eq_ok_iff.mp h
  obtain ⟨b₂, h₂, h⟩ := Except.bind_eq_ok_iff.mp h
  obtain ⟨b₃, h₃, h⟩ := Except.bind_eq_ok_iff.mp h
  obtain rfl := Except.ok.inj h
  have hfield := toLittleEndian_ofLittleEndian [b₀, b₁, b₂, b₃]
  have hlt := ofLittleEndian_lt [b₀, b₁, b₂, b₃]
  simp only [List.length_cons, List.length_nil] at hlt
  refine ⟨?_, by omega⟩
  rw [drop_of_getElem? (index_ok h₀), drop_of_getElem? (index_ok h₁),
    drop_of_getElem? (index_ok h₂), drop_of_getElem? (index_ok h₃)]
  show _ = toLittleEndian [b₀, b₁, b₂, b₃].length _ ++ _
  rw [hfield]
  rfl

theorem u16At_append (pre : Bytes) {n : Nat} (hn : n < 2 ^ 16) (post : Bytes) :
    u16At (pre ++ (toLittleEndian 2 n ++ post)) pre.length = .ok n := by
  have hvalue : ofLittleEndian (toLittleEndian 2 n) = n := ofLittleEndian_toLittleEndian (by omega)
  obtain ⟨b₀, b₁, hfield⟩ := List.length_eq_two.mp (length_toLittleEndian 2 n)
  rw [hfield] at hvalue ⊢
  have h₁ := index_append (pre ++ [b₀]) b₁ post
  rw [List.append_assoc, List.length_append] at h₁
  refine Except.bind_eq_ok_iff.mpr ⟨b₀, index_append pre b₀ _, ?_⟩
  refine Except.bind_eq_ok_iff.mpr ⟨b₁, h₁, ?_⟩
  rw [hvalue]
  rfl

theorem u32At_append (pre : Bytes) {n : Nat} (hn : n < 2 ^ 32) (post : Bytes) :
    u32At (pre ++ (toLittleEndian 4 n ++ post)) pre.length = .ok n := by
  have hvalue : ofLittleEndian (toLittleEndian 4 n) = n := ofLittleEndian_toLittleEndian (by omega)
  obtain ⟨b₀, b₁, b₂, b₃, hfield⟩ : ∃ b₀ b₁ b₂ b₃, toLittleEndian 4 n = [b₀, b₁, b₂, b₃] :=
    ⟨_, _, _, _, rfl⟩
  rw [hfield] at hvalue ⊢
  have h₁ := index_append (pre ++ [b₀]) b₁ (b₂ :: b₃ :: post)
  have h₂ := index_append (pre ++ [b₀, b₁]) b₂ (b₃ :: post)
  have h₃ := index_append (pre ++ [b₀, b₁, b₂]) b₃ post
  rw [List.append_assoc, List.length_append] at h₁ h₂ h₃
  refine Except.bind_eq_ok_iff.mpr ⟨b₀, index_append pre b₀ _, ?_⟩
  refine Except.bind_eq_ok_iff.mpr ⟨b₁, h₁, Except.bind_eq_ok_iff.mpr ⟨b₂, h₂, ?_⟩⟩
  refine Except.bind_eq_ok_iff.mpr ⟨b₃, h₃, ?_⟩
  rw [hvalue]
  rfl

theorem slice_ok {bytes taken : Bytes} {start stop : Nat}
    (h : slice bytes start stop = .ok taken) :
    taken.length = stop - start ∧ bytes.drop start = taken ++ bytes.drop stop := by
  unfold slice at h
  split at h
  case isTrue hbounds =>
    obtain rfl := Except.ok.inj h
    constructor
    · rw [List.length_take, List.length_drop]
      omega
    · have hstop : start + (stop - start) = stop := by omega
      rw [← hstop, ← List.drop_drop, hstop, List.take_append_drop]
  case isFalse => exact nomatch h

theorem slice_append (pre taken post : Bytes) :
    slice (pre ++ (taken ++ post)) pre.length (pre.length + taken.length) = .ok taken := by
  have hstop : pre.length + taken.length ≤ (pre ++ (taken ++ post)).length := by
    simp only [List.length_append]
    omega
  rw [slice, if_pos ⟨Nat.le_add_right _ _, hstop⟩, List.drop_left, Nat.add_sub_cancel_left,
    List.take_left]

/-! ### One entry -/

section Entries

variable {codecs : Codecs} {bytes : Bytes} {limits : BundleDecodeLimits}

theorem ofResult_eq_ok_iff {α : Type} {result : BundleResult α} {a : α} :
    ofResult result = .ok a ↔ result = .ok a := Except.mapError_eq_ok_iff

theorem ofResult_bind_eq_ok_iff {p : Prop} [Decidable p] {error : BundleError} {α : Type}
    {f : Unit → Decoding α} {a : α} :
    (ofResult (ensure p error) >>= f) = .ok a ↔ p ∧ f () = .ok a := by
  rw [Except.bind_eq_ok_iff]
  constructor
  · rintro ⟨u, hp, hf⟩
    exact ⟨ensure_eq_ok_iff.mp (ofResult_eq_ok_iff.mp hp), hf⟩
  · rintro ⟨hp, hf⟩
    exact ⟨(), ofResult_eq_ok_iff.mpr (ensure_eq_ok_iff.mpr hp), hf⟩

theorem length_entryHeader (path : Bytes) (byteLen : Nat) (checksum : Digest) :
    (entryHeader path byteLen checksum).length = ENTRY_HEADER_BYTES + path.length := by
  simp only [entryHeader, List.length_append, length_toLittleEndian, checksum.length_eq,
    ENTRY_HEADER_BYTES]

/-- An entry is decoded without an access outside of the input. -/
theorem decodeEntry_inBounds (codecs : Codecs) (bytes : Bytes) (limits : BundleDecodeLimits)
    (cursor total : Nat) (previous : Option Bytes) :
    InBounds (Bundle.decodeEntry codecs bytes limits cursor total previous) := by
  refine inBounds_bind (take_inBounds _ _ _) fun taken htaken => ?_
  obtain ⟨header, cursor⟩ := taken
  have hlength : header.length = 44 := (take_ok htaken).1
  refine inBounds_bind (u16At_inBounds (by omega)) fun pathLen _ => ?_
  refine inBounds_bind (u16At_inBounds (by omega)) fun flags _ => ?_
  refine inBounds_bind (inBounds_ofResult _) fun _ _ => ?_
  refine inBounds_bind (slice_inBounds (by omega) (by omega)) fun byteLen _ => ?_
  refine inBounds_bind (slice_inBounds (by omega) (by omega)) fun checksum _ => ?_
  refine inBounds_bind (take_inBounds _ _ _) fun taken _ => ?_
  obtain ⟨path, cursor⟩ := taken
  dsimp only
  split
  case isFalse => exact inBounds_ofResult (.error _)
  case isTrue =>
    refine inBounds_bind (inBounds_ofResult _) fun _ _ => ?_
    refine inBounds_bind (inBounds_ofResult _) fun _ _ => ?_
    refine inBounds_bind (inBounds_ofResult _) fun _ _ => ?_
    refine inBounds_bind (inBounds_ofResult _) fun _ _ => ?_
    refine inBounds_bind (take_inBounds _ _ _) fun taken _ => ?_
    exact inBounds_bind (inBounds_ofResult _) fun _ _ => inBounds_ofResult (.ok _)

theorem decodeEntries_inBounds (codecs : Codecs) (bytes : Bytes) (limits : BundleDecodeLimits)
    (count cursor total : Nat) (previous : Option Bytes) :
    InBounds (decodeEntries codecs bytes limits count cursor total previous) := by
  induction count generalizing cursor total previous with
  | zero => exact nofun
  | succ count ih =>
    refine inBounds_bind (decodeEntry_inBounds codecs bytes limits cursor total previous)
      fun decoded _ => ?_
    exact inBounds_bind (ih _ _ _) fun _ _ => nofun

/-- **No access is outside of the input.** -/
theorem decodeBundle_inBounds (codecs : Codecs) (bytes : Bytes) (limits : BundleDecodeLimits) :
    InBounds (decodeBundle codecs bytes limits) := by
  refine inBounds_bind (inBounds_ofResult _) fun _ hlength => ?_
  have hbytes : HEADER_BYTES ≤ bytes.length := ensure_eq_ok_iff.mp (ofResult_eq_ok_iff.mp hlength)
  rw [HEADER_BYTES] at hbytes
  refine inBounds_bind (slice_inBounds (by omega) (by omega)) fun magic _ => ?_
  refine inBounds_bind (inBounds_ofResult _) fun _ _ => ?_
  refine inBounds_bind (u16At_inBounds (by omega)) fun version _ => ?_
  refine inBounds_bind (inBounds_ofResult _) fun _ _ => ?_
  refine inBounds_bind (u16At_inBounds (by omega)) fun flags _ => ?_
  refine inBounds_bind (inBounds_ofResult _) fun _ _ => ?_
  refine inBounds_bind (u32At_inBounds (by omega)) fun count _ => ?_
  refine inBounds_bind (inBounds_ofResult _) fun _ _ => ?_
  refine inBounds_bind (decodeEntries_inBounds _ _ _ _ _ _ _) fun decoded _ => ?_
  exact inBounds_bind (inBounds_ofResult _) fun _ _ => nofun

theorem addToTotal_ok {total byteLen total' : Nat}
    (h : addToTotal limits total byteLen = .ok total') :
    total' = total + byteLen ∧ byteLen < 2 ^ 64 := by
  unfold addToTotal at h
  split at h
  case h_1 sum hsum =>
    obtain ⟨hlt, rfl⟩ := checkedAdd_eq_some.mp hsum
    split at h
    case isTrue => exact ⟨(Except.ok.inj h).symm, by omega⟩
    case isFalse => exact nomatch h
  case h_2 => exact nomatch h

/-- **What is decoded** is an entry of the format: the input goes on with its bytes. -/
theorem decodeEntry_ok {cursor cursor' total total' : Nat} {previous : Option Bytes}
    {e : BundleEntry} (h : Bundle.decodeEntry codecs bytes limits cursor total previous
      = .ok (e, cursor', total')) :
    (isArchivePath e.path = true ∧ (∀ value, previous = some value → value < e.path)
      ∧ e.bytes.length < 2 ^ 64)
      ∧ bytes.drop cursor = Bundle.entry codecs e ++ bytes.drop cursor'
      ∧ cursor' ≤ bytes.length := by
  obtain ⟨⟨header, cursor₁⟩, htake₁, h⟩ := Except.bind_eq_ok_iff.mp h
  obtain ⟨pathLen, hpathLen, h⟩ := Except.bind_eq_ok_iff.mp h
  obtain ⟨flags, hflags, h⟩ := Except.bind_eq_ok_iff.mp h
  obtain ⟨hzero, h⟩ := ofResult_bind_eq_ok_iff.mp h
  obtain ⟨byteLen, hbyteLen, h⟩ := Except.bind_eq_ok_iff.mp h
  obtain ⟨checksum, hchecksum, h⟩ := Except.bind_eq_ok_iff.mp h
  obtain ⟨⟨path, cursor₂⟩, htake₂, h⟩ := Except.bind_eq_ok_iff.mp h
  dsimp only at h
  split at h
  case isFalse => exact absurd h Except.error_ne_ok
  case isTrue text =>
    obtain ⟨u, hvalid, h⟩ := Except.bind_eq_ok_iff.mp h
    obtain ⟨horder, h⟩ := ofResult_bind_eq_ok_iff.mp h
    obtain ⟨-, h⟩ := ofResult_bind_eq_ok_iff.mp h
    obtain ⟨total₁, htotal, h⟩ := Except.bind_eq_ok_iff.mp h
    obtain ⟨⟨payload, cursor₃⟩, htake₃, h⟩ := Except.bind_eq_ok_iff.mp h
    obtain ⟨hdigest, h⟩ := ofResult_bind_eq_ok_iff.mp h
    obtain ⟨rfl, rfl, rfl⟩ := by simpa using Except.ok.inj h
    obtain ⟨hheader, -, hdrop₁⟩ := take_ok htake₁
    obtain ⟨hpath, -, hdrop₂⟩ := take_ok htake₂
    obtain ⟨hpayload, hend, hdrop₃⟩ := take_ok htake₃
    obtain ⟨-, hfits⟩ := addToTotal_ok (ofResult_eq_ok_iff.mp htotal)
    have hvalid' := ensure_eq_ok_iff.mp (ofResult_eq_ok_iff.mp hvalid)
    have hdigest' : (codecs.blake3 payload).bytes = checksum := hdigest
    refine ⟨⟨hvalid', horder, ?_⟩, ?_, hend⟩
    · show payload.length < 2 ^ 64
      omega
    -- the fields of the header, one after the other
    have hfields : header = toLittleEndian 2 path.length ++ (toLittleEndian 2 0
        ++ (toLittleEndian 8 payload.length ++ (codecs.blake3 payload).bytes)) := by
      have h₀ := u16At_ok hpathLen
      have h₂ := u16At_ok hflags
      obtain ⟨hlength₄, h₄⟩ := slice_ok hbyteLen
      obtain ⟨-, h₁₂⟩ := slice_ok hchecksum
      have hbytes := toLittleEndian_ofLittleEndian byteLen
      rw [hlength₄] at hbytes
      have hnil : header.drop 44 = [] := List.drop_eq_nil_of_le (Nat.le_of_eq hheader)
      rw [List.drop_zero] at h₀
      rw [hnil, List.append_nil] at h₁₂
      calc header = toLittleEndian 2 pathLen ++ header.drop (0 + 2) := h₀
        _ = toLittleEndian 2 pathLen ++ (toLittleEndian 2 flags ++ header.drop 4) := by rw [← h₂]
        _ = toLittleEndian 2 pathLen ++ (toLittleEndian 2 flags ++ (byteLen ++ checksum)) := by
          rw [h₄, h₁₂]
        _ = _ := by rw [hpath, hpayload, hzero, hdigest', hbytes]
    rw [hdrop₁, hdrop₂, hdrop₃, hfields, Bundle.entry, entryHeader]
    simp only [List.append_assoc]

theorem decodeEntries_ok {count cursor cursor' total : Nat} {previous : Option Bytes}
    {entries : List BundleEntry} (h : decodeEntries codecs bytes limits count cursor total previous
      = .ok (entries, cursor')) (hcursor : cursor ≤ bytes.length) :
    Canonical previous entries ∧ entries.length = count
      ∧ bytes.drop cursor = entries.flatMap (Bundle.entry codecs) ++ bytes.drop cursor'
      ∧ cursor' ≤ bytes.length := by
  induction count generalizing cursor total previous entries with
  | zero =>
    obtain ⟨rfl, rfl⟩ := Prod.mk.inj (Except.ok.inj h)
    exact ⟨trivial, rfl, rfl, hcursor⟩
  | succ count ih =>
    obtain ⟨⟨e, cursor₁, total₁⟩, hentry, h⟩ := Except.bind_eq_ok_iff.mp h
    obtain ⟨⟨rest, cursor₂⟩, hrest, h⟩ := Except.bind_eq_ok_iff.mp h
    obtain ⟨rfl, rfl⟩ := Prod.mk.inj (Except.ok.inj h)
    obtain ⟨⟨hvalid, horder, hfits⟩, hdrop, hcursor₁⟩ := decodeEntry_ok hentry
    obtain ⟨hcanonical, hlength, hdrop', hcursor₂⟩ := ih hrest hcursor₁
    refine ⟨⟨hvalid, horder, hfits, hcanonical⟩, ?_, ?_, hcursor₂⟩
    · rw [List.length_cons, hlength]
    · rw [hdrop, hdrop', List.flatMap_cons, List.append_assoc]

/-- **What is decoded** is what the input is the bundle of. -/
theorem decodeBundle_ok {entries : List BundleEntry}
    (h : decodeBundle codecs bytes limits = .ok entries) :
    bytes = bundleBytes codecs entries ∧ Canonical none entries ∧ entries.length < 2 ^ 32 := by
  obtain ⟨hlength, h⟩ := ofResult_bind_eq_ok_iff.mp h
  obtain ⟨magic, hmagic, h⟩ := Except.bind_eq_ok_iff.mp h
  obtain ⟨hmagic', h⟩ := ofResult_bind_eq_ok_iff.mp h
  obtain ⟨version, hversion, h⟩ := Except.bind_eq_ok_iff.mp h
  obtain ⟨hversion', h⟩ := ofResult_bind_eq_ok_iff.mp h
  obtain ⟨flags, hflags, h⟩ := Except.bind_eq_ok_iff.mp h
  obtain ⟨hflags', h⟩ := ofResult_bind_eq_ok_iff.mp h
  obtain ⟨count, hcount, h⟩ := Except.bind_eq_ok_iff.mp h
  obtain ⟨-, h⟩ := ofResult_bind_eq_ok_iff.mp h
  obtain ⟨⟨entries', cursor⟩, hentries, h⟩ := Except.bind_eq_ok_iff.mp h
  obtain ⟨hend, h⟩ := ofResult_bind_eq_ok_iff.mp h
  obtain rfl := Except.ok.inj h
  obtain ⟨-, hdrop₀⟩ := slice_ok hmagic
  have hdrop₄ := u16At_ok hversion
  have hdrop₆ := u16At_ok hflags
  obtain ⟨hdrop₈, hsize⟩ := u32At_ok hcount
  obtain ⟨hcanonical, hcount', hdrop₁₂, -⟩ := decodeEntries_ok hentries hlength
  have hnil : bytes.drop cursor = [] := List.drop_eq_nil_of_le (Nat.le_of_eq hend.symm)
  have hdrop₁₂' : bytes.drop (8 + 4) = entries'.flatMap (Bundle.entry codecs) := by
    rw [hnil, List.append_nil] at hdrop₁₂
    exact hdrop₁₂
  refine ⟨?_, hcanonical, by omega⟩
  rw [List.drop_zero] at hdrop₀
  rw [hdrop₀, hdrop₄, hdrop₆, hdrop₈, hdrop₁₂', hmagic', hversion', hflags', bundleBytes, header,
    hcount']
  simp only [List.append_assoc]

/-- The fields of a header are read from it. -/
theorem read_fields {pathLen byteLen : Nat} (hpathLen : pathLen < 2 ^ 16)
    {checksum header : Bytes} (hchecksum : checksum.length = 32)
    (hheader : header = toLittleEndian 2 pathLen ++ (toLittleEndian 2 0
      ++ (toLittleEndian 8 byteLen ++ checksum))) :
    header.length = ENTRY_HEADER_BYTES ∧ u16At header 0 = .ok pathLen ∧ u16At header 2 = .ok 0
      ∧ slice header 4 12 = .ok (toLittleEndian 8 byteLen)
      ∧ slice header 12 44 = .ok checksum := by
  have h₀ := u16At_append [] hpathLen
    (toLittleEndian 2 0 ++ (toLittleEndian 8 byteLen ++ checksum))
  have h₂ := u16At_append (toLittleEndian 2 pathLen) (n := 0) (by omega)
    (toLittleEndian 8 byteLen ++ checksum)
  have h₄ := slice_append (toLittleEndian 2 pathLen ++ toLittleEndian 2 0)
    (toLittleEndian 8 byteLen) checksum
  have h₁₂ := slice_append (toLittleEndian 2 pathLen ++ (toLittleEndian 2 0
    ++ toLittleEndian 8 byteLen)) checksum []
  rw [length_toLittleEndian] at h₂
  rw [List.append_assoc, List.length_append, length_toLittleEndian, length_toLittleEndian,
    length_toLittleEndian] at h₄
  rw [List.append_nil, List.append_assoc, List.append_assoc, List.length_append, List.length_append,
    length_toLittleEndian, length_toLittleEndian, length_toLittleEndian, hchecksum] at h₁₂
  rw [hheader]
  refine ⟨?_, h₀, h₂, h₄, h₁₂⟩
  simp only [List.length_append, length_toLittleEndian, hchecksum, ENTRY_HEADER_BYTES]

/-- **An entry of the format** is decoded, where the limits allow for it. -/
theorem decodeEntry_entry {cursor total : Nat} {previous : Option Bytes} {e : BundleEntry}
    {rest : Bytes} (hdrop : bytes.drop cursor = Bundle.entry codecs e ++ rest)
    (hcursor : cursor ≤ bytes.length) (hsize : bytes.length < 2 ^ 64)
    (hvalid : isArchivePath e.path = true)
    (horder : ∀ value, previous = some value → value < e.path)
    (hentry : e.bytes.length ≤ limits.maximumEntryBytes.toNat)
    (htotal : total + e.bytes.length ≤ limits.maximumTotalBytes.toNat) :
    Bundle.decodeEntry codecs bytes limits cursor total previous
        = .ok (e, cursor + (Bundle.entry codecs e).length, total + e.bytes.length)
      ∧ bytes.drop (cursor + (Bundle.entry codecs e).length) = rest := by
  obtain ⟨path, payload, text⟩ := e
  have htotal' : total + payload.length ≤ limits.maximumTotalBytes.toNat := htotal
  have hentryLength : (Bundle.entry codecs ⟨path, payload, text⟩).length
      = 44 + path.length + payload.length := by
    rw [Bundle.entry, List.length_append, length_entryHeader, ENTRY_HEADER_BYTES]
  have hlength : bytes.length = cursor + (44 + path.length + payload.length + rest.length) := by
    have hlength := congrArg List.length hdrop
    rw [List.length_drop, List.length_append, hentryLength] at hlength
    omega
  have hmaximum := limits.maximumTotalBytes.toNat_lt
  have hbyteLen : ofLittleEndian (toLittleEndian 8 payload.length) = payload.length :=
    ofLittleEndian_toLittleEndian (by omega)
  generalize hheader : toLittleEndian 2 path.length ++ (toLittleEndian 2 0
    ++ (toLittleEndian 8 payload.length ++ (codecs.blake3 payload).bytes)) = header
  obtain ⟨hheaderLength, h₀, h₂, h₄, h₁₂⟩ := read_fields (length_of_isArchivePath hvalid)
    (codecs.blake3 payload).length_eq hheader.symm
  -- the cursor passes the header, the path and the payload
  have hdrop₀ : bytes.drop cursor = header ++ (path ++ (payload ++ rest)) := by
    rw [hdrop, ← hheader, Bundle.entry, entryHeader]
    simp only [List.append_assoc]
  rw [ENTRY_HEADER_BYTES] at hheaderLength
  obtain ⟨htake₁, hdrop₁⟩ := take_append hdrop₀ (by omega) hsize
  obtain ⟨htake₂, hdrop₂⟩ := take_append hdrop₁ (by omega) hsize
  obtain ⟨htake₃, hdrop₃⟩ := take_append hdrop₂ (by omega) hsize
  have hend : cursor + header.length + path.length + payload.length
      = cursor + (Bundle.entry codecs ⟨path, payload, text⟩).length := by
    rw [hentryLength, hheaderLength]
    omega
  have hadd : addToTotal limits total payload.length = .ok (total + payload.length) := by
    rw [addToTotal, checkedAdd_eq_some.mpr ⟨by omega, rfl⟩]
    exact if_pos htotal'
  rw [← hend]
  refine ⟨?_, hdrop₃⟩
  rw [hheaderLength] at htake₁
  refine Except.bind_eq_ok_iff.mpr ⟨_, htake₁, ?_⟩
  refine Except.bind_eq_ok_iff.mpr ⟨_, h₀, Except.bind_eq_ok_iff.mpr ⟨_, h₂, ?_⟩⟩
  refine ofResult_bind_eq_ok_iff.mpr ⟨rfl, ?_⟩
  refine Except.bind_eq_ok_iff.mpr ⟨_, h₄, Except.bind_eq_ok_iff.mpr ⟨_, h₁₂, ?_⟩⟩
  rw [hheaderLength] at htake₂ htake₃
  refine Except.bind_eq_ok_iff.mpr ⟨_, htake₂, ?_⟩
  dsimp only
  rw [dif_pos text, hbyteLen]
  refine Except.bind_eq_ok_iff.mpr ⟨(), ofResult_eq_ok_iff.mpr (ensure_eq_ok_iff.mpr hvalid), ?_⟩
  refine ofResult_bind_eq_ok_iff.mpr ⟨horder, ofResult_bind_eq_ok_iff.mpr ⟨hentry, ?_⟩⟩
  refine Except.bind_eq_ok_iff.mpr ⟨_, ofResult_eq_ok_iff.mpr hadd, ?_⟩
  refine Except.bind_eq_ok_iff.mpr ⟨_, htake₃, ?_⟩
  refine ofResult_bind_eq_ok_iff.mpr ⟨rfl, ?_⟩
  rw [hheaderLength]
  rfl

/-- Entries of the format are decoded, where the limits allow for them. -/
theorem decodeEntries_entries {cursor total : Nat} {previous : Option Bytes}
    {entries : List BundleEntry} {rest : Bytes}
    (hdrop : bytes.drop cursor = entries.flatMap (Bundle.entry codecs) ++ rest)
    (hcursor : cursor ≤ bytes.length) (hsize : bytes.length < 2 ^ 64)
    (hcanonical : Canonical previous entries)
    (hentries : ∀ e ∈ entries, e.bytes.length ≤ limits.maximumEntryBytes.toNat)
    (htotal : total + (entries.map fun e => e.bytes.length).sum ≤ limits.maximumTotalBytes.toNat) :
    decodeEntries codecs bytes limits entries.length cursor total previous
      = .ok (entries, cursor + (entries.flatMap (Bundle.entry codecs)).length) := by
  induction entries generalizing cursor total previous with
  | nil => rfl
  | cons e entries ih =>
    obtain ⟨hvalid, horder, -, hcanonical⟩ := hcanonical
    obtain ⟨hentry, hentries⟩ := List.forall_mem_cons.mp hentries
    rw [List.map_cons, List.sum_cons] at htotal
    rw [List.flatMap_cons, List.append_assoc] at hdrop
    have hlength := congrArg List.length hdrop
    rw [List.length_drop, List.length_append] at hlength
    have hnext : total + e.bytes.length ≤ limits.maximumTotalBytes.toNat := by omega
    obtain ⟨hdecoded, hdrop'⟩ := decodeEntry_entry hdrop hcursor hsize hvalid horder hentry hnext
    have htotal' : total + e.bytes.length + (entries.map fun e => e.bytes.length).sum
        ≤ limits.maximumTotalBytes.toNat := by omega
    have hrest := ih hdrop' (by omega) hcanonical hentries htotal'
    refine Except.bind_eq_ok_iff.mpr ⟨_, hdecoded, Except.bind_eq_ok_iff.mpr ⟨_, hrest, ?_⟩⟩
    rw [List.flatMap_cons, List.length_append, ← Nat.add_assoc]
    rfl

/-- The limits allow for the entries, and their bundle is not too long for a slice. -/
structure BundleDecodeLimits.Allow (limits : BundleDecodeLimits) (codecs : Codecs)
    (entries : List BundleEntry) : Prop where
  count : entries.length ≤ limits.maximumEntries.toNat
  entry : ∀ e ∈ entries, e.bytes.length ≤ limits.maximumEntryBytes.toNat
  total : (entries.map fun e => e.bytes.length).sum ≤ limits.maximumTotalBytes.toNat
  size : (bundleBytes codecs entries).length < 2 ^ 64

/-- **A bundle** is decoded to its entries, where the limits allow for them. -/
theorem decodeBundle_bundleBytes {entries : List BundleEntry} (hcanonical : Canonical none entries)
    (hlimits : limits.Allow codecs entries) :
    decodeBundle codecs (bundleBytes codecs entries) limits = .ok entries := by
  have hmaximum := limits.maximumEntries.toNat_lt
  have hcount := hlimits.count
  have hlength₄ := length_toLittleEndian 4 entries.length
  -- the fields of the header
  generalize hbody : entries.flatMap (Bundle.entry codecs) = body
  have hbytes : bundleBytes codecs entries = Bundle.MAGIC ++ (toLittleEndian 2 BUNDLE_VERSION
      ++ (toLittleEndian 2 0 ++ (toLittleEndian 4 entries.length ++ body))) := by
    rw [bundleBytes, header, hbody]
    simp only [List.append_assoc]
  have hmagic := slice_append [] Bundle.MAGIC (toLittleEndian 2 BUNDLE_VERSION
    ++ (toLittleEndian 2 0 ++ (toLittleEndian 4 entries.length ++ body)))
  have hversion := u16At_append Bundle.MAGIC (n := BUNDLE_VERSION) (by decide)
    (toLittleEndian 2 0 ++ (toLittleEndian 4 entries.length ++ body))
  have hflags := u16At_append (Bundle.MAGIC ++ toLittleEndian 2 BUNDLE_VERSION) (n := 0) (by decide)
    (toLittleEndian 4 entries.length ++ body)
  have hentries := u32At_append (Bundle.MAGIC
    ++ (toLittleEndian 2 BUNDLE_VERSION ++ toLittleEndian 2 0))
    (n := entries.length) (by omega) body
  simp only [List.append_assoc] at hflags hentries
  rw [List.nil_append, ← hbytes] at hmagic
  rw [← hbytes] at hversion hflags hentries
  have hdrop : (bundleBytes codecs entries).drop HEADER_BYTES
      = entries.flatMap (Bundle.entry codecs) ++ [] := by
    have hfront : (header entries.length).length = HEADER_BYTES := by
      simp [header, Bundle.MAGIC, length_toLittleEndian, HEADER_BYTES]
    rw [bundleBytes, ← hfront, List.drop_left, List.append_nil]
  have hsize : (bundleBytes codecs entries).length
      = HEADER_BYTES + (entries.flatMap (Bundle.entry codecs)).length := by
    simp [bundleBytes, header, Bundle.MAGIC, length_toLittleEndian, HEADER_BYTES]
    omega
  have htotal : 0 + (entries.map fun e => e.bytes.length).sum ≤ limits.maximumTotalBytes.toNat := by
    rw [Nat.zero_add]
    exact hlimits.total
  have hloop := decodeEntries_entries hdrop (by omega) hlimits.size hcanonical hlimits.entry htotal
  refine ofResult_bind_eq_ok_iff.mpr ⟨by omega, ?_⟩
  refine Except.bind_eq_ok_iff.mpr ⟨_, hmagic, ofResult_bind_eq_ok_iff.mpr ⟨rfl, ?_⟩⟩
  refine Except.bind_eq_ok_iff.mpr ⟨_, hversion, ofResult_bind_eq_ok_iff.mpr ⟨rfl, ?_⟩⟩
  refine Except.bind_eq_ok_iff.mpr ⟨_, hflags, ofResult_bind_eq_ok_iff.mpr ⟨rfl, ?_⟩⟩
  refine Except.bind_eq_ok_iff.mpr ⟨_, hentries, ofResult_bind_eq_ok_iff.mpr ⟨hcount, ?_⟩⟩
  refine Except.bind_eq_ok_iff.mpr ⟨_, hloop, ofResult_bind_eq_ok_iff.mpr ⟨hsize.symm, rfl⟩⟩

end Entries

/-! ### The round trips -/

/-- Limits allow for entries in any order. -/
theorem BundleDecodeLimits.Allow.perm {limits : BundleDecodeLimits} {codecs : Codecs}
    {entries entries' : List BundleEntry} (h : limits.Allow codecs entries)
    (hperm : entries'.Perm entries) : limits.Allow codecs entries' where
  count := hperm.length_eq ▸ h.count
  entry e he := h.entry e (hperm.mem_iff.mp he)
  total := (hperm.map fun e => e.bytes.length).sum_nat ▸ h.total
  size := by
    have hbody := (hperm.flatMap_right (Bundle.entry codecs)).length_eq
    rw [bundleBytes, List.length_append, hbody, hperm.length_eq, ← List.length_append]
    exact h.size

/-- **The bundle codec.**  Valid entries with distinct paths come back sorted; what the decoder
accepts is the encoding of what it returns; it never reads outside of its input; and a stream whose
calls all return `Ok` has the bytes of the encoding of its entries. -/
theorem bundle_codec (codecs : Codecs) :
    (∀ entries limits, (∀ e ∈ entries, isArchivePath e.path = true) →
        (entries.map BundleEntry.path).Nodup → limits.Allow codecs entries →
        ∃ bytes, encodeBundle codecs entries = .ok bytes
          ∧ decodeBundle codecs bytes limits = .ok (sortByPath entries))
      ∧ (∀ bytes limits entries, decodeBundle codecs bytes limits = .ok entries →
          encodeBundle codecs entries = .ok bytes)
      ∧ (∀ bytes limits, decodeBundle codecs bytes limits ≠ .error .outOfBounds)
      ∧ ∀ (W : Type) [Write W] (received : Received W) (writer writer' : W) (entryCount : UInt32)
          (calls : List EntryWrite), streamBundle codecs writer entryCount calls = .ok writer' →
          ∃ bytes, encodeBundle codecs (calls.map EntryWrite.entry) = .ok bytes
            ∧ received.bytes writer' = received.bytes writer ++ bytes := by
  refine ⟨fun entries limits hvalid hdistinct hlimits => ?_,
    fun bytes limits entries hdecoded => ?_,
    fun bytes limits => decodeBundle_inBounds codecs bytes limits, ?_⟩
  · have hmaximum := limits.maximumEntries.toNat_lt
    have hcount := hlimits.count
    have hfits : ∀ e ∈ entries, isArchivePath e.path = true ∧ e.bytes.length < 2 ^ 64 := by
      intro e he
      have hentry := hlimits.entry e he
      have hmaximum' := limits.maximumEntryBytes.toNat_lt
      exact ⟨hvalid e he, by omega⟩
    have hsorted : limits.Allow codecs (sortByPath entries) :=
      hlimits.perm (List.mergeSort_perm _ _)
    exact ⟨_, encodeBundle_ok hfits hdistinct (by omega),
      decodeBundle_bundleBytes (canonical_sortByPath hfits hdistinct) hsorted⟩
  · obtain ⟨hbytes, hcanonical, hcount⟩ := decodeBundle_ok hdecoded
    rw [hcanonical.encodeBundle hcount, ← hbytes]
  · intro W _ received writer writer' entryCount calls hstream
    obtain ⟨hcanonical, hcount, hbytes⟩ := streamBundle_ok received hstream
    have hlength : (calls.map EntryWrite.entry).length < 2 ^ 32 := by
      rw [List.length_map, hcount]
      exact entryCount.toNat_lt
    exact ⟨_, hcanonical.encodeBundle hlength, hbytes⟩

namespace Sample

def bundleLimits : BundleDecodeLimits := ⟨10, 100, 100⟩

/-- Two entries, the later one in front. -/
def bundleEntries : List BundleEntry :=
  [⟨utf8 "z", [2], by decide⟩, ⟨utf8 "a/b", output, by decide⟩]

def bundleVec : Received Bytes where
  bytes written := written
  writeAll h := (Except.ok.inj h).symm

/-- The same entries in order, the second one from a reader that returns it in two parts. -/
def bundleCalls : List EntryWrite :=
  [.direct ⟨utf8 "a/b", output, by decide⟩,
    .prehashed (utf8 "z") (by decide) 2 (codecs.blake3 [2, 3]) [.ok [2], .ok [3]]]

theorem bundleStream : streamBundle codecs ([] : Bytes) 2 bundleCalls
    = .ok (bundleBytes codecs (bundleCalls.map EntryWrite.entry)) := by decide +kernel

theorem bundleDecoded :
    decodeBundle codecs (bundleBytes codecs (bundleCalls.map EntryWrite.entry)) bundleLimits
      = .ok (bundleCalls.map EntryWrite.entry) := by
  decide +kernel

end Sample

theorem bundle_codec_sample :
    (∃ bytes, encodeBundle Sample.codecs Sample.bundleEntries = .ok bytes
        ∧ decodeBundle Sample.codecs bytes Sample.bundleLimits
          = .ok (sortByPath Sample.bundleEntries))
      ∧ encodeBundle Sample.codecs (Sample.bundleCalls.map EntryWrite.entry)
        = .ok (bundleBytes Sample.codecs (Sample.bundleCalls.map EntryWrite.entry))
      ∧ ∃ bytes, encodeBundle Sample.codecs (Sample.bundleCalls.map EntryWrite.entry) = .ok bytes
        ∧ bundleBytes Sample.codecs (Sample.bundleCalls.map EntryWrite.entry) = [] ++ bytes :=
  ⟨(bundle_codec Sample.codecs).1 Sample.bundleEntries Sample.bundleLimits (by decide) (by decide)
      ⟨by decide, by decide, by decide, by decide +kernel⟩,
    (bundle_codec Sample.codecs).2.1 _ _ _ Sample.bundleDecoded,
    (bundle_codec Sample.codecs).2.2.2 Bytes Sample.bundleVec _ _ 2 _ Sample.bundleStream⟩

end Rewind
