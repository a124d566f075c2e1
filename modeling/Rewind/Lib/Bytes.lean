/-
Byte strings.

Text and path names are the bytes of their UTF-8 form, as an operating system
passes them; byte strings are ordered lexicographically.

* `validUtf8` — the well-formed UTF-8 byte strings;
* `toHex` — the lower-case hexadecimal text of a byte string.
-/
import Mathlib.Data.List.Lex
import Mathlib.Data.UInt

/-- A string of bytes. -/
abbrev Bytes := List UInt8

instance instLinearOrderUInt8 : LinearOrder UInt8 where
  le_refl a := UInt8.le_refl a
  le_trans _ _ _ hab hbc := UInt8.le_trans hab hbc
  le_antisymm _ _ hab hba := UInt8.le_antisymm hab hba
  le_total a b := UInt8.le_total a b
  lt_iff_le_not_ge a b := by
    rw [UInt8.le_iff_toNat_le, UInt8.le_iff_toNat_le, UInt8.lt_iff_toNat_lt]
    exact lt_iff_le_not_ge
  toDecidableLE := inferInstance
  toDecidableEq := inferInstance
  toDecidableLT := inferInstance

instance instLawfulBEqUInt8 : LawfulBEq UInt8 := inferInstance

/-- The UTF-8 bytes of a text. -/
def utf8 (s : String) : Bytes := s.toUTF8.data.toList

/-! ### UTF-8 -/

/-- A continuation byte of a multi-byte character. -/
def isContinuation (b : UInt8) : Bool := decide (0x80 ≤ b ∧ b ≤ 0xBF)

/-- The byte strings that are UTF-8 text: no overlong form, no surrogate and
nothing above U+10FFFF. -/
def validUtf8 : Bytes → Bool
  | [] => true
  | a :: rest =>
    if a < 0x80 then
      validUtf8 rest
    else
      match rest with
      | [] => false
      | b :: rest =>
        if 0xC2 ≤ a ∧ a ≤ 0xDF then
          isContinuation b && validUtf8 rest
        else
          match rest with
          | [] => false
          | c :: rest =>
            if 0xE0 ≤ a ∧ a ≤ 0xEF then
              isContinuation b && isContinuation c
                && decide (a = 0xE0 → 0xA0 ≤ b) && decide (a = 0xED → b ≤ 0x9F)
                && validUtf8 rest
            else
              match rest with
              | [] => false
              | d :: rest =>
                if 0xF0 ≤ a ∧ a ≤ 0xF4 then
                  isContinuation b && isContinuation c && isContinuation d
                    && decide (a = 0xF0 → 0x90 ≤ b) && decide (a = 0xF4 → b ≤ 0x8F)
                    && validUtf8 rest
                else
                  false

/-- ASCII bytes are UTF-8 text. -/
theorem validUtf8_of_ascii {bs : Bytes} (h : ∀ b ∈ bs, b < 0x80) : validUtf8 bs = true := by
  induction bs with
  | nil => rfl
  | cons b bs ih =>
    obtain ⟨hb, hbs⟩ := List.forall_mem_cons.mp h
    rw [validUtf8.eq_def]
    show (if b < 0x80 then validUtf8 bs else _) = true
    rw [if_pos hb]
    exact ih hbs

/-- The bytes of a text are those of its characters. -/
theorem utf8_eq_flatMap (s : String) : utf8 s = s.toList.flatMap String.utf8EncodeChar := by
  show s.toByteArray.data.toList = _
  rw [← String.utf8Encode_toList]
  simp [List.utf8Encode]

theorem toNat_high {n : Nat} (h : 0x80 ≤ n) (h' : n < 256) : 0x80 ≤ (UInt8.ofNat n).toNat := by
  rw [UInt8.toNat_ofNat', Nat.mod_eq_of_lt (show n < 2 ^ 8 from h')]
  exact h

/-- A byte of a character is its code, or one of several bytes above the ASCII codes. -/
theorem mem_utf8EncodeChar {c : Char} {b : UInt8} (h : b ∈ String.utf8EncodeChar c) :
    b.toNat = c.toNat ∨ 0x80 ≤ b.toNat := by
  have hc : c.toNat = c.val.toNat := rfl
  unfold String.utf8EncodeChar at h
  dsimp only at h
  by_cases hone : c.val.toNat ≤ 0x7F
  · rw [if_pos hone, List.mem_singleton] at h
    subst h
    left
    rw [UInt8.toNat_ofNat', hc, Nat.mod_eq_of_lt (show c.val.toNat < 2 ^ 8 by omega)]
  · right
    rw [if_neg hone] at h
    split at h
    · simp only [List.mem_cons, List.not_mem_nil, or_false] at h
      rcases h with rfl | rfl <;> exact toNat_high (by omega) (by omega)
    · split at h
      · simp only [List.mem_cons, List.not_mem_nil, or_false] at h
        rcases h with rfl | rfl | rfl <;> exact toNat_high (by omega) (by omega)
      · simp only [List.mem_cons, List.not_mem_nil, or_false] at h
        rcases h with rfl | rfl | rfl | rfl <;> exact toNat_high (by omega) (by omega)

theorem utf8_eq_nil_iff {s : String} : utf8 s = [] ↔ s = "" := by
  rw [utf8_eq_flatMap, List.flatMap_eq_nil_iff]
  constructor
  · intro hnone
    have hlist : s.toList = [] := by
      rw [List.eq_nil_iff_forall_not_mem]
      intro c hc
      have hlength := congrArg List.length (hnone c hc)
      rw [String.length_utf8EncodeChar, List.length_nil] at hlength
      have hpos := Char.utf8Size_pos c
      omega
    exact String.toList_eq_nil_iff.mp hlist
  · rintro rfl c hc
    exact absurd hc (by simp)

/-- The UTF-8 form of U+FFFD. -/
def replacement : Bytes := [0xEF, 0xBF, 0xBD]

/-- Whether `b` can be the second byte of a character that starts with `a`. -/
def isSecond (a b : UInt8) : Bool :=
  isContinuation b && decide (a = 0xE0 → 0xA0 ≤ b) && decide (a = 0xED → b ≤ 0x9F)
    && decide (a = 0xF0 → 0x90 ≤ b) && decide (a = 0xF4 → b ≤ 0x8F)

/-- `to_string_lossy`: each longest start of a character that breaks off, and each byte that
starts none, becomes U+FFFD. -/
def toStringLossy : Bytes → Bytes
  | [] => []
  | a :: rest =>
    if a < 0x80 then
      a :: toStringLossy rest
    else if a < 0xC2 ∨ 0xF4 < a then
      replacement ++ toStringLossy rest
    else
      match rest with
      | [] => replacement
      | b :: tail =>
        if isSecond a b = false then
          replacement ++ toStringLossy (b :: tail)
        else if a ≤ 0xDF then
          a :: b :: toStringLossy tail
        else
          match tail with
          | [] => replacement
          | c :: tail =>
            if isContinuation c = false then
              replacement ++ toStringLossy (c :: tail)
            else if a ≤ 0xEF then
              a :: b :: c :: toStringLossy tail
            else
              match tail with
              | [] => replacement
              | d :: tail =>
                if isContinuation d = false then
                  replacement ++ toStringLossy (d :: tail)
                else
                  a :: b :: c :: d :: toStringLossy tail

/-- No text gets shorter. -/
theorem length_le_toStringLossy (bs : Bytes) : bs.length ≤ (toStringLossy bs).length := by
  fun_induction toStringLossy bs <;> simp [replacement] at * <;> omega

/-- A text that is read from its UTF-8 form has that form. -/
theorem utf8_of_fromUTF8? {bs : Bytes} {s : String} (h : String.fromUTF8? ⟨bs.toArray⟩ = some s) :
    utf8 s = bs := by
  unfold String.fromUTF8? at h
  split at h
  · rw [← Option.some.inj h]
    rfl
  · exact absurd h (by simp)

theorem fromUTF8?_utf8 (s : String) : String.fromUTF8? ⟨(utf8 s).toArray⟩ = some s := by
  have hbytes : (⟨(utf8 s).toArray⟩ : ByteArray) = s.toByteArray := rfl
  rw [hbytes]
  unfold String.fromUTF8?
  split
  · rfl
  · rename_i hinvalid
    exact absurd s.isValidUTF8 hinvalid

theorem utf8_injective {s t : String} (h : utf8 s = utf8 t) : s = t := by
  have hread := fromUTF8?_utf8 s
  rw [h, fromUTF8?_utf8 t] at hread
  exact (Option.some.inj hread).symm

/-- The text whose UTF-8 form is `bs`; empty when there is none. -/
def decodeUtf8 (bs : Bytes) : String := (String.fromUTF8? ⟨bs.toArray⟩).getD ""

example : validUtf8 (utf8 "é/文件") = true := by decide

example : validUtf8 [0xC0, 0x80] = false := by decide

example : toStringLossy [97, 0xE2, 0x82, 98] = 97 :: replacement ++ [98] := by decide

/-! ### Paths -/

/-- The byte `/`. -/
def slash : UInt8 := 47

/-- The `/`-separated components of a text. -/
def splitSlash : Bytes → List Bytes
  | [] => [[]]
  | b :: rest =>
    if b = slash then
      [] :: splitSlash rest
    else
      match splitSlash rest with
      | [] => [[b]]
      | c :: cs => (b :: c) :: cs

theorem splitSlash_ne_nil (bs : Bytes) : splitSlash bs ≠ [] := by
  fun_cases splitSlash bs <;> simp

/-- A text without a slash is its only component. -/
theorem splitSlash_of_not_mem {bs : Bytes} (h : slash ∉ bs) : splitSlash bs = [bs] := by
  induction bs with
  | nil => rfl
  | cons b rest ih =>
    obtain ⟨hb, hrest⟩ := List.ne_and_not_mem_of_not_mem_cons h
    rw [splitSlash, if_neg (Ne.symm hb), ih hrest]

/-- A slash ends a component. -/
theorem splitSlash_append (xs ys : Bytes) :
    splitSlash (xs ++ slash :: ys) = splitSlash xs ++ splitSlash ys := by
  induction xs with
  | nil => simp [splitSlash]
  | cons b rest ih =>
    rw [List.cons_append, splitSlash, splitSlash, ih]
    by_cases hb : b = slash
    · rw [if_pos hb, if_pos hb]
      rfl
    · rw [if_neg hb, if_neg hb]
      rcases hsplit : splitSlash rest with _ | ⟨c, cs⟩
      · exact absurd hsplit (splitSlash_ne_nil rest)
      · rfl

/-- A component has the bytes of the text that are no slashes. -/
theorem of_mem_splitSlash {bs component : Bytes} {b : UInt8} (hc : component ∈ splitSlash bs)
    (hb : b ∈ component) : b ∈ bs ∧ b ≠ slash := by
  induction bs generalizing component with
  | nil =>
    obtain rfl := List.mem_singleton.mp hc
    exact absurd hb List.not_mem_nil
  | cons first rest ih =>
    rw [splitSlash] at hc
    by_cases hfirst : first = slash
    · rw [if_pos hfirst] at hc
      rcases List.mem_cons.mp hc with rfl | hlater
      · exact absurd hb List.not_mem_nil
      · exact ⟨List.mem_cons_of_mem _ (ih hlater hb).1, (ih hlater hb).2⟩
    · rw [if_neg hfirst] at hc
      rcases hsplit : splitSlash rest with _ | ⟨c, cs⟩
      · exact absurd hsplit (splitSlash_ne_nil rest)
      · rw [hsplit] at hc ih
        rcases List.mem_cons.mp hc with rfl | hlater
        · rcases List.mem_cons.mp hb with rfl | hrest
          · exact ⟨List.mem_cons_self, hfirst⟩
          · have hboth := ih List.mem_cons_self hrest
            exact ⟨List.mem_cons_of_mem _ hboth.1, hboth.2⟩
        · have hboth := ih (List.mem_cons_of_mem _ hlater) hb
          exact ⟨List.mem_cons_of_mem _ hboth.1, hboth.2⟩

/-- The components joined by slashes are the text. -/
theorem intercalate_splitSlash (bs : Bytes) : [slash].intercalate (splitSlash bs) = bs := by
  induction bs with
  | nil => rfl
  | cons b rest ih =>
    rw [splitSlash]
    rcases hsplit : splitSlash rest with _ | ⟨c, cs⟩
    · exact absurd hsplit (splitSlash_ne_nil rest)
    · rw [hsplit] at ih
      by_cases hb : b = slash
      · rw [if_pos hb, hb, List.intercalate_cons_cons, ih]
        rfl
      · rw [if_neg hb]
        rcases cs with _ | ⟨d, ds⟩
        · rw [List.intercalate_singleton] at ih ⊢
          rw [ih]
        · rw [List.intercalate_cons_cons] at ih ⊢
          rw [← ih]
          rfl

theorem splitSlash_injective {xs ys : Bytes} (h : splitSlash xs = splitSlash ys) : xs = ys := by
  rw [← intercalate_splitSlash xs, h, intercalate_splitSlash]

/-! ### Hexadecimal text -/

/-- The lower-case digit of a number below 16. -/
def hexDigit (n : UInt8) : UInt8 := if n < 10 then 48 + n else 87 + n

/-- The two digits of a byte, the high half first. -/
def hexByte (b : UInt8) : Bytes := [hexDigit (b / 16), hexDigit (b % 16)]

/-- The hexadecimal text of a byte string. -/
def toHex (bs : Bytes) : Bytes := bs.flatMap hexByte

@[simp] theorem toHex_nil : toHex [] = [] := rfl

@[simp] theorem toHex_cons (b : UInt8) (bs : Bytes) : toHex (b :: bs) = hexByte b ++ toHex bs :=
  rfl

theorem length_toHex (bs : Bytes) : (toHex bs).length = 2 * bs.length := by
  induction bs with
  | nil => rfl
  | cons b bs ih =>
    rw [toHex_cons, List.length_append, ih, List.length_cons]
    simp only [hexByte, List.length_cons, List.length_nil]
    omega

/-- The characters of an ASCII byte string. -/
def asciiString (bs : Bytes) : String := String.ofList (bs.map fun b => Char.ofNat b.toNat)

theorem hexDigit_lt_iff : ∀ i j : Fin 16,
    hexDigit (UInt8.ofNat i.val) < hexDigit (UInt8.ofNat j.val) ↔ i < j := by decide

/-- The halves of a byte are numbers below 16. -/
theorem half_eq (b : UInt8) :
    ∃ i j : Fin 16, b / 16 = UInt8.ofNat i.val ∧ b % 16 = UInt8.ofNat j.val
      ∧ b.toNat = 16 * i.val + j.val := by
  have hlt := b.toNat_lt
  refine ⟨⟨b.toNat / 16, by omega⟩, ⟨b.toNat % 16, by omega⟩, ?_, ?_, ?_⟩
  · exact UInt8.toNat_inj.mp (by simp [UInt8.toNat_div]; omega)
  · exact UInt8.toNat_inj.mp (by simp [UInt8.toNat_mod]; omega)
  · show b.toNat = 16 * (b.toNat / 16) + b.toNat % 16
    omega

/-- Two digits compare as their byte does. -/
theorem hexByte_append_lt_iff (a b : UInt8) (xs ys : Bytes) :
    hexByte a ++ xs < hexByte b ++ ys ↔ a < b ∨ (a = b ∧ xs < ys) := by
  obtain ⟨i, j, hi, hj, ha⟩ := half_eq a
  obtain ⟨k, l, hk, hl, hb⟩ := half_eq b
  have hdigit : ∀ m n : Fin 16,
      hexDigit (UInt8.ofNat m.val) = hexDigit (UInt8.ofNat n.val) ↔ m = n := by decide
  have hlt : a < b ↔ i < k ∨ (i = k ∧ j < l) := by
    rw [UInt8.lt_iff_toNat_lt, ha, hb, Fin.lt_def, Fin.lt_def, Fin.ext_iff]
    omega
  have heq : a = b ↔ i = k ∧ j = l := by
    rw [← UInt8.toNat_inj, ha, hb, Fin.ext_iff, Fin.ext_iff]
    omega
  simp only [hexByte, hi, hj, hk, hl, List.cons_append, List.nil_append, List.cons_lt_cons_iff,
    hexDigit_lt_iff, hdigit]
  rw [hlt, heq]
  tauto

/-- Hexadecimal text is ordered as the bytes it stands for. -/
theorem toHex_lt_iff (xs ys : Bytes) : toHex xs < toHex ys ↔ xs < ys := by
  induction xs generalizing ys with
  | nil =>
    cases ys with
    | nil => simp
    | cons y ys => simp [hexByte]
  | cons x xs ih =>
    cases ys with
    | nil => simp
    | cons y ys => rw [toHex_cons, toHex_cons, hexByte_append_lt_iff, ih, List.cons_lt_cons_iff]

theorem toHex_injective {xs ys : Bytes} (h : toHex xs = toHex ys) : xs = ys := by
  have hxy : ¬ xs < ys := by
    rw [← toHex_lt_iff, h]
    exact lt_irrefl _
  have hyx : ¬ ys < xs := by
    rw [← toHex_lt_iff, h]
    exact lt_irrefl _
  exact le_antisymm (not_lt.mp hyx) (not_lt.mp hxy)

/-- The number a lower-case digit stands for. -/
def hexNibble (b : UInt8) : Option UInt8 :=
  if 48 ≤ b ∧ b ≤ 57 then some (b - 48)
  else if 97 ≤ b ∧ b ≤ 102 then some (b - 97 + 10)
  else none

/-- The byte string a hexadecimal text stands for. -/
def ofHex : Bytes → Option Bytes
  | [] => some []
  | [_] => none
  | high :: low :: rest => do
    let high ← hexNibble high
    let low ← hexNibble low
    let bytes ← ofHex rest
    return (high <<< 4 ||| low) :: bytes

theorem hexNibble_digit : ∀ i : Fin 16,
    hexNibble (hexDigit (UInt8.ofNat i.val)) = some (UInt8.ofNat i.val) := by decide

theorem hexByte_nibbles : ∀ i j : Fin 16,
    hexByte (UInt8.ofNat i.val <<< 4 ||| UInt8.ofNat j.val)
      = [hexDigit (UInt8.ofNat i.val), hexDigit (UInt8.ofNat j.val)] := by decide

theorem hexNibble_some {b n : UInt8} (h : hexNibble b = some n) :
    ∃ i : Fin 16, n = UInt8.ofNat i.val ∧ b = hexDigit (UInt8.ofNat i.val) := by
  have hall : ∀ k : Fin 256, hexNibble (UInt8.ofNat k.val) = none
      ∨ ∃ i : Fin 16, hexNibble (UInt8.ofNat k.val) = some (UInt8.ofNat i.val)
        ∧ UInt8.ofNat k.val = hexDigit (UInt8.ofNat i.val) := by decide +kernel
  have hb : b = UInt8.ofNat (⟨b.toNat, b.toNat_lt⟩ : Fin 256).val := by simp
  rcases hall ⟨b.toNat, b.toNat_lt⟩ with hnone | ⟨i, hsome, hdigit⟩
  · rw [← hb, h] at hnone
    exact absurd hnone (by simp)
  · rw [← hb, h] at hsome
    rw [← hb] at hdigit
    exact ⟨i, Option.some.inj hsome, hdigit⟩

/-- A text that parses is the text of what it parses to. -/
theorem toHex_of_ofHex {text bytes : Bytes} (h : ofHex text = some bytes) : toHex bytes = text := by
  induction text using ofHex.induct generalizing bytes with
  | case1 => simp_all [ofHex]
  | case2 _ => simp [ofHex] at h
  | case3 high low rest ih =>
    rw [ofHex] at h
    obtain ⟨n, hn, h⟩ := Option.bind_eq_some_iff.mp h
    obtain ⟨m, hm, h⟩ := Option.bind_eq_some_iff.mp h
    obtain ⟨tail, htail, h⟩ := Option.bind_eq_some_iff.mp h
    obtain rfl := Option.some.inj h
    obtain ⟨i, rfl, rfl⟩ := hexNibble_some hn
    obtain ⟨j, rfl, rfl⟩ := hexNibble_some hm
    rw [toHex_cons, hexByte_nibbles, ih htail]
    rfl

/-- Every hexadecimal text parses. -/
theorem ofHex_toHex (bytes : Bytes) : ofHex (toHex bytes) = some bytes := by
  induction bytes with
  | nil => rfl
  | cons b rest ih =>
    obtain ⟨i, j, hi, hj, -⟩ := half_eq b
    have hcons : ofHex (toHex (b :: rest))
        = some ((UInt8.ofNat i.val <<< 4 ||| UInt8.ofNat j.val) :: rest) := by
      rw [toHex_cons, hexByte, hi, hj]
      show (do
        let high ← hexNibble (hexDigit (UInt8.ofNat i.val))
        let low ← hexNibble (hexDigit (UInt8.ofNat j.val))
        let bytes ← ofHex (toHex rest)
        return (high <<< 4 ||| low) :: bytes) = _
      rw [hexNibble_digit, hexNibble_digit, ih]
      rfl
    have hback := toHex_of_ofHex hcons
    rw [hcons, ← toHex_injective hback]

/-! ### Numbers in bytes -/

/-- The `width` low bytes of `n`, the lowest first. -/
def toLittleEndian : Nat → Nat → Bytes
  | 0, _ => []
  | width + 1, n => UInt8.ofNat (n % 256) :: toLittleEndian width (n / 256)

def ofLittleEndian : Bytes → Nat
  | [] => 0
  | b :: bs => b.toNat + 256 * ofLittleEndian bs

theorem length_toLittleEndian (width n : Nat) : (toLittleEndian width n).length = width := by
  induction width generalizing n with
  | zero => rfl
  | succ width ih => rw [toLittleEndian, List.length_cons, ih]

theorem ofLittleEndian_toLittleEndian {width n : Nat} (h : n < 256 ^ width) :
    ofLittleEndian (toLittleEndian width n) = n := by
  induction width generalizing n with
  | zero =>
    rw [pow_zero] at h
    rw [toLittleEndian, ofLittleEndian]
    omega
  | succ width ih =>
    have hrest : n / 256 < 256 ^ width := by
      rw [pow_succ] at h
      exact Nat.div_lt_of_lt_mul (by rwa [Nat.mul_comm])
    have hbyte : (UInt8.ofNat (n % 256)).toNat = n % 256 := by simp
    rw [toLittleEndian, ofLittleEndian, ih hrest, hbyte]
    omega

theorem ofLittleEndian_lt (bs : Bytes) : ofLittleEndian bs < 256 ^ bs.length := by
  induction bs with
  | nil => exact Nat.one_pos
  | cons b bs ih =>
    have hlt := b.toNat_lt
    rw [ofLittleEndian, List.length_cons, pow_succ]
    omega

theorem toLittleEndian_ofLittleEndian (bs : Bytes) :
    toLittleEndian bs.length (ofLittleEndian bs) = bs := by
  induction bs with
  | nil => rfl
  | cons b bs ih =>
    have hlt := b.toNat_lt
    have hmod : (b.toNat + 256 * ofLittleEndian bs) % 256 = b.toNat := by omega
    have hdiv : (b.toNat + 256 * ofLittleEndian bs) / 256 = ofLittleEndian bs := by omega
    rw [List.length_cons, toLittleEndian, ofLittleEndian, hmod, hdiv, ih, UInt8.ofNat_toNat]
