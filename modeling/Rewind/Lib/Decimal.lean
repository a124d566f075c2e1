/-
Decimal text.

Integers are written without a sign that says nothing and without leading zeros.  They are read as
`str::parse` reads them: one optional sign, at least one digit, and a bound that is checked with
every digit.

* `decimal`, `signedDecimal` — the texts;
* `parseInteger` — the reading;
* `parseInteger_signedDecimal` — a text that was written is read back;
* `decimal_digitsValue` — digits without a leading zero are the text of their value.
-/
import Rewind.Lib.Bytes
import Mathlib.Tactic.Ring

/-! ### Writing -/

def isAsciiDigit (b : UInt8) : Bool := decide (48 ≤ b ∧ b ≤ 57)

/-- `Display` of an unsigned integer. -/
def decimal (n : Nat) : Bytes := (Nat.toDigits 10 n).map fun c => UInt8.ofNat c.toNat

/-- `Display` of a signed integer. -/
def signedDecimal (i : Int) : Bytes :=
  if i < 0 then 45 :: decimal i.natAbs else decimal i.natAbs

theorem digit_byte : ∀ n : Fin 10,
    UInt8.ofNat (Nat.digitChar n.val).toNat = UInt8.ofNat (48 + n.val)
    ∧ isAsciiDigit (UInt8.ofNat (48 + n.val)) = true
    ∧ (UInt8.ofNat (48 + n.val)).toNat - 48 = n.val := by decide

theorem decimal_of_lt {n : Nat} (h : n < 10) : decimal n = [UInt8.ofNat (48 + n)] := by
  rw [decimal, Nat.toDigits_of_lt_base h, List.map_singleton, (digit_byte ⟨n, h⟩).1]

/-- A further digit. -/
theorem decimal_step {n d : Nat} (hn : 0 < n) (hd : d < 10) :
    decimal (10 * n + d) = decimal n ++ [UInt8.ofNat (48 + d)] := by
  rw [decimal, ← Nat.toDigits_append_toDigits (by decide) hn hd, List.map_append, ← decimal,
    ← decimal, decimal_of_lt hd]

/-- The digits of a number, from the last one on. -/
theorem decimal_induction {p : Nat → Prop} (hsmall : ∀ d < 10, p d)
    (hstep : ∀ n d, 0 < n → d < 10 → p n → p (10 * n + d)) (n : Nat) : p n := by
  induction n using Nat.strong_induction_on with
  | _ n ih =>
    by_cases hn : n < 10
    · exact hsmall n hn
    · have hdivmod : 10 * (n / 10) + n % 10 = n := Nat.div_add_mod n 10
      have hprevious : p (n / 10) := ih (n / 10) (by omega)
      have hresult := hstep (n / 10) (n % 10) (by omega) (by omega) hprevious
      rw [hdivmod] at hresult
      exact hresult

theorem isAsciiDigit_decimal (n : Nat) : ∀ b ∈ decimal n, isAsciiDigit b = true := by
  induction n using decimal_induction with
  | hsmall d hd =>
    intro b hb
    rw [decimal_of_lt hd] at hb
    obtain rfl := List.mem_singleton.mp hb
    exact (digit_byte ⟨d, hd⟩).2.1
  | hstep n d hn hd ih =>
    intro b hb
    rw [decimal_step hn hd] at hb
    rcases List.mem_append.mp hb with hearlier | hlast
    · exact ih b hearlier
    · obtain rfl := List.mem_singleton.mp hlast
      exact (digit_byte ⟨d, hd⟩).2.1

theorem decimal_ne_nil (n : Nat) : decimal n ≠ [] := by
  rw [decimal, Ne, List.map_eq_nil_iff]
  exact Nat.toDigits_ne_nil

/-- The first digit is a zero for zero only. -/
theorem head?_decimal {n : Nat} (h : 0 < n) : (decimal n).head? ≠ some 48 := by
  induction n using decimal_induction with
  | hsmall d hd =>
    have hall : ∀ d : Fin 10, 0 < d.val → UInt8.ofNat (48 + d.val) ≠ 48 := by decide
    rw [decimal_of_lt hd, List.head?_singleton]
    exact fun hzero => hall ⟨d, hd⟩ h (Option.some.inj hzero)
  | hstep n d hn hd ih =>
    rw [decimal_step hn hd, List.head?_append_of_ne_nil _ (decimal_ne_nil n)]
    exact ih hn

/-! ### Reading -/

/-- The number that digits stand for. -/
def digitsValue (digits : Bytes) : Nat := digits.foldl (fun n b => 10 * n + (b.toNat - 48)) 0

theorem digitsValue_append (digits : Bytes) (b : UInt8) :
    digitsValue (digits ++ [b]) = 10 * digitsValue digits + (b.toNat - 48) := by
  rw [digitsValue, List.foldl_append]
  rfl

theorem digitsValue_decimal (n : Nat) : digitsValue (decimal n) = n := by
  induction n using decimal_induction with
  | hsmall d hd =>
    have hlast : (UInt8.ofNat (48 + d)).toNat - 48 = d := (digit_byte ⟨d, hd⟩).2.2
    rw [decimal_of_lt hd]
    show 10 * 0 + ((UInt8.ofNat (48 + d)).toNat - 48) = d
    omega
  | hstep n d hn hd ih =>
    rw [decimal_step hn hd, digitsValue_append, ih, (digit_byte ⟨d, hd⟩).2.2]

/-- A digit by its value. -/
theorem exists_digit {b : UInt8} (h : isAsciiDigit b = true) :
    ∃ d, d < 10 ∧ b.toNat - 48 = d ∧ b = UInt8.ofNat (48 + d) := by
  have hrange : 48 ≤ b ∧ b ≤ 57 := of_decide_eq_true h
  have hlow : 48 ≤ b.toNat := UInt8.le_iff_toNat_le.mp hrange.1
  have hhigh : b.toNat ≤ 57 := UInt8.le_iff_toNat_le.mp hrange.2
  refine ⟨b.toNat - 48, by omega, rfl, ?_⟩
  have hback : 48 + (b.toNat - 48) = b.toNat := by omega
  rw [hback, UInt8.ofNat_toNat]

/-- Digits without a leading zero are the text of their value. -/
theorem decimal_digitsValue {digits : Bytes} (hne : digits ≠ [])
    (hdigits : ∀ b ∈ digits, isAsciiDigit b = true)
    (hzero : 1 < digits.length → digits.head? ≠ some 48) :
    decimal (digitsValue digits) = digits := by
  induction digits using List.reverseRecOn with
  | nil => exact absurd rfl hne
  | append_singleton earlier b ih =>
    obtain ⟨d, hd, hvalue, rfl⟩ := exists_digit (hdigits b (by simp))
    rw [digitsValue_append, hvalue]
    by_cases hfirst : earlier = []
    · rw [hfirst]
      show decimal (10 * 0 + d) = _
      rw [Nat.mul_zero, Nat.zero_add, decimal_of_lt hd, List.nil_append]
    · have hlong : 1 < (earlier ++ [UInt8.ofNat (48 + d)]).length := by
        have hpos := List.length_pos_iff.mpr hfirst
        rw [List.length_append, List.length_singleton]
        omega
      have hhead : earlier.head? ≠ some 48 := by
        have hwhole := hzero hlong
        rw [List.head?_append_of_ne_nil _ hfirst] at hwhole
        exact hwhole
      have hearlier : decimal (digitsValue earlier) = earlier :=
        ih hfirst (fun b hb => hdigits b (List.mem_append_left _ hb)) fun _ => hhead
      have hpos : 0 < digitsValue earlier := by
        by_contra hnot
        have hnothing : digitsValue earlier = 0 := by omega
        rw [hnothing, decimal_of_lt (by decide)] at hearlier
        rw [← hearlier] at hhead
        exact hhead rfl
      rw [decimal_step hpos hd, hearlier]

/-- The digits of an integer of the given sign, with every step in range. -/
def parseDigits (low high sign : Int) (digits : Bytes) : Option Int :=
  digits.foldlM (fun value b =>
    if isAsciiDigit b then
      let shifted := 10 * value
      let next := shifted + sign * ((b.toNat - 48 : Nat) : Int)
      if low ≤ shifted ∧ shifted ≤ high ∧ low ≤ next ∧ next ≤ high then some next else none
    else none) 0

/-- `str::parse` of an integer type; a minus is a sign only where the type has negative values. -/
def parseInteger (low high : Int) (text : Bytes) : Option Int :=
  match text with
  | [] => none
  | [43] => none
  | [45] => none
  | 43 :: digits => parseDigits low high 1 digits
  | 45 :: digits => if low < 0 then parseDigits low high (-1) digits else none
  | digits => parseDigits low high 1 digits

section Parsing

variable {low high sign : Int}

/-- What digits are read as. -/
theorem parseDigits_eq_some_iff (hlow : low ≤ 0) (hhigh : 0 ≤ high) (hsign : sign = 1 ∨ sign = -1)
    {digits : Bytes} {value : Int} :
    parseDigits low high sign digits = some value
      ↔ (∀ b ∈ digits, isAsciiDigit b = true) ∧ value = sign * digitsValue digits
        ∧ low ≤ value ∧ value ≤ high := by
  induction digits using List.reverseRecOn generalizing value with
  | nil =>
    constructor
    · intro h
      obtain rfl : 0 = value := Option.some.inj h
      exact ⟨by simp, by simp [digitsValue], hlow, hhigh⟩
    · rintro ⟨-, rfl, -⟩
      simp [parseDigits, digitsValue]
  | append_singleton earlier b ih =>
    have hlast : parseDigits low high sign (earlier ++ [b]) = some value
        ↔ ∃ before, parseDigits low high sign earlier = some before ∧ isAsciiDigit b = true
          ∧ low ≤ 10 * before ∧ 10 * before ≤ high ∧ low ≤ value ∧ value ≤ high
          ∧ value = 10 * before + sign * ((b.toNat - 48 : Nat) : Int) := by
      rw [parseDigits, List.foldlM_append, Option.bind_eq_bind, Option.bind_eq_some_iff,
        ← parseDigits]
      refine exists_congr fun before => and_congr_right fun _ => ?_
      rw [List.foldlM_cons, Option.bind_eq_bind, Option.bind_eq_some_iff]
      by_cases hb : isAsciiDigit b = true
      · simp only [hb, if_true, List.foldlM_nil, Option.pure_def, Option.some.injEq,
          exists_eq_right, true_and, Option.ite_none_right_eq_some]
        constructor
        · rintro ⟨⟨h1, h2, h3, h4⟩, rfl⟩
          exact ⟨h1, h2, h3, h4, rfl⟩
        · rintro ⟨h1, h2, h3, h4, rfl⟩
          exact ⟨⟨h1, h2, h3, h4⟩, rfl⟩
      · simp [hb]
    have hvalue : sign * (digitsValue (earlier ++ [b]) : Int)
        = 10 * (sign * digitsValue earlier) + sign * ((b.toNat - 48 : Nat) : Int) := by
      rw [digitsValue_append]
      push_cast
      ring
    rw [hlast]
    constructor
    · rintro ⟨before, hbefore, hb, -, -, h3, h4, rfl⟩
      obtain ⟨hdigits, rfl, -, -⟩ := ih.mp hbefore
      refine ⟨fun c hc => ?_, hvalue.symm, h3, h4⟩
      rcases List.mem_append.mp hc with hearlier | hlater
      · exact hdigits c hearlier
      · exact List.mem_singleton.mp hlater ▸ hb
    · rintro ⟨hdigits, rfl, h3, h4⟩
      have hearlier : ∀ c ∈ earlier, isAsciiDigit c = true :=
        fun c hc => hdigits c (List.mem_append_left _ hc)
      -- every prefix of the digits is nearer to zero
      rw [hvalue] at h3 h4 ⊢
      have hbounds : low ≤ sign * (digitsValue earlier : Int)
          ∧ sign * (digitsValue earlier : Int) ≤ high
          ∧ low ≤ 10 * (sign * (digitsValue earlier : Int))
          ∧ 10 * (sign * (digitsValue earlier : Int)) ≤ high := by
        rcases hsign with rfl | rfl
        · omega
        · omega
      exact ⟨_, ih.mpr ⟨hearlier, rfl, hbounds.1, hbounds.2.1⟩, hdigits b (by simp), hbounds.2.2.1,
        hbounds.2.2.2, h3, h4, rfl⟩

/-- Without a sign all of the text is digits. -/
theorem parseInteger_of_digits {digits : Bytes} (hne : digits ≠ [])
    (h : ∀ b ∈ digits, isAsciiDigit b = true) :
    parseInteger low high digits = parseDigits low high 1 digits := by
  obtain ⟨first, rest, rfl⟩ := List.exists_cons_of_ne_nil hne
  have hfirst : isAsciiDigit first = true := h first List.mem_cons_self
  have hplus : first ≠ 43 := by
    rintro rfl
    exact absurd hfirst (by decide)
  have hminus : first ≠ 45 := by
    rintro rfl
    exact absurd hfirst (by decide)
  rw [parseInteger]
  · exact hne
  · exact fun hrest => hplus (List.cons_eq_cons.mp hrest).1
  · exact fun hrest => hminus (List.cons_eq_cons.mp hrest).1
  · exact fun digits hrest => hplus (List.cons_eq_cons.mp hrest).1
  · exact fun digits hrest => hminus (List.cons_eq_cons.mp hrest).1

/-- What is read is in range. -/
theorem range_of_parseInteger (hlow : low ≤ 0) (hhigh : 0 ≤ high) {text : Bytes} {value : Int}
    (h : parseInteger low high text = some value) : low ≤ value ∧ value ≤ high := by
  have hdigits : ∀ {sign : Int} {digits : Bytes}, sign = 1 ∨ sign = -1 →
      parseDigits low high sign digits = some value → low ≤ value ∧ value ≤ high := by
    intro sign digits hsign hparse
    exact ((parseDigits_eq_some_iff hlow hhigh hsign).mp hparse).2.2
  unfold parseInteger at h
  split at h
  · exact absurd h (by simp)
  · exact absurd h (by simp)
  · exact absurd h (by simp)
  · exact hdigits (Or.inl rfl) h
  · split at h
    · exact hdigits (Or.inr rfl) h
    · exact absurd h (by simp)
  · exact hdigits (Or.inl rfl) h

/-- A text that was written is read back. -/
theorem parseInteger_signedDecimal (hlow : low ≤ 0) (hhigh : 0 ≤ high) {i : Int}
    (hrange : low ≤ i ∧ i ≤ high) : parseInteger low high (signedDecimal i) = some i := by
  obtain ⟨first, rest, hdigits⟩ := List.exists_cons_of_ne_nil (decimal_ne_nil i.natAbs)
  have hall := isAsciiDigit_decimal i.natAbs
  by_cases hneg : i < 0
  · rw [signedDecimal, if_pos hneg, hdigits]
    have hparse : parseInteger low high (45 :: first :: rest)
        = parseDigits low high (-1) (first :: rest) := by
      have hsigned : low < 0 := by omega
      simp only [parseInteger, if_pos hsigned]
    rw [hparse, ← hdigits]
    refine (parseDigits_eq_some_iff hlow hhigh (Or.inr rfl)).mpr ⟨hall, ?_, hrange⟩
    rw [digitsValue_decimal]
    omega
  · rw [signedDecimal, if_neg hneg]
    have hparse : parseInteger low high (decimal i.natAbs)
        = parseDigits low high 1 (decimal i.natAbs) :=
      parseInteger_of_digits (decimal_ne_nil _) hall
    rw [hparse]
    refine (parseDigits_eq_some_iff hlow hhigh (Or.inl rfl)).mpr ⟨hall, ?_, hrange⟩
    rw [digitsValue_decimal]
    omega

end Parsing
