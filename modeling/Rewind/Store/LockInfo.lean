/-
Diagnostics of the writer lock.

The holder of the lock describes itself in the lock file, one `key=value` line after the other.  A
contender reads the file as text that it does not trust.

* `lockBody` — what a holder writes;
* `LockInfo.parse`, `inspectContent` — what a contender makes of the file;
* `parse_lockBody` — a description that was written whole is read back;
* `length_lockBody_le` — it is never too long to be read.
-/
import Rewind.Lib.Decimal
import Rewind.Lib.Fallible

namespace Rewind

/-! ### Lines of a text -/

def lineFeed : UInt8 := 10

/-- A line without the carriage return before its line feed. -/
def stripCarriageReturn (line : Bytes) : Bytes :=
  if line.getLast? = some 13 then line.dropLast else line

/-- The lines of a text, with the beginning of the first one. -/
def linesFrom (line : Bytes) : Bytes → List Bytes
  | [] => if line = [] then [] else [line]
  | b :: rest =>
    if b = lineFeed then stripCarriageReturn line :: linesFrom [] rest
    else linesFrom (line ++ [b]) rest

/-- `str::lines`: the final line feed is optional. -/
def lines (text : Bytes) : List Bytes := linesFrom [] text

theorem linesFrom_append {line text rest : Bytes} (h : lineFeed ∉ text) :
    linesFrom line (text ++ lineFeed :: rest)
      = stripCarriageReturn (line ++ text) :: lines rest := by
  induction text generalizing line with
  | nil =>
    rw [List.nil_append, List.append_nil, linesFrom, if_pos rfl]
    rfl
  | cons b text ih =>
    have hb : b ≠ lineFeed := fun heq => h (heq ▸ List.mem_cons_self)
    rw [List.cons_append, linesFrom, if_neg hb, ih fun hmem => h (List.mem_cons_of_mem b hmem),
      List.append_assoc, List.singleton_append]

/-- The line of a text without control characters. -/
theorem lines_append {text rest : Bytes} (h : ∀ b ∈ text, 32 ≤ b) :
    lines (text ++ lineFeed :: rest) = text :: lines rest := by
  have hline : lineFeed ∉ text := fun hmem => absurd (h lineFeed hmem) (by decide)
  have hreturn : text.getLast? ≠ some 13 := fun hlast =>
    absurd (h 13 (List.mem_of_getLast? hlast)) (by decide)
  rw [lines, linesFrom_append hline, List.nil_append, stripCarriageReturn, if_neg hreturn]

/-- `str::strip_prefix`. -/
def stripPrefixText (start text : Bytes) : Option Bytes :=
  if start <+: text then some (text.drop start.length) else none

@[simp] theorem stripPrefixText_append (start rest : Bytes) :
    stripPrefixText start (start ++ rest) = some rest := by
  rw [stripPrefixText, if_pos (List.prefix_append start rest), List.drop_left]

/-- Texts that differ in their first byte. -/
theorem stripPrefixText_cons_of_ne {a b : UInt8} (h : a ≠ b) (start rest : Bytes) :
    stripPrefixText (a :: start) (b :: rest) = none := by
  rw [stripPrefixText, if_neg]
  rw [List.cons_prefix_cons]
  exact fun heq => h heq.1

/-! ### What a holder writes -/

/-- What a process knows of itself as it acquires the lock: its identity, the time since the epoch
and the count of its earlier acquisitions. -/
structure LockStamp where
  pid : UInt32
  nanos : BitVec 128
  sequence : UInt64
deriving DecidableEq

def LockStamp.millis (stamp : LockStamp) : Nat := stamp.nanos.toNat / 1000000

def LockStamp.token (stamp : LockStamp) : Bytes :=
  decimal stamp.pid.toNat ++ utf8 "-" ++ decimal stamp.nanos.toNat ++ utf8 "-"
    ++ decimal stamp.sequence.toNat

def LOCK_VERSION : Nat := 1

def MAX_LOCK_BYTES : Nat := 16 * 1024

/-- The lock file of a holder. -/
def lockBody (stamp : LockStamp) : Bytes :=
  utf8 "version=" ++ decimal LOCK_VERSION ++ utf8 "\npid=" ++ decimal stamp.pid.toNat
    ++ utf8 "\ncreated_unix_ms=" ++ decimal stamp.millis
    ++ utf8 "\ntoken=" ++ stamp.token ++ utf8 "\n"

/-! ### What a contender reads -/

/-- Human-readable diagnostics for a held store writer lock. -/
structure LockInfo where
  pid : Option UInt32
  createdUnixMs : Option UInt64
  token : Option Bytes
  raw : Bytes
deriving DecidableEq

/-- `str::parse::<u32>`. -/
def parseU32 (text : Bytes) : Option UInt32 :=
  (parseInteger 0 (2 ^ 32 - 1) text).map fun value => UInt32.ofNat value.toNat

/-- `str::parse::<u64>`. -/
def parseU64 (text : Bytes) : Option UInt64 :=
  (parseInteger 0 (2 ^ 64 - 1) text).map fun value => UInt64.ofNat value.toNat

/-- A line that no key begins changes nothing; a later line replaces an earlier one. -/
def LockInfo.readLine (info : LockInfo) (line : Bytes) : LockInfo :=
  match stripPrefixText (utf8 "pid=") line with
  | some value => { info with pid := parseU32 value }
  | none =>
    match stripPrefixText (utf8 "created_unix_ms=") line with
    | some value => { info with createdUnixMs := parseU64 value }
    | none =>
      match stripPrefixText (utf8 "token=") line with
      | some value => { info with token := some value }
      | none => info

def LockInfo.parse (raw : Bytes) : LockInfo :=
  (lines raw).foldl LockInfo.readLine ⟨none, none, none, raw⟩

/-- Why the lock file could not be opened, locked, written or read. -/
inductive LockError where
  | io (operation : String) (source : Bytes)
  | malformedLock (message : Bytes)
deriving DecidableEq

/-- The text of an error about the lock file at `path`. -/
def LockError.text (path : Bytes) : LockError → Bytes
  | .io operation source =>
    utf8 "cannot " ++ utf8 operation ++ utf8 " at " ++ toStringLossy path ++ utf8 ": " ++ source
  | .malformedLock message =>
    utf8 "store writer lock " ++ toStringLossy path ++ utf8 " is malformed: " ++ message

/-- The bound on the file as it is opened. -/
def checkLockSize (size : Nat) : Except LockError Unit :=
  if MAX_LOCK_BYTES < size then
    .error (.malformedLock (utf8 "lock is " ++ decimal size ++ utf8 " bytes; maximum is "
      ++ decimal MAX_LOCK_BYTES))
  else
    .ok ()

/-- What `inspect` returns for the bytes it has read. -/
def inspectContent (raw : Bytes) : Except LockError LockInfo :=
  if validUtf8 raw then
    .ok (LockInfo.parse raw)
  else
    .error (.io "read store writer lock" (utf8 "stream did not contain valid UTF-8"))

/-- The diagnostics that stand in for a lock file that cannot be read. -/
def unreadableLock (path : Bytes) (error : LockError) : LockInfo :=
  ⟨none, none, none, utf8 "unreadable lock: " ++ error.text path⟩

/-! ### A description is read back -/

/-- What every byte of a text is, by its bytes. -/
theorem forall_text {p : UInt8 → Prop} [DecidablePred p] {text : String}
    (h : (utf8 text).all (fun b => decide (p b)) = true) : ∀ b ∈ utf8 text, p b :=
  fun b hb => of_decide_eq_true (List.all_eq_true.mp h b hb)

theorem printable_decimal (n : Nat) : ∀ b ∈ decimal n, 32 ≤ b ∧ b < 128 := by
  intro b hb
  have hdigit : 48 ≤ b ∧ b ≤ 57 := of_decide_eq_true (isAsciiDigit_decimal n b hb)
  have h1 := UInt8.le_iff_toNat_le.mp hdigit.1
  have h2 := UInt8.le_iff_toNat_le.mp hdigit.2
  constructor
  · rw [UInt8.le_iff_toNat_le]
    exact le_trans (by decide) h1
  · rw [UInt8.lt_iff_toNat_lt]
    exact lt_of_le_of_lt h2 (by decide)

theorem printable_append {xs ys : Bytes} (hxs : ∀ b ∈ xs, 32 ≤ b ∧ b < 128)
    (hys : ∀ b ∈ ys, 32 ≤ b ∧ b < 128) : ∀ b ∈ xs ++ ys, 32 ≤ b ∧ b < 128 := fun b hb =>
  (List.mem_append.mp hb).elim (hxs b) (hys b)

theorem printable_token (stamp : LockStamp) : ∀ b ∈ stamp.token, 32 ≤ b ∧ b < 128 := by
  have hdash : ∀ b ∈ utf8 "-", 32 ≤ b ∧ b < 128 := forall_text rfl
  unfold LockStamp.token
  exact printable_append (printable_append (printable_append (printable_append
    (printable_decimal _) hdash) (printable_decimal _)) hdash) (printable_decimal _)

theorem parseInteger_decimal {high : Int} {n : Nat} (hhigh : 0 ≤ high) :
    parseInteger 0 high (decimal n) = if (n : Int) ≤ high then some (n : Int) else none := by
  rw [parseInteger_of_digits (decimal_ne_nil n) (isAsciiDigit_decimal n)]
  split
  · rename_i hle
    refine (parseDigits_eq_some_iff (le_refl 0) hhigh (Or.inl rfl)).mpr
      ⟨isAsciiDigit_decimal n, ?_, Int.natCast_nonneg n, hle⟩
    rw [digitsValue_decimal, one_mul]
  · rename_i hlarge
    rw [Option.eq_none_iff_forall_ne_some]
    intro value hvalue
    obtain ⟨-, rfl, -, hle⟩ := (parseDigits_eq_some_iff (le_refl 0) hhigh (Or.inl rfl)).mp hvalue
    rw [digitsValue_decimal, one_mul] at hle
    exact hlarge hle

theorem parseU32_decimal (pid : UInt32) : parseU32 (decimal pid.toNat) = some pid := by
  have hlt := pid.toNat_lt
  rw [parseU32, parseInteger_decimal (by decide), if_pos (by omega), Option.map_some,
    Int.toNat_natCast, UInt32.ofNat_toNat]

theorem parseU64_decimal (n : Nat) :
    parseU64 (decimal n) = if n < 2 ^ 64 then some (UInt64.ofNat n) else none := by
  rw [parseU64, parseInteger_decimal (by decide)]
  by_cases h : n < 2 ^ 64
  · rw [if_pos h, if_pos (by omega), Option.map_some, Int.toNat_natCast]
  · rw [if_neg h, if_neg (by omega)]
    rfl

/-- The lines of a description. -/
theorem lines_lockBody (stamp : LockStamp) :
    lines (lockBody stamp) = [utf8 "version=" ++ decimal LOCK_VERSION,
      utf8 "pid=" ++ decimal stamp.pid.toNat,
      utf8 "created_unix_ms=" ++ decimal stamp.millis, utf8 "token=" ++ stamp.token] := by
  have hversion : ∀ b ∈ utf8 "version=" ++ decimal LOCK_VERSION, 32 ≤ b :=
    fun b hb => (printable_append (forall_text rfl) (printable_decimal _) b hb).1
  have hpid : ∀ b ∈ utf8 "pid=" ++ decimal stamp.pid.toNat, 32 ≤ b :=
    fun b hb => (printable_append (forall_text rfl) (printable_decimal _) b hb).1
  have hcreated : ∀ b ∈ utf8 "created_unix_ms=" ++ decimal stamp.millis, 32 ≤ b :=
    fun b hb => (printable_append (forall_text rfl) (printable_decimal _) b hb).1
  have htoken : ∀ b ∈ utf8 "token=" ++ stamp.token, 32 ≤ b :=
    fun b hb => (printable_append (forall_text rfl) (printable_token stamp) b hb).1
  have hbody : lockBody stamp = (utf8 "version=" ++ decimal LOCK_VERSION) ++ lineFeed ::
      ((utf8 "pid=" ++ decimal stamp.pid.toNat) ++ lineFeed ::
        ((utf8 "created_unix_ms=" ++ decimal stamp.millis) ++ lineFeed ::
          ((utf8 "token=" ++ stamp.token) ++ lineFeed :: []))) := by
    have h1 : utf8 "\npid=" = lineFeed :: utf8 "pid=" := by decide
    have h2 : utf8 "\ncreated_unix_ms=" = lineFeed :: utf8 "created_unix_ms=" := by decide
    have h3 : utf8 "\ntoken=" = lineFeed :: utf8 "token=" := by decide
    have h4 : utf8 "\n" = [lineFeed] := by decide
    rw [lockBody, h1, h2, h3, h4]
    simp only [List.append_assoc, List.cons_append]
  rw [hbody, lines_append hversion, lines_append hpid, lines_append hcreated, lines_append htoken]
  rfl

/-- A description that was written whole is read back. -/
theorem parse_lockBody (stamp : LockStamp) :
    LockInfo.parse (lockBody stamp) = {
      pid := some stamp.pid
      createdUnixMs := if stamp.millis < 2 ^ 64 then some (UInt64.ofNat stamp.millis) else none
      token := some stamp.token
      raw := lockBody stamp } := by
  have hversion : ∀ info : LockInfo,
      info.readLine (utf8 "version=" ++ decimal LOCK_VERSION) = info := by
    intro info
    rfl
  have hpid : ∀ (info : LockInfo) (n : Nat), info.readLine (utf8 "pid=" ++ decimal n)
      = { info with pid := parseU32 (decimal n) } := by
    intro info n
    rw [LockInfo.readLine, stripPrefixText_append]
  have hcreated : ∀ (info : LockInfo) (n : Nat),
      info.readLine (utf8 "created_unix_ms=" ++ decimal n)
        = { info with createdUnixMs := parseU64 (decimal n) } := by
    intro info n
    have hother : stripPrefixText (utf8 "pid=") (utf8 "created_unix_ms=" ++ decimal n) = none :=
      stripPrefixText_cons_of_ne (by decide) _ _
    rw [LockInfo.readLine, hother, stripPrefixText_append]
  have htoken : ∀ (info : LockInfo) (value : Bytes), info.readLine (utf8 "token=" ++ value)
      = { info with token := some value } := by
    intro info value
    have hother : stripPrefixText (utf8 "pid=") (utf8 "token=" ++ value) = none :=
      stripPrefixText_cons_of_ne (by decide) _ _
    have hother' : stripPrefixText (utf8 "created_unix_ms=") (utf8 "token=" ++ value) = none :=
      stripPrefixText_cons_of_ne (by decide) _ _
    rw [LockInfo.readLine, hother, hother', stripPrefixText_append]
  rw [LockInfo.parse, lines_lockBody]
  simp only [List.foldl_cons, List.foldl_nil, hversion, hpid, hcreated, htoken, parseU32_decimal,
    parseU64_decimal]

theorem inspectContent_lockBody (stamp : LockStamp) :
    inspectContent (lockBody stamp) = .ok (LockInfo.parse (lockBody stamp)) := by
  have htoken : ∀ b ∈ stamp.token, b < 0x80 := fun b hb => (printable_token stamp b hb).2
  have hdecimal : ∀ n, ∀ b ∈ decimal n, b < 0x80 := fun n b hb => (printable_decimal n b hb).2
  have hascii : ∀ b ∈ lockBody stamp, b < 0x80 := by
    simp only [lockBody, List.forall_mem_append]
    exact ⟨⟨⟨⟨⟨⟨⟨⟨forall_text rfl, hdecimal _⟩, forall_text rfl⟩, hdecimal _⟩,
      forall_text rfl⟩, hdecimal _⟩, forall_text rfl⟩, htoken⟩, forall_text rfl⟩
  rw [inspectContent, if_pos (validUtf8_of_ascii hascii)]

theorem length_decimal_le {n k : Nat} (hk : 0 < k) (h : n < 10 ^ k) : (decimal n).length ≤ k := by
  rw [decimal, List.length_map]
  exact (Nat.length_toDigits_le_iff (by decide) hk).mpr h

theorem length_lockBody_le (stamp : LockStamp) : (lockBody stamp).length ≤ MAX_LOCK_BYTES := by
  have hpid : (decimal stamp.pid.toNat).length ≤ 10 :=
    length_decimal_le (by decide) (lt_trans stamp.pid.toNat_lt (by decide))
  have hsequence : (decimal stamp.sequence.toNat).length ≤ 20 :=
    length_decimal_le (by decide) (lt_trans stamp.sequence.toNat_lt (by decide))
  have hnanos : stamp.nanos.toNat < 10 ^ 39 := lt_trans stamp.nanos.isLt (by decide)
  have htime : (decimal stamp.nanos.toNat).length ≤ 39 := length_decimal_le (by decide) hnanos
  have hcreated : (decimal stamp.millis).length ≤ 39 :=
    length_decimal_le (by decide) (lt_of_le_of_lt (Nat.div_le_self ..) hnanos)
  have hversion : (decimal LOCK_VERSION).length = 1 := rfl
  have hkeys : (utf8 "version=").length = 8 ∧ (utf8 "\npid=").length = 5
      ∧ (utf8 "\ncreated_unix_ms=").length = 17 ∧ (utf8 "\ntoken=").length = 7
      ∧ (utf8 "\n").length = 1 ∧ (utf8 "-").length = 1 := ⟨rfl, rfl, rfl, rfl, rfl, rfl⟩
  simp only [lockBody, LockStamp.token, List.length_append, MAX_LOCK_BYTES]
  omega

end Rewind
