/-
Compact JSON text.

A text is written between quotes, with an escape for each quote, backslash and control character;
all other bytes of its UTF-8 form stand for themselves.

* `jsonString` — the text of a string;
* `escapedLength` — how long a string becomes;
* `newline_not_mem_jsonString` — no line feed is left in it.
-/
import Rewind.Lib.Bytes

/-- The digits of an escape. -/
def jsonEscape (b : UInt8) : Bytes := utf8 "\\u00" ++ toHex [b]

/-- A byte of a JSON string. -/
def jsonByte (b : UInt8) : Bytes :=
  if b = 0x22 then utf8 "\\\""
  else if b = 0x5C then utf8 "\\\\"
  else if b = 0x08 then utf8 "\\b"
  else if b = 0x09 then utf8 "\\t"
  else if b = 0x0A then utf8 "\\n"
  else if b = 0x0C then utf8 "\\f"
  else if b = 0x0D then utf8 "\\r"
  else if b < 0x20 then jsonEscape b
  else [b]

/-- A JSON string. -/
def jsonString (s : String) : Bytes := 0x22 :: (utf8 s).flatMap jsonByte ++ [0x22]

/-- What stands for a value that may be absent. -/
def jsonOption {α : Type} (text : α → Bytes) : Option α → Bytes
  | none => utf8 "null"
  | some a => text a

/-- The length of a string in JSON, without its quotes. -/
def escapedLength (s : String) : Nat := ((utf8 s).map fun b => (jsonByte b).length).sum

theorem length_jsonString (s : String) : (jsonString s).length = escapedLength s + 2 := by
  rw [jsonString, List.length_append, List.length_cons, List.length_flatMap, escapedLength]
  rfl

/-- There are 256 bytes to look at. -/
theorem forall_byte {p : UInt8 → Prop} (h : ∀ n : Fin 256, p (UInt8.ofNat n.val)) (b : UInt8) :
    p b := by
  have hb : UInt8.ofNat b.toNat = b := UInt8.ofNat_toNat
  exact hb ▸ h ⟨b.toNat, b.toNat_lt⟩

/-- No byte is written as a line feed. -/
theorem newline_not_mem_jsonByte : ∀ b : UInt8, (0x0A : UInt8) ∉ jsonByte b :=
  forall_byte (by decide +kernel)

theorem newline_not_mem_jsonString (s : String) : (0x0A : UInt8) ∉ jsonString s := by
  intro hmem
  rcases List.mem_append.mp hmem with hmem | hmem
  · rcases List.mem_cons.mp hmem with hquote | hmem
    · exact absurd hquote (by decide)
    · obtain ⟨b, -, hb⟩ := List.mem_flatMap.mp hmem
      exact newline_not_mem_jsonByte b hb
  · exact absurd (List.mem_singleton.mp hmem) (by decide)

theorem newline_not_mem_jsonOption {α : Type} {text : α → Bytes}
    (htext : ∀ a, (0x0A : UInt8) ∉ text a) (o : Option α) : (0x0A : UInt8) ∉ jsonOption text o := by
  cases o with
  | none => exact (by decide : (0x0A : UInt8) ∉ utf8 "null")
  | some a => exact htext a

/-- A byte that stands for itself in JSON. -/
def isBare (b : UInt8) : Bool := decide (0x20 ≤ b ∧ b ≠ 0x22 ∧ b ≠ 0x5C)

theorem jsonByte_of_isBare : ∀ b : UInt8, isBare b = true → jsonByte b = [b] :=
  forall_byte (by decide +kernel)

/-- A text without an escape keeps its length. -/
theorem escapedLength_of_isBare {s : String} (h : ∀ b ∈ utf8 s, isBare b = true) :
    escapedLength s = (utf8 s).length := by
  have hone : (utf8 s).map (fun b => (jsonByte b).length) = (utf8 s).map fun _ => 1 :=
    List.map_congr_left fun b hb => by rw [jsonByte_of_isBare b (h b hb)]; rfl
  rw [escapedLength, hone]
  simp
