/-
Reading JSON.

A text is read in two passes.  The lexer takes one byte at a time and knows where in a token it
is; strings become the UTF-16 units that they stand for, written as they are or as escapes, and
the texts of numbers and literals are kept.  The parser takes one token at a time and has the open
arrays and objects on a stack.

* `lexByte`, `lexText` — the lexer;
* `foldlM_lexByte_of_string` — it reads two spellings of a character alike;
* `parseToken`, `parseTokens` — the parser;
* `parseJson` — the value of a text.
-/
import Rewind.Lib.Decimal

/-- A JSON value: numbers by their texts, strings by their UTF-16 units, and the members of an
object as they are listed. -/
inductive JsonValue where
  | null
  | bool (value : Bool)
  | number (text : Bytes)
  | string (units : List UInt16)
  | array (items : List JsonValue)
  | object (members : List (List UInt16 × JsonValue))

/-! ### Numbers and literals -/

/-- An exponent behind its letter, or what is left of one. -/
def isExponent (text : Bytes) : Bool :=
  match text with
  | 43 :: digits | 45 :: digits => digits ≠ [] ∧ digits.all isAsciiDigit
  | digits => digits ≠ [] ∧ digits.all isAsciiDigit

/-- What may follow the digits of a number: nothing, or an exponent. -/
def isScale (text : Bytes) : Bool :=
  match text with
  | [] => true
  | b :: rest => (b = 101 ∨ b = 69) ∧ isExponent rest

/-- What may follow the integer digits of a number. -/
def isFraction (text : Bytes) : Bool :=
  match text with
  | 46 :: rest => rest.takeWhile isAsciiDigit ≠ [] ∧ isScale (rest.dropWhile isAsciiDigit)
  | text => isScale text

/-- A number without its sign: no digit follows a zero at the start. -/
def isUnsigned (text : Bytes) : Bool :=
  match text with
  | 48 :: rest => isFraction rest
  | text => text.takeWhile isAsciiDigit ≠ [] ∧ isFraction (text.dropWhile isAsciiDigit)

def isNumber (text : Bytes) : Bool :=
  match text with
  | 45 :: rest => isUnsigned rest
  | text => isUnsigned text

/-- The value of a number or literal. -/
def wordValue (text : Bytes) : Option JsonValue :=
  if text = utf8 "null" then some .null
  else if text = utf8 "true" then some (.bool true)
  else if text = utf8 "false" then some (.bool false)
  else if isNumber text then some (.number text)
  else none

/-! ### The lexer -/

/-- A token; `mark` is one of `[]`, `\x7b\x7d`, `,` and `:`. -/
inductive JsonToken where
  | mark (b : UInt8)
  | word (text : Bytes)
  | string (units : List UInt16)
deriving DecidableEq

/-- Where the lexer is.  In a string it has the units so far; in a character of several bytes, how
many are missing, the bits so far and the least code point of this length. -/
inductive LexMode where
  | between
  | word (text : Bytes)
  | string (units : List UInt16)
  | escape (units : List UInt16)
  | hex (units : List UInt16) (missing : Nat) (unit : UInt16)
  | character (units : List UInt16) (missing code least : Nat)
deriving DecidableEq

structure Lexer where
  tokens : List JsonToken
  mode : LexMode
deriving DecidableEq

def isSpace (b : UInt8) : Bool := b ∈ ([0x20, 0x09, 0x0A, 0x0D] : Bytes)

def isMark (b : UInt8) : Bool := b ∈ ([0x5B, 0x5D, 0x7B, 0x7D, 0x2C, 0x3A] : Bytes)

/-- The bytes of numbers and literals. -/
def isWordByte (b : UInt8) : Bool :=
  isAsciiDigit b ∨ (97 ≤ b ∧ b ≤ 122) ∨ b ∈ ([69, 43, 45, 46] : Bytes)

/-- A byte behind a token. -/
def lexBetween (tokens : List JsonToken) (b : UInt8) : Option Lexer :=
  if isSpace b then some ⟨tokens, .between⟩
  else if isMark b then some ⟨tokens ++ [.mark b], .between⟩
  else if b = 0x22 then some ⟨tokens, .string []⟩
  else if isWordByte b then some ⟨tokens, .word [b]⟩
  else none

/-- The units of a code point. -/
def utf16 (code : Nat) : List UInt16 :=
  if code < 0x10000 then
    [UInt16.ofNat code]
  else
    [UInt16.ofNat (0xD800 + (code - 0x10000) / 0x400),
      UInt16.ofNat (0xDC00 + (code - 0x10000) % 0x400)]

/-- A byte of a string, at the start of a character. -/
def lexString (units : List UInt16) (b : UInt8) : Option LexMode :=
  if b = 0x5C then some (.escape units)
  else if b < 0x20 then none
  else if b < 0x80 then some (.string (units ++ [UInt16.ofNat b.toNat]))
  else if 0xC2 ≤ b ∧ b ≤ 0xDF then some (.character units 1 (b.toNat - 0xC0) 0x80)
  else if 0xE0 ≤ b ∧ b ≤ 0xEF then some (.character units 2 (b.toNat - 0xE0) 0x800)
  else if 0xF0 ≤ b ∧ b ≤ 0xF4 then some (.character units 3 (b.toNat - 0xF0) 0x10000)
  else none

/-- A byte behind a backslash. -/
def lexEscape (units : List UInt16) (b : UInt8) : Option LexMode :=
  if b = 0x75 then some (.hex units 4 0)
  else
    let unit : Option UInt16 :=
      if b = 0x22 then some 0x22
      else if b = 0x5C then some 0x5C
      else if b = 0x2F then some 0x2F
      else if b = 0x62 then some 0x08
      else if b = 0x66 then some 0x0C
      else if b = 0x6E then some 0x0A
      else if b = 0x72 then some 0x0D
      else if b = 0x74 then some 0x09
      else none
    unit.map fun unit => .string (units ++ [unit])

/-- The value of a hexadecimal digit, in either case. -/
def hexValue (b : UInt8) : Option UInt16 :=
  if isAsciiDigit b then some (UInt16.ofNat (b.toNat - 48))
  else if 97 ≤ b ∧ b ≤ 102 then some (UInt16.ofNat (b.toNat - 87))
  else if 65 ≤ b ∧ b ≤ 70 then some (UInt16.ofNat (b.toNat - 55))
  else none

/-- A digit of an escape. -/
def lexHex (units : List UInt16) (missing : Nat) (unit : UInt16) (b : UInt8) : Option LexMode :=
  (hexValue b).map fun digit =>
    if missing = 1 then .string (units ++ [unit * 16 + digit])
    else .hex units (missing - 1) (unit * 16 + digit)

/-- A later byte of a character; surrogates and long forms are no characters. -/
def lexCharacter (units : List UInt16) (missing code least : Nat) (b : UInt8) : Option LexMode :=
  if isContinuation b then
    let code := code * 64 + (b.toNat - 0x80)
    if missing ≠ 1 then some (.character units (missing - 1) code least)
    else if least ≤ code ∧ code ≤ 0x10FFFF ∧ ¬ (0xD800 ≤ code ∧ code ≤ 0xDFFF) then
      some (.string (units ++ utf16 code))
    else none
  else none

/-- One byte. -/
def lexByte (s : Lexer) (b : UInt8) : Option Lexer :=
  match s.mode with
  | .between => lexBetween s.tokens b
  | .word text =>
    if isWordByte b then some ⟨s.tokens, .word (text ++ [b])⟩
    else lexBetween (s.tokens ++ [.word text]) b
  | .string units =>
    if b = 0x22 then some ⟨s.tokens ++ [.string units], .between⟩
    else (lexString units b).map (⟨s.tokens, ·⟩)
  | .escape units => (lexEscape units b).map (⟨s.tokens, ·⟩)
  | .hex units missing unit => (lexHex units missing unit b).map (⟨s.tokens, ·⟩)
  | .character units missing code least =>
    (lexCharacter units missing code least b).map (⟨s.tokens, ·⟩)

/-- The tokens at the end of a text. -/
def Lexer.finish (s : Lexer) : Option (List JsonToken) :=
  match s.mode with
  | .between => some s.tokens
  | .word text => some (s.tokens ++ [.word text])
  | .string _ | .escape _ | .hex .. | .character .. => none

def lexText (text : Bytes) : Option (List JsonToken) := do
  let s ← text.foldlM lexByte ⟨[], .between⟩
  s.finish

/-! ### Bytes of strings -/

/-- A byte that stands for itself in a string and nowhere else. -/
structure InStringsOnly (b : UInt8) : Prop where
  between : ∀ tokens, lexBetween tokens b = none
  word : isWordByte b = false
  escape : ∀ units, lexEscape units b = none
  hex : hexValue b = none
  later : isContinuation b = false

/-- Where the lexer takes such a byte, it is in a string. -/
theorem InStringsOnly.mode_of_lexByte {b : UInt8} (hb : InStringsOnly b) {s s' : Lexer}
    (h : lexByte s b = some s') : ∃ units, s.mode = .string units := by
  cases hmode : s.mode with
  | between =>
    rw [lexByte, hmode] at h
    exact absurd ((hb.between _).symm.trans h) (by simp)
  | word text =>
    simp only [lexByte, hmode, hb.word, hb.between] at h
    exact absurd h (by simp)
  | string units => exact ⟨units, rfl⟩
  | escape units =>
    simp only [lexByte, hmode, hb.escape] at h
    exact absurd h (by simp)
  | hex units missing unit =>
    simp only [lexByte, hmode, lexHex, hb.hex] at h
    exact absurd h (by simp)
  | character units missing code least =>
    simp only [lexByte, hmode, lexCharacter, hb.later] at h
    exact absurd h (by simp)

/-- Two spellings of the same units that a string may hold, the first of which is nothing
elsewhere, are the same to the lexer. -/
theorem foldlM_lexByte_of_string {spelling spelling' : Bytes} {b : UInt8}
    (hfirst : spelling.head? = some b) (hb : InStringsOnly b)
    (hsame : ∀ tokens units, spelling.foldlM lexByte ⟨tokens, .string units⟩
      = spelling'.foldlM lexByte ⟨tokens, .string units⟩) (s s' : Lexer)
    (h : spelling.foldlM lexByte s = some s') : spelling'.foldlM lexByte s = some s' := by
  obtain ⟨rest, rfl⟩ : ∃ rest, spelling = b :: rest := by
    cases spelling with
    | nil => exact absurd hfirst (by simp)
    | cons first rest => exact ⟨rest, by rw [Option.some.inj hfirst]⟩
  have hread := h
  rw [List.foldlM_cons, Option.bind_eq_bind, Option.bind_eq_some_iff] at hread
  obtain ⟨middle, hmiddle, -⟩ := hread
  obtain ⟨units, hunits⟩ := hb.mode_of_lexByte hmiddle
  obtain ⟨tokens, mode⟩ := s
  obtain rfl : mode = .string units := hunits
  rw [← hsame tokens units, h]

/-! ### The parser -/

/-- An array or object that is open, with what it holds so far. -/
inductive JsonFrame where
  | array (items : List JsonValue)
  | object (members : List (List UInt16 × JsonValue)) (key : List UInt16)

/-- What may come next. -/
inductive Expected where
  | value
  | firstItem
  | firstKey
  | key
  | colon
  | separator
  | nothing (value : JsonValue)

structure JsonParser where
  frames : List JsonFrame
  expected : Expected

/-- The parser behind a value. -/
def JsonParser.put (frames : List JsonFrame) (value : JsonValue) : JsonParser :=
  match frames with
  | [] => ⟨[], .nothing value⟩
  | .array items :: rest => ⟨.array (items ++ [value]) :: rest, .separator⟩
  | .object members key :: rest => ⟨.object (members ++ [(key, value)]) key :: rest, .separator⟩

/-- The start of a value. -/
def parseValue (frames : List JsonFrame) : JsonToken → Option JsonParser
  | .string units => some (.put frames (.string units))
  | .word text => (wordValue text).map (.put frames)
  | .mark 0x5B => some ⟨.array [] :: frames, .firstItem⟩
  | .mark 0x7B => some ⟨.object [] [] :: frames, .firstKey⟩
  | .mark _ => none

/-- The end of the innermost array or object. -/
def parseClose (frames : List JsonFrame) (b : UInt8) : Option JsonParser :=
  match frames with
  | .array items :: rest => if b = 0x5D then some (.put rest (.array items)) else none
  | .object members _ :: rest => if b = 0x7D then some (.put rest (.object members)) else none
  | [] => none

def parseKey (frames : List JsonFrame) : JsonToken → Option JsonParser
  | .string units =>
    match frames with
    | .object members _ :: rest => some ⟨.object members units :: rest, .colon⟩
    | _ => none
  | _ => none

/-- What follows a comma. -/
def expectedNext : List JsonFrame → Option Expected
  | .array _ :: _ => some .value
  | .object .. :: _ => some .key
  | [] => none

/-- One token. -/
def parseToken (s : JsonParser) (token : JsonToken) : Option JsonParser :=
  match s.expected with
  | .value => parseValue s.frames token
  | .firstItem => if token = .mark 0x5D then parseClose s.frames 0x5D else parseValue s.frames token
  | .firstKey => if token = .mark 0x7D then parseClose s.frames 0x7D else parseKey s.frames token
  | .key => parseKey s.frames token
  | .colon => if token = .mark 0x3A then some ⟨s.frames, .value⟩ else none
  | .separator =>
    match token with
    | .mark b =>
      if b = 0x2C then (expectedNext s.frames).map (⟨s.frames, ·⟩) else parseClose s.frames b
    | _ => none
  | .nothing _ => none

def parseTokens (tokens : List JsonToken) : Option JsonValue := do
  let s ← tokens.foldlM parseToken ⟨[], .value⟩
  match s.expected with
  | .nothing value => some value
  | _ => none

/-- The value of a JSON text. -/
def parseJson (text : Bytes) : Option JsonValue := do
  let tokens ← lexText text
  parseTokens tokens

example : parseJson (utf8 "[\"a\\u003c\",-1.5e3,\x7b\"k\" : null\x7d]")
    = some (.array [.string [97, 0x3C], .number (utf8 "-1.5e3"),
      .object [([107], .null)]]) := rfl
