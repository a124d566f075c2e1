/-
The terminal pane's parser.

Captured bytes are turned into styled lines.  Text is collected byte by byte and flushed to the
current line as one span; control bytes act on that line.  A carriage return empties it, so that
of a line that ends in `\r\n`, as a terminal device writes every newline, nothing is left for the
line feed.

* `Parser.consume` — the byte loop;
* `consume_plain`, `consume_newline`, `consume_return` — what the bytes of a text do to the line;
* **`crlf_renders_iff`** — `\r\n` renders as `\n` exactly where nothing is on the line.
-/
import Rewind.Lib.Bytes

namespace Rewind

/-! ### Styles -/

inductive Color where
  | reset
  | black
  | red
  | green
  | yellow
  | blue
  | magenta
  | cyan
  | gray
  | darkGray
  | lightRed
  | lightGreen
  | lightYellow
  | lightBlue
  | lightMagenta
  | lightCyan
  | white
  | rgb (red green blue : UInt8)
  | indexed (index : UInt8)
deriving DecidableEq

/-- The text modifiers, as the bits of one word. -/
structure Modifier where
  bits : UInt16
deriving DecidableEq

namespace Modifier

def BOLD : Modifier := ⟨1⟩

def DIM : Modifier := ⟨2⟩

def ITALIC : Modifier := ⟨4⟩

def UNDERLINED : Modifier := ⟨8⟩

def REVERSED : Modifier := ⟨64⟩

def insert (m other : Modifier) : Modifier := ⟨m.bits ||| other.bits⟩

def remove (m other : Modifier) : Modifier := ⟨m.bits &&& ~~~other.bits⟩

end Modifier

/-- What a span changes: the colours, the modifiers it adds and those it removes. -/
structure Style where
  fg : Option Color
  bg : Option Color
  addModifier : Modifier
  subModifier : Modifier
deriving DecidableEq

namespace Style

def default : Style := ⟨none, none, ⟨0⟩, ⟨0⟩⟩

def withFg (style : Style) (color : Color) : Style := { style with fg := some color }

def withBg (style : Style) (color : Color) : Style := { style with bg := some color }

def withModifier (style : Style) (modifier : Modifier) : Style :=
  { style with
    addModifier := style.addModifier.insert modifier
    subModifier := style.subModifier.remove modifier }

def withoutModifier (style : Style) (modifier : Modifier) : Style :=
  { style with
    addModifier := style.addModifier.remove modifier
    subModifier := style.subModifier.insert modifier }

end Style

/-- `base_color`. -/
def baseColor (value : Nat) (bright : Bool) : Color :=
  match value, bright with
  | 0, false => .black
  | 1, false => .red
  | 2, false => .green
  | 3, false => .yellow
  | 4, false => .blue
  | 5, false => .magenta
  | 6, false => .cyan
  | 7, false => .gray
  | 0, true => .darkGray
  | 1, true => .lightRed
  | 2, true => .lightGreen
  | 3, true => .lightYellow
  | 4, true => .lightBlue
  | 5, true => .lightMagenta
  | 6, true => .lightCyan
  | 7, true => .white
  | _, _ => .reset

/-- `extended_color`: the colour, and how many parameters it has taken. -/
def extendedColor : List Nat → Option (Color × Nat)
  | 5 :: index :: _ => if index ≤ 255 then some (.indexed (UInt8.ofNat index), 2) else none
  | 2 :: red :: green :: blue :: _ =>
    if red ≤ 255 ∧ green ≤ 255 ∧ blue ≤ 255 then
      some (.rgb (UInt8.ofNat red) (UInt8.ofNat green) (UInt8.ofNat blue), 4)
    else
      none
  | _ => none

/-! ### Documents -/

structure StyledSpan where
  text : List Char
  style : Style
deriving DecidableEq

structure StyledLine where
  spans : List StyledSpan
deriving DecidableEq

structure TerminalDocument where
  lines : List StyledLine
  truncated : Bool
deriving DecidableEq

def MAX_RENDERED_LINES : Nat := 5000

structure Parser where
  lines : List StyledLine
  current : StyledLine
  style : Style
  text : Bytes
  discardedLines : Bool
deriving DecidableEq

/-- `char::is_control`. -/
def isControl (c : Char) : Bool := c.toNat < 0x20 ∨ (0x7F ≤ c.toNat ∧ c.toNat ≤ 0x9F)

/-- The text a flush makes of the collected bytes. -/
def visibleText (bytes : Bytes) : List Char :=
  (decodeUtf8 (toStringLossy bytes)).toList.map fun c =>
    if isControl c then Char.ofNat 0xFFFD else c

/-! ### Select graphic rendition -/

/-- `split(|byte| *byte == b';')`. -/
def splitParameters : Bytes → List Bytes
  | [] => [[]]
  | byte :: rest =>
    if byte = 59 then
      [] :: splitParameters rest
    else
      match splitParameters rest with
      | [] => [[byte]]
      | part :: parts => (byte :: part) :: parts

/-- The digits of `str::parse::<u16>`, most significant first. -/
def parseDigits : Nat → Bytes → Option Nat
  | value, [] => some value
  | value, digit :: rest =>
    if 48 ≤ digit ∧ digit ≤ 57 ∧ value * 10 + (digit.toNat - 48) < 2 ^ 16 then
      parseDigits (value * 10 + (digit.toNat - 48)) rest
    else
      none

/-- `str::parse::<u16>`: a sign is allowed, an empty number is not. -/
def parseU16 : Bytes → Option Nat
  | [] => none
  | 43 :: [] => none
  | 43 :: digits => parseDigits 0 digits
  | digits => parseDigits 0 digits

/-- The parameters of a sequence; those that are no number are left out. -/
def sgrParameters (parameters : Bytes) : List Nat :=
  if parameters = [] then [0] else (splitParameters parameters).filterMap parseU16

/-- What one parameter other than 38 and 48 does. -/
def sgrStyle (style : Style) (value : Nat) : Style :=
  if value = 0 then .default
  else if value = 1 then style.withModifier .BOLD
  else if value = 2 then style.withModifier .DIM
  else if value = 3 then style.withModifier .ITALIC
  else if value = 4 then style.withModifier .UNDERLINED
  else if value = 7 then style.withModifier .REVERSED
  else if value = 22 then style.withoutModifier (Modifier.BOLD.insert .DIM)
  else if value = 23 then style.withoutModifier .ITALIC
  else if value = 24 then style.withoutModifier .UNDERLINED
  else if value = 27 then style.withoutModifier .REVERSED
  else if 30 ≤ value ∧ value ≤ 37 then style.withFg (baseColor (value - 30) false)
  else if value = 39 then style.withFg .reset
  else if 40 ≤ value ∧ value ≤ 47 then style.withBg (baseColor (value - 40) false)
  else if value = 49 then style.withBg .reset
  else if 90 ≤ value ∧ value ≤ 97 then style.withFg (baseColor (value - 90) true)
  else if 100 ≤ value ∧ value ≤ 107 then style.withBg (baseColor (value - 100) true)
  else style

/-- The loop of `sgr`. -/
def sgrLoop (style : Style) : List Nat → Style
  | [] => style
  | value :: rest =>
    if value = 38 ∨ value = 48 then
      match extendedColor rest with
      | some (color, consumed) =>
        sgrLoop (if value = 38 then style.withFg color else style.withBg color) (rest.drop consumed)
      | none => sgrLoop style rest
    else
      sgrLoop (sgrStyle style value) rest
termination_by parameters => parameters.length
decreasing_by all_goals simp only [List.length_drop, List.length_cons]; omega

/-! ### The parser -/

/-- `skip_osc`: what follows the string. -/
def skipOsc : Bytes → Bytes
  | [] => []
  | 0x07 :: rest => rest
  | 0x1B :: 0x5C :: rest => rest
  | _ :: rest => skipOsc rest

namespace Parser

def default : Parser := ⟨[], ⟨[]⟩, .default, [], false⟩

/-- `flush_text`. -/
def flushText (p : Parser) : Parser :=
  if p.text = [] then
    p
  else
    let text := visibleText p.text
    match p.current.spans.getLast? with
    | some last =>
      if last.style = p.style then
        { p with
          text := []
          current := ⟨p.current.spans.dropLast ++ [⟨last.text ++ text, last.style⟩]⟩ }
      else
        { p with text := [], current := ⟨p.current.spans ++ [⟨text, p.style⟩]⟩ }
    | none => { p with text := [], current := ⟨p.current.spans ++ [⟨text, p.style⟩]⟩ }

/-- A line that is pushed; the oldest goes when there are too many. -/
def pushLine (p : Parser) : Parser :=
  let lines := p.lines ++ [p.current]
  if lines.length > MAX_RENDERED_LINES then
    { p with lines := lines.tail, current := ⟨[]⟩, discardedLines := true }
  else
    { p with lines, current := ⟨[]⟩ }

/-- The loop of `backspace`, from the last span on. -/
def popChar : List StyledSpan → List StyledSpan
  | [] => []
  | last :: before =>
    if last.text = [] then
      popChar before
    else if last.text.dropLast = [] then
      before
    else
      { last with text := last.text.dropLast } :: before

/-- `backspace`. -/
def backspace (p : Parser) : Parser :=
  { p with current := ⟨(popChar p.current.spans.reverse).reverse⟩ }

/-- The final byte of a control sequence. -/
def isFinal (byte : UInt8) : Bool := 0x40 ≤ byte ∧ byte ≤ 0x7E

/-- `escape`, on what follows the escape byte: the parser and the bytes that are left. -/
def escape (p : Parser) : Bytes → Parser × Bytes
  | [] => (p, [])
  | 0x5B :: sequence =>
    match sequence.dropWhile fun byte => !isFinal byte with
    | [] => (p, [])
    | final :: rest =>
      if final = 0x6D then
        let parameters := sequence.takeWhile fun byte => !isFinal byte
        ({ p with style := sgrLoop p.style (sgrParameters parameters) }, rest)
      else
        (p, rest)
  | 0x5D :: rest => (p, skipOsc rest)
  | _ :: rest => (p, rest)

theorem length_skipOsc (bytes : Bytes) : (skipOsc bytes).length ≤ bytes.length := by
  fun_induction skipOsc bytes <;> simp only [List.length_cons, List.length_nil] <;> omega

theorem length_escape (p : Parser) (bytes : Bytes) : (p.escape bytes).2.length ≤ bytes.length := by
  unfold escape
  split
  · exact Nat.le_refl 0
  · rename_i sequence
    split
    · exact Nat.zero_le _
    · rename_i final rest hdrop
      have hle : (sequence.dropWhile fun byte => !isFinal byte).length ≤ sequence.length :=
        (List.dropWhile_sublist _).length_le
      rw [hdrop, List.length_cons] at hle
      split <;> simp only [List.length_cons] <;> omega
  · have hle := length_skipOsc
    simp only [List.length_cons]
    exact Nat.le_succ_of_le (hle _)
  · simp only [List.length_cons]
    omega

/-- `consume`. -/
def consume (p : Parser) : Bytes → Parser
  | [] => p
  | byte :: rest =>
    if byte = 0x1B then
      consume (p.flushText.escape rest).1 (p.flushText.escape rest).2
    else if byte = 0x0A then
      consume p.flushText.pushLine rest
    else if byte = 0x0D then
      consume { p.flushText with current := ⟨[]⟩ } rest
    else if byte = 0x08 then
      consume p.flushText.backspace rest
    else if byte = 0x09 then
      consume { p with text := p.text ++ [32, 32, 32, 32] } rest
    else if byte ≤ 0x1F ∨ byte = 0x7F then
      consume p rest
    else
      consume { p with text := p.text ++ [byte] } rest
termination_by bytes => bytes.length
decreasing_by
  all_goals simp only [List.length_cons]
  · have hle := length_escape p.flushText rest
    omega
  all_goals omega

/-- `finish`. -/
def finish (p : Parser) (truncated : Bool) : TerminalDocument :=
  let last := p.flushText.pushLine
  ⟨last.lines, truncated || last.discardedLines⟩

end Parser

/-- `TerminalDocument::parse`. -/
def TerminalDocument.parse (bytes : Bytes) (truncated : Bool) : TerminalDocument :=
  (Parser.default.consume bytes).finish truncated

/-! ### What bytes do -/

namespace Parser

/-- A byte that is collected as it is. -/
def isPlain (byte : UInt8) : Prop := 0x1F < byte ∧ byte ≠ 0x7F

theorem consume_nil (p : Parser) : p.consume [] = p := by
  rw [consume]

theorem consume_plain {text : Bytes} (h : ∀ byte ∈ text, isPlain byte) (p : Parser) (rest : Bytes) :
    p.consume (text ++ rest) = { p with text := p.text ++ text }.consume rest := by
  induction text generalizing p with
  | nil => simp
  | cons byte text ih =>
    obtain ⟨⟨hlow, hdel⟩, htext⟩ := List.forall_mem_cons.mp h
    have hcontrol : ∀ control : UInt8, control ≤ 0x1F → byte ≠ control := by
      intro control hle heq
      rw [heq] at hlow
      exact absurd hlow (UInt8.not_lt.mpr hle)
    have hignored : ¬ (byte ≤ 0x1F ∨ byte = 0x7F) := by
      rintro (hle | heq)
      · exact absurd hlow (UInt8.not_lt.mpr hle)
      · exact hdel heq
    rw [List.cons_append, consume, if_neg (hcontrol 0x1B (by decide)),
      if_neg (hcontrol 0x0A (by decide)), if_neg (hcontrol 0x0D (by decide)),
      if_neg (hcontrol 0x08 (by decide)), if_neg (hcontrol 0x09 (by decide)), if_neg hignored,
      ih htext, List.append_assoc, List.singleton_append]

theorem consume_newline (p : Parser) (rest : Bytes) :
    p.consume (0x0A :: rest) = p.flushText.pushLine.consume rest := by
  rw [consume, if_neg (by decide), if_pos rfl]

theorem consume_return (p : Parser) (rest : Bytes) :
    p.consume (0x0D :: rest) = { p.flushText with current := ⟨[]⟩ }.consume rest := by
  rw [consume, if_neg (by decide), if_neg (by decide), if_pos rfl]

/-- Nothing is collected after a flush. -/
theorem text_flushText (p : Parser) : p.flushText.text = [] := by
  unfold flushText
  split
  · assumption
  · dsimp only
    split
    · split <;> rfl
    · rfl

theorem flushText_of_nil {p : Parser} (h : p.text = []) : p.flushText = p := if_pos h

theorem lines_flushText (p : Parser) : p.flushText.lines = p.lines := by
  unfold flushText
  split
  · rfl
  · dsimp only
    split
    · split <;> rfl
    · rfl

/-- What a flush leaves on an empty line is nothing, or a span. -/
theorem spans_flushText_eq_nil_iff {p : Parser} :
    p.flushText.current.spans = [] ↔ p.text = [] ∧ p.current.spans = [] := by
  by_cases htext : p.text = []
  · rw [flushText_of_nil htext]
    simp [htext]
  · constructor
    · intro hspans
      unfold flushText at hspans
      rw [if_neg htext] at hspans
      dsimp only at hspans
      split at hspans
      · split at hspans <;> exact absurd hspans (by simp)
      · exact absurd hspans (by simp)
    · rintro ⟨hnil, -⟩
      exact absurd hnil htext

/-- Lines that are pushed on the same lines tell what was pushed. -/
theorem pushLine_inj {p : Parser} {line line' : StyledLine} :
    { p with current := line }.pushLine = { p with current := line' }.pushLine ↔ line = line' := by
  constructor
  · intro h
    have hlines := congrArg (fun q => (Parser.lines q).getLast?) h
    unfold pushLine at hlines
    simp only [List.length_append, List.length_singleton] at hlines
    split at hlines
    · -- the oldest line goes, which is not the one just pushed
      rename_i hmany
      rcases hold : p.lines with _ | ⟨first, rest⟩
      · rw [hold] at hmany
        exact absurd hmany (by decide)
      · simp only [hold, List.cons_append, List.tail_cons, List.getLast?_append,
          List.getLast?_singleton, Option.some_or, Option.some.injEq] at hlines
        exact hlines
    · simp only [List.getLast?_append, List.getLast?_singleton, Option.some_or,
        Option.some.injEq] at hlines
      exact hlines
  · rintro rfl
    rfl

/-- A carriage return before a line feed changes nothing exactly where nothing is on the line. -/
theorem consume_crlf_iff (p : Parser) :
    p.consume [0x0D, 0x0A] = p.consume [0x0A] ↔ p.text = [] ∧ p.current.spans = [] := by
  have hflushed : { p.flushText with current := ⟨[]⟩ }.flushText
      = { p.flushText with current := ⟨[]⟩ } := flushText_of_nil p.text_flushText
  rw [consume_return, consume_newline, consume_newline, consume_nil, consume_nil, hflushed,
    ← spans_flushText_eq_nil_iff]
  have hinj : { p.flushText with current := ⟨[]⟩ }.pushLine = p.flushText.pushLine
      ↔ (⟨[]⟩ : StyledLine) = p.flushText.current := pushLine_inj (p := p.flushText)
  rw [hinj]
  constructor
  · intro h
    rw [← h]
  · intro h
    rw [← h]

/-! ### Whole documents -/

/-- The parser at the start of a line, below the lines it has. -/
def atLine (lines : List StyledLine) : Parser := ⟨lines, ⟨[]⟩, .default, [], false⟩

/-- The line a text makes. -/
def lineOf (text : Bytes) : StyledLine :=
  if text = [] then ⟨[]⟩ else ⟨[⟨visibleText text, .default⟩]⟩

theorem lineOf_eq_nil_iff {text : Bytes} : lineOf text = ⟨[]⟩ ↔ text = [] := by
  unfold lineOf
  split <;> simp_all

theorem flushText_atLine (lines : List StyledLine) (text : Bytes) :
    { atLine lines with text }.flushText = { atLine lines with current := lineOf text } := by
  unfold lineOf
  by_cases htext : text = []
  · subst htext
    rw [if_pos rfl]
    exact flushText_of_nil rfl
  · rw [if_neg htext]
    unfold flushText
    rw [if_neg htext]
    rfl

theorem pushLine_atLine {lines : List StyledLine} (line : StyledLine)
    (h : lines.length < MAX_RENDERED_LINES) :
    { atLine lines with current := line }.pushLine = atLine (lines ++ [line]) := by
  have hfew : ¬ (lines ++ [line]).length > MAX_RENDERED_LINES := by
    rw [List.length_append, List.length_singleton]
    omega
  show (if (lines ++ [line]).length > MAX_RENDERED_LINES then _ else _) = _
  rw [if_neg hfew]
  rfl

/-- The bytes of lines that end in the same way. -/
def terminated (terminator : Bytes) (lines : List String) : Bytes :=
  lines.flatMap fun line => utf8 line ++ terminator

/-- Text without control characters. -/
def Printable (line : String) : Prop := ∀ c ∈ line.toList, isControl c = false

instance (line : String) : Decidable (Printable line) :=
  decidable_of_iff (line.toList.all (isControl · = false) = true) (by simp [Printable])

theorem isPlain_of_printable {line : String} (h : Printable line) {byte : UInt8}
    (hbyte : byte ∈ utf8 line) : isPlain byte := by
  rw [utf8_eq_flatMap] at hbyte
  obtain ⟨c, hc, hmem⟩ := List.mem_flatMap.mp hbyte
  have hvisible := h c hc
  rw [isControl, decide_eq_false_iff_not, not_or, not_and_or] at hvisible
  rw [isPlain, UInt8.lt_iff_toNat_lt, ne_eq, ← UInt8.toNat_inj]
  show 31 < byte.toNat ∧ ¬ byte.toNat = 127
  rcases mem_utf8EncodeChar hmem with hcode | hhigh <;> omega

/-- Where each terminated line makes one line of the document, so do all. -/
theorem consume_terminated {terminator : Bytes} {f : String → StyledLine}
    (hline : ∀ lines line rest, Printable line → lines.length < MAX_RENDERED_LINES →
      (atLine lines).consume (utf8 line ++ (terminator ++ rest))
        = (atLine (lines ++ [f line])).consume rest)
    {lines : List String} (hprintable : ∀ line ∈ lines, Printable line)
    (done : List StyledLine) (hlimit : done.length + lines.length ≤ MAX_RENDERED_LINES) :
    (atLine done).consume (terminated terminator lines) = atLine (done ++ lines.map f) := by
  induction lines generalizing done with
  | nil =>
    rw [List.map_nil, List.append_nil]
    exact consume_nil _
  | cons line rest ih =>
    obtain ⟨hfirst, hrest⟩ := List.forall_mem_cons.mp hprintable
    rw [List.length_cons] at hlimit
    have hnext := ih hrest (done ++ [f line]) (by
      rw [List.length_append, List.length_singleton]
      omega)
    show (atLine done).consume ((utf8 line ++ terminator) ++ terminated terminator rest) = _
    rw [List.append_assoc, hline _ _ _ hfirst (by omega), hnext, List.map_cons, List.append_assoc,
      List.singleton_append]

/-- A line that ends in a line feed shows its text. -/
theorem consume_line_lf (lines : List StyledLine) (line : String) (rest : Bytes)
    (hprintable : Printable line) (hlimit : lines.length < MAX_RENDERED_LINES) :
    (atLine lines).consume (utf8 line ++ ([0x0A] ++ rest))
      = (atLine (lines ++ [lineOf (utf8 line)])).consume rest := by
  rw [consume_plain fun _ => isPlain_of_printable hprintable, List.singleton_append,
    consume_newline]
  show (({ atLine lines with text := utf8 line } : Parser).flushText.pushLine).consume rest = _
  rw [flushText_atLine, pushLine_atLine _ hlimit]

/-- A line that ends in a carriage return and a line feed shows nothing. -/
theorem consume_line_crlf (lines : List StyledLine) (line : String) (rest : Bytes)
    (hprintable : Printable line) (hlimit : lines.length < MAX_RENDERED_LINES) :
    (atLine lines).consume (utf8 line ++ ([0x0D, 0x0A] ++ rest))
      = (atLine (lines ++ [⟨[]⟩])).consume rest := by
  rw [consume_plain fun _ => isPlain_of_printable hprintable, List.cons_append,
    List.singleton_append, consume_return, consume_newline]
  show ((({ ({ atLine lines with text := utf8 line } : Parser).flushText with
    current := ⟨[]⟩ } : Parser)).flushText.pushLine).consume rest = _
  rw [flushText_atLine]
  show ((atLine lines).flushText.pushLine).consume rest = _
  rw [flushText_of_nil rfl]
  exact congrArg (consume · rest) (pushLine_atLine ⟨[]⟩ hlimit)

end Parser

open Rewind.Parser

theorem finish_atLine {lines : List StyledLine} (truncated : Bool)
    (h : lines.length < MAX_RENDERED_LINES) :
    ((atLine lines).finish truncated).lines = lines ++ [⟨[]⟩] := by
  have hpush := pushLine_atLine ⟨[]⟩ h
  show ((atLine lines).flushText.pushLine).lines = _
  rw [flushText_of_nil rfl]
  exact congrArg Parser.lines hpush

theorem parse_lf {lines : List String} (hprintable : ∀ line ∈ lines, Printable line)
    (hlimit : lines.length < MAX_RENDERED_LINES) (truncated : Bool) :
    (TerminalDocument.parse (terminated [0x0A] lines) truncated).lines
      = lines.map (fun line => lineOf (utf8 line)) ++ [⟨[]⟩] := by
  have hconsumed := consume_terminated consume_line_lf hprintable [] (by
    rw [List.length_nil]
    omega)
  show ((atLine []).consume (terminated [0x0A] lines) |>.finish truncated).lines = _
  rw [hconsumed, List.nil_append, finish_atLine truncated (by rwa [List.length_map])]

theorem parse_crlf {lines : List String} (hprintable : ∀ line ∈ lines, Printable line)
    (hlimit : lines.length < MAX_RENDERED_LINES) (truncated : Bool) :
    (TerminalDocument.parse (terminated [0x0D, 0x0A] lines) truncated).lines
      = lines.map (fun _ => ⟨[]⟩) ++ [⟨[]⟩] := by
  have hconsumed := consume_terminated (f := fun _ => ⟨[]⟩) consume_line_crlf hprintable [] (by
    rw [List.length_nil]
    omega)
  show ((atLine []).consume (terminated [0x0D, 0x0A] lines) |>.finish truncated).lines = _
  rw [hconsumed, List.nil_append, finish_atLine truncated (by rwa [List.length_map])]

/-- **Carriage return and line feed.**  Lines of printable text that end in `\r\n` render as those
that end in `\n` exactly if all of them are empty; and in any state of the parser, a carriage return
and a line feed do what the line feed does exactly if no text is on the line. -/
theorem crlf_renders_iff (lines : List String) (truncated : Bool)
    (hprintable : ∀ line ∈ lines, Printable line) (hlimit : lines.length < MAX_RENDERED_LINES) :
    ((TerminalDocument.parse (terminated [0x0D, 0x0A] lines) truncated).lines
        = (TerminalDocument.parse (terminated [0x0A] lines) truncated).lines
      ↔ ∀ line ∈ lines, line = "")
      ∧ ∀ p : Parser, p.consume [0x0D, 0x0A] = p.consume [0x0A]
          ↔ p.text = [] ∧ p.current.spans = [] := by
  refine ⟨?_, consume_crlf_iff⟩
  rw [parse_crlf hprintable hlimit, parse_lf hprintable hlimit, List.append_left_inj,
    List.map_inj_left]
  constructor
  · intro h line hline
    exact utf8_eq_nil_iff.mp (lineOf_eq_nil_iff.mp (h line hline).symm)
  · intro h line hline
    exact (lineOf_eq_nil_iff.mpr (utf8_eq_nil_iff.mpr (h line hline))).symm

/-- The one line of a captured command: shown in full after a line feed alone. -/
theorem crlf_discards_line :
    ¬ ∀ (lines : List String) (truncated : Bool), (∀ line ∈ lines, Printable line) →
      lines.length < MAX_RENDERED_LINES →
        (TerminalDocument.parse (terminated [0x0D, 0x0A] lines) truncated).lines
          = (TerminalDocument.parse (terminated [0x0A] lines) truncated).lines := by
  intro hall
  have hprintable : ∀ line ∈ ["integration"], Printable line := by decide
  have hlimit : ["integration"].length < MAX_RENDERED_LINES := by decide
  have hsame := hall ["integration"] false hprintable hlimit
  rw [parse_crlf hprintable hlimit, parse_lf hprintable hlimit, List.append_left_inj] at hsame
  have hline : lineOf (utf8 "integration") = ⟨[]⟩ := (List.cons.inj hsame).1.symm
  exact absurd (lineOf_eq_nil_iff.mp hline) (by decide)

/-- A text and an empty line; the pair does not render alike. -/
theorem crlf_renders_iff_integration :
    (∀ line ∈ ["integration", ""], Printable line) ∧
      (TerminalDocument.parse (terminated [0x0D, 0x0A] ["integration", ""]) false).lines
        ≠ (TerminalDocument.parse (terminated [0x0A] ["integration", ""]) false).lines := by
  have hprintable : ∀ line ∈ ["integration", ""], Printable line := by decide
  refine ⟨hprintable, fun hsame => ?_⟩
  have hempty := (crlf_renders_iff ["integration", ""] false hprintable (by decide)).1.mp hsame
  exact absurd (hempty "integration" List.mem_cons_self) (by decide)

end Rewind
