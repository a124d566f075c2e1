/-
JSON in the script element of a page.

The page holds the recorded data as JSON text between two fixed texts.  Characters that could end
the script element are written as escapes; they occur in strings only, where the escape stands for
the same character.

* `not_infix_safeScriptJson` — the characters are gone;
* `parseJson_safeScriptJson` — the value is the same;
* `safeScriptJson_inert_lossless` — both, and how the page is made up.
-/
import Rewind.Cli.Export
import Rewind.Lib.JsonReader
import Rewind.Lib.Replace

namespace Rewind

/-! ### The replacements -/

/-- What `safe_script_json` replaces, in its order. -/
def scriptEscapes : List (Bytes × Bytes) :=
  [(utf8 "<", utf8 "\\u003c"), (utf8 ">", utf8 "\\u003e"), (utf8 "&", utf8 "\\u0026"),
    ([0xE2, 0x80, 0xA8], utf8 "\\u2028"), ([0xE2, 0x80, 0xA9], utf8 "\\u2029")]

/-- One replacement after the other. -/
def replaceEach (escapes : List (Bytes × Bytes)) (text : Bytes) : Bytes :=
  escapes.foldl (fun text e => replaceAll e.1 e.2 text) text

theorem safeScriptJson_eq (text : Bytes) :
    safeScriptJson text = replaceEach scriptEscapes text := rfl

/-- The replaced texts and their replacements have no byte in common. -/
structure Apart (escapes : List (Bytes × Bytes)) : Prop where
  nonempty : ∀ e ∈ escapes, e.1 ≠ [] ∧ e.2 ≠ []
  apart : ∀ e ∈ escapes, ∀ e' ∈ escapes, ∀ b ∈ e.1, b ∉ e'.2

theorem scriptEscapes_apart : Apart scriptEscapes :=
  ⟨by decide +kernel, by decide +kernel⟩

/-- What is not in a text does not come into it. -/
theorem not_infix_replaceEach {escapes : List (Bytes × Bytes)} {sought text : Bytes}
    (hne : sought ≠ []) (h : ∀ e ∈ escapes, e.1 ≠ [] ∧ e.2 ≠ [] ∧ ∀ b ∈ sought, b ∉ e.2)
    (hnot : ¬ sought <:+: text) : ¬ sought <:+: replaceEach escapes text := by
  induction escapes generalizing text with
  | nil => exact hnot
  | cons e rest ih =>
    obtain ⟨⟨hpattern, hreplacement, hbytes⟩, hrest⟩ := List.forall_mem_cons.mp h
    refine ih hrest fun hfound => hnot ?_
    exact infix_of_infix_replaceAll hpattern hreplacement hne hbytes hfound

/-- Each replaced text is gone in the end. -/
theorem Apart.not_infix {escapes : List (Bytes × Bytes)} (h : Apart escapes) (text : Bytes) :
    ∀ e ∈ escapes, ¬ e.1 <:+: replaceEach escapes text := by
  have hsuffix : ∀ done rest, done ++ rest = escapes → ∀ text, ∀ e ∈ rest,
      ¬ e.1 <:+: replaceEach rest text := by
    intro done rest
    induction rest generalizing done with
    | nil => exact fun _ _ e he => absurd he List.not_mem_nil
    | cons first later ih =>
      rintro rfl text e he
      rcases List.mem_cons.mp he with rfl | hlater
      · have hmem : e ∈ done ++ e :: later := List.mem_append_right _ List.mem_cons_self
        obtain ⟨hpattern, hreplacement⟩ := h.nonempty e hmem
        -- gone after its own replacement, and none of the later ones brings it back
        have hgone : ¬ e.1 <:+: replaceAll e.1 e.2 text :=
          not_infix_replaceAll hpattern hreplacement (h.apart e hmem e hmem)
        show ¬ e.1 <:+: replaceEach later (replaceAll e.1 e.2 text)
        refine not_infix_replaceEach hpattern (fun e' he' => ?_) hgone
        have hmem' : e' ∈ done ++ e :: later :=
          List.mem_append_right _ (List.mem_cons_of_mem _ he')
        exact ⟨(h.nonempty e' hmem').1, (h.nonempty e' hmem').2, h.apart e hmem e' hmem'⟩
      · exact ih (done ++ [first]) (by simp) (replaceAll first.1 first.2 text) e hlater
  exact hsuffix [] escapes rfl text

theorem not_infix_safeScriptJson (text : Bytes) :
    ∀ c ∈ ["<", ">", "&", "\u2028", "\u2029"], ¬ utf8 c <:+: safeScriptJson text := by
  have hgone := scriptEscapes_apart.not_infix text
  have hsame : ["<", ">", "&", "\u2028", "\u2029"].map utf8 = scriptEscapes.map (·.1) := by
    decide
  intro c hc
  have hmem : utf8 c ∈ scriptEscapes.map (·.1) := by
    rw [← hsame]
    exact List.mem_map_of_mem hc
  obtain ⟨e, he, hpattern⟩ := List.mem_map.mp hmem
  rw [← hpattern, safeScriptJson_eq]
  exact hgone e he

/-! ### Reading the text back -/

/-- Escapes that the lexer reads as what they replace. -/
def SameToLexer (escapes : List (Bytes × Bytes)) : Prop :=
  ∀ e ∈ escapes, e.1 ≠ [] ∧ ∀ s s', e.1.foldlM lexByte s = some s' → e.2.foldlM lexByte s = some s'

theorem SameToLexer.foldlM {escapes : List (Bytes × Bytes)} (h : SameToLexer escapes)
    {text : Bytes} {s s' : Lexer} (hread : text.foldlM lexByte s = some s') :
    (replaceEach escapes text).foldlM lexByte s = some s' := by
  induction escapes generalizing text with
  | nil => exact hread
  | cons e rest ih =>
    obtain ⟨⟨hpattern, hsame⟩, hrest⟩ := List.forall_mem_cons.mp h
    exact ih hrest (foldlM_replaceAll hpattern hsame hread)

theorem inStringsOnly_lt : InStringsOnly 0x3C := ⟨fun _ => rfl, rfl, fun _ => rfl, rfl, rfl⟩

theorem inStringsOnly_gt : InStringsOnly 0x3E := ⟨fun _ => rfl, rfl, fun _ => rfl, rfl, rfl⟩

theorem inStringsOnly_amp : InStringsOnly 0x26 := ⟨fun _ => rfl, rfl, fun _ => rfl, rfl, rfl⟩

/-- The first byte of the two line separators. -/
theorem inStringsOnly_separator : InStringsOnly 0xE2 :=
  ⟨fun _ => rfl, rfl, fun _ => rfl, rfl, rfl⟩

/-- A separator in a string is its unit. -/
theorem lex_separator (tokens : List JsonToken) (units : List UInt16) :
    ([0xE2, 0x80, 0xA8] : Bytes).foldlM lexByte ⟨tokens, .string units⟩
        = some ⟨tokens, .string (units ++ [0x2028])⟩
      ∧ ([0xE2, 0x80, 0xA9] : Bytes).foldlM lexByte ⟨tokens, .string units⟩
        = some ⟨tokens, .string (units ++ [0x2029])⟩ := by
  have hfirst : lexString units 0xE2 = some (.character units 2 2 0x800) := rfl
  have hsecond : lexCharacter units 2 2 0x800 0x80 = some (.character units 1 0x80 0x800) := rfl
  have hline : lexCharacter units 1 0x80 0x800 0xA8 = some (.string (units ++ [0x2028])) := by
    simp [lexCharacter, isContinuation, utf16]
  have hparagraph : lexCharacter units 1 0x80 0x800 0xA9
      = some (.string (units ++ [0x2029])) := by
    simp [lexCharacter, isContinuation, utf16]
  constructor
  · simp [lexByte, hfirst, hsecond, hline]
  · simp [lexByte, hfirst, hsecond, hparagraph]

theorem sameToLexer_scriptEscapes : SameToLexer scriptEscapes := by
  intro e he
  simp only [scriptEscapes, List.mem_cons, List.not_mem_nil, or_false] at he
  rcases he with rfl | rfl | rfl | rfl | rfl
  · exact ⟨by decide, foldlM_lexByte_of_string rfl inStringsOnly_lt fun _ _ => rfl⟩
  · exact ⟨by decide, foldlM_lexByte_of_string rfl inStringsOnly_gt fun _ _ => rfl⟩
  · exact ⟨by decide, foldlM_lexByte_of_string rfl inStringsOnly_amp fun _ _ => rfl⟩
  · refine ⟨by decide, foldlM_lexByte_of_string rfl inStringsOnly_separator ?_⟩
    exact fun tokens units => (lex_separator tokens units).1.trans rfl
  · refine ⟨by decide, foldlM_lexByte_of_string rfl inStringsOnly_separator ?_⟩
    exact fun tokens units => (lex_separator tokens units).2.trans rfl

/-- A text that is JSON is read as the same value afterwards. -/
theorem parseJson_safeScriptJson {text : Bytes} {value : JsonValue}
    (h : parseJson text = some value) : parseJson (safeScriptJson text) = some value := by
  rw [parseJson, Option.bind_eq_bind, Option.bind_eq_some_iff] at h ⊢
  obtain ⟨tokens, hlex, hparse⟩ := h
  refine ⟨tokens, ?_, hparse⟩
  rw [lexText, Option.bind_eq_bind, Option.bind_eq_some_iff] at hlex ⊢
  obtain ⟨s, hread, hfinish⟩ := hlex
  exact ⟨s, sameToLexer_scriptEscapes.foldlM hread, hfinish⟩

/-! ### The page -/

section Page

variable {W : Type} {codecs : Codecs} {d : Disk} {files : ExportFiles W} {json : ExportJson}
  {frame : HtmlFrame} {run : Run} {output : Option Bytes} {redactInput : Bool}

/-- A page is the data between the two fixed texts. -/
theorem exists_text_of_exportHtml {path html : Bytes}
    (h : exportHtml codecs d files json frame run output redactInput = .ok (path, html)) :
    ∃ data text, json.html data = .ok text
      ∧ html = frame.before ++ safeScriptJson text ++ frame.after := by
  obtain ⟨initialId, -, h⟩ := Except.bind_eq_ok_iff.mp h
  obtain ⟨finalId, -, h⟩ := Except.bind_eq_ok_iff.mp h
  obtain ⟨initial, -, h⟩ := Except.bind_eq_ok_iff.mp h
  obtain ⟨finalSnapshot, -, h⟩ := Except.bind_eq_ok_iff.mp h
  obtain ⟨checkpoints, -, h⟩ := Except.bind_eq_ok_iff.mp h
  obtain ⟨views, -, h⟩ := Except.bind_eq_ok_iff.mp h
  obtain ⟨text, htext, h⟩ := Except.bind_eq_ok_iff.mp h
  obtain ⟨written, -, h⟩ := Except.bind_eq_ok_iff.mp h
  have hpair := Except.pure_eq_ok_iff.mp h
  exact ⟨_, text, Except.mapError_eq_ok_iff.mp htext, (congrArg Prod.snd hpair).symm⟩

/-- **JSON in a page is inert and lossless.**  None of the five characters is left in a text; where
the text is JSON, as what `serde_json` makes of a value, it still has the same value; and every page
holds its data in this form. -/
theorem safeScriptJson_inert_lossless :
    (∀ text,
      (∀ c ∈ ["<", ">", "&", "\u2028", "\u2029"], ¬ utf8 c <:+: safeScriptJson text)
      ∧ ∀ parsed, parseJson text = some parsed → parseJson (safeScriptJson text) = some parsed)
    ∧ ∀ (W : Type) (codecs : Codecs) (d : Disk) (files : ExportFiles W) (json : ExportJson)
        (frame : HtmlFrame) (run : Run) (output : Option Bytes) (redactInput : Bool)
        (path html : Bytes),
        exportHtml codecs d files json frame run output redactInput = .ok (path, html) →
        ∃ data text, json.html data = .ok text
          ∧ html = frame.before ++ safeScriptJson text ++ frame.after := by
  refine ⟨fun text => ⟨not_infix_safeScriptJson text, fun parsed hparsed => ?_⟩, ?_⟩
  · exact parseJson_safeScriptJson hparsed
  · intro W codecs d files json frame run output redactInput path html h
    exact exists_text_of_exportHtml h

end Page

namespace ScriptSample

/-- What `serde_json` writes for a map with one text, in which the characters follow
backslashes. -/
def text : Bytes := utf8 "\x7b\"value\":\"</script>\\\\<\\\"&\u2028\"\x7d"

/-- The map. -/
def value : JsonValue :=
  .object [([118, 97, 108, 117, 101],
    .string [60, 47, 115, 99, 114, 105, 112, 116, 62, 92, 60, 34, 38, 0x2028])]

theorem parseJson_text : parseJson text = some value := by
  have hlex : lexText text = some [.mark 0x7B, .string [118, 97, 108, 117, 101], .mark 0x3A,
      .string [60, 47, 115, 99, 114, 105, 112, 116, 62, 92, 60, 34, 38, 0x2028], .mark 0x7D] := by
    decide +kernel
  rw [parseJson, hlex]
  rfl

end ScriptSample

theorem safeScriptJson_inert_lossless_sample :
    (∀ c ∈ ["<", ">", "&", "\u2028", "\u2029"],
        ¬ utf8 c <:+: safeScriptJson ScriptSample.text)
      ∧ parseJson (safeScriptJson ScriptSample.text) = some ScriptSample.value :=
  have h := safeScriptJson_inert_lossless.1 ScriptSample.text
  ⟨h.1, h.2 _ ScriptSample.parseJson_text⟩

end Rewind
