/-
The terminal pane's parser, at its index.

The parser walks over recorded bytes with an index, and takes slices of them.  Here every access is
checked: one that is out of range has no result, and neither has a loop that does not end.

* `Parser.consumeAt`, `Parser.escapeAt`, `skipOscAt` — the parser with its index;
* `consumeAt_eq` — it always has a result, that of the parser on what is left;
* `window` — a parser that keeps the last lines, of one that keeps them all;
* **`terminal_safe`** — the accesses are in range, nothing that is shown is a control character, and
  the lines are the last of all lines.
-/
import Rewind.Lib.Slices
import Rewind.Tui.Terminal

namespace Rewind

/-! ### The parser with its index -/

/-- `skip_osc`. -/
def skipOscAt (bytes : Bytes) (index : Nat) : Option Nat :=
  if index < bytes.length then do
    let byte ← bytes[index]?
    if byte = 0x07 then return index + 1
    if byte = 0x1B ∧ bytes[index + 1]? = some 0x5C then return index + 2
    skipOscAt bytes (index + 1)
  else
    some index
termination_by bytes.length - index

/-- The loop of `sgr`. -/
def sgrAt (parameters : List Nat) (style : Style) (index : Nat) : Option Style :=
  if index < parameters.length then do
    let value ← parameters[index]?
    if value = 38 ∨ value = 48 then
      match extendedColor (← sliceFrom parameters (index + 1)) with
      | some (color, consumed) =>
        sgrAt parameters (if value = 38 then style.withFg color else style.withBg color)
          (index + consumed + 1)
      | none => sgrAt parameters style (index + 1)
    else
      sgrAt parameters (sgrStyle style value) (index + 1)
  else
    some style
termination_by parameters.length - index

namespace Parser

/-- The end of a control sequence. -/
def sequenceEnd (bytes : Bytes) (index : Nat) : Option Nat :=
  if index < bytes.length then do
    let byte ← bytes[index]?
    if isFinal byte then return index
    sequenceEnd bytes (index + 1)
  else
    some index
termination_by bytes.length - index

/-- `escape`. -/
def escapeAt (p : Parser) (bytes : Bytes) (start : Nat) : Option (Parser × Nat) :=
  match bytes[start + 1]? with
  | none => some (p, bytes.length)
  | some kind =>
    if kind = 0x5B then do
      let stop ← sequenceEnd bytes (start + 2)
      if stop = bytes.length then return (p, stop)
      let final ← bytes[stop]?
      if final = 0x6D then
        let parameters ← sliceBetween bytes (start + 2) stop
        let style ← sgrAt (sgrParameters parameters) p.style 0
        return ({ p with style }, stop + 1)
      return (p, stop + 1)
    else if kind = 0x5D then do
      let next ← skipOscAt bytes (start + 2)
      return (p, next)
    else
      some (p, min (start + 2) bytes.length)

/-- `consume`, for some rounds. -/
def consumeAt (bytes : Bytes) : Nat → Parser → Nat → Option Parser
  | 0, _, _ => none
  | rounds + 1, p, index =>
    if index < bytes.length then do
      let byte ← bytes[index]?
      if byte = 0x1B then
        let (p, next) ← p.flushText.escapeAt bytes index
        consumeAt bytes rounds p next
      else if byte = 0x0A then
        consumeAt bytes rounds p.flushText.pushLine (index + 1)
      else if byte = 0x0D then
        consumeAt bytes rounds { p.flushText with current := ⟨[]⟩ } (index + 1)
      else if byte = 0x08 then
        consumeAt bytes rounds p.flushText.backspace (index + 1)
      else if byte = 0x09 then
        consumeAt bytes rounds { p with text := p.text ++ [32, 32, 32, 32] } (index + 1)
      else if byte ≤ 0x1F ∨ byte = 0x7F then
        consumeAt bytes rounds p (index + 1)
      else
        consumeAt bytes rounds { p with text := p.text ++ [byte] } (index + 1)
    else
      some p

end Parser

/-- `TerminalDocument::parse`, with every access checked. -/
def TerminalDocument.parseAt (bytes : Bytes) (truncated : Bool) : Option TerminalDocument :=
  (Parser.consumeAt bytes (bytes.length + 1) .default 0).map fun p => p.finish truncated

/-! ### Accesses in range -/

/-- The string is skipped within the bytes, to what the skip on the rest leaves. -/
theorem skipOscAt_eq {bytes : Bytes} {index : Nat} (h : index ≤ bytes.length) :
    ∃ next, skipOscAt bytes index = some next ∧ index ≤ next ∧ next ≤ bytes.length
      ∧ bytes.drop next = skipOsc (bytes.drop index) := by
  obtain ⟨left, hleft⟩ : ∃ left, left = bytes.length - index := ⟨_, rfl⟩
  induction left generalizing index with
  | zero =>
    have hend : index = bytes.length := by omega
    refine ⟨index, ?_, Nat.le_refl _, h, ?_⟩
    · rw [skipOscAt, if_neg (by omega)]
    · rw [hend, List.drop_length]
      rfl
  | succ left ih =>
    have hlt : index < bytes.length := by omega
    have hbyte : bytes[index]? = some bytes[index] := List.getElem?_eq_getElem hlt
    rw [skipOscAt, if_pos hlt, hbyte, drop_of_getElem? hbyte]
    simp only [Option.bind_eq_bind, Option.bind_some]
    by_cases hbell : bytes[index] = 0x07
    · refine ⟨index + 1, ?_, by omega, by omega, ?_⟩
      · rw [if_pos hbell]
        rfl
      · rw [hbell, skipOsc]
    · rw [if_neg hbell]
      by_cases hterminator : bytes[index] = 0x1B ∧ bytes[index + 1]? = some 0x5C
      · obtain ⟨hnext, -⟩ := List.getElem?_eq_some_iff.mp hterminator.2
        refine ⟨index + 2, ?_, by omega, by omega, ?_⟩
        · rw [if_pos hterminator]
          rfl
        · rw [hterminator.1, drop_of_getElem? hterminator.2, skipOsc]
      · obtain ⟨next, hskip, hle, hrange, hrest⟩ := @ih (index + 1) (by omega) (by omega)
        refine ⟨next, ?_, by omega, hrange, ?_⟩
        · rw [if_neg hterminator]
          exact hskip
        · rw [hrest, skipOsc.eq_4 _ _ hbell]
          intro rest hescape hdrop
          refine hterminator ⟨hescape, ?_⟩
          have hhead := congrArg List.head? hdrop
          rwa [List.head?_drop] at hhead

/-- A colour takes parameters that are there. -/
theorem consumed_extendedColor {parameters : List Nat} {color : Color} {consumed : Nat}
    (h : extendedColor parameters = some (color, consumed)) : consumed ≤ parameters.length := by
  unfold extendedColor at h
  split at h
  · split at h
    · obtain ⟨-, rfl⟩ := Prod.mk.inj (Option.some.inj h)
      simp only [List.length_cons]
      omega
    · exact absurd h (by simp)
  · split at h
    · obtain ⟨-, rfl⟩ := Prod.mk.inj (Option.some.inj h)
      simp only [List.length_cons]
      omega
    · exact absurd h (by simp)
  · exact absurd h (by simp)

theorem sgrAt_eq {parameters : List Nat} {style : Style} {index : Nat}
    (h : index ≤ parameters.length) :
    sgrAt parameters style index = some (sgrLoop style (parameters.drop index)) := by
  obtain ⟨left, hleft⟩ : ∃ left, parameters.length - index ≤ left := ⟨_, Nat.le_refl _⟩
  induction left generalizing index style with
  | zero =>
    have hend : index = parameters.length := by omega
    rw [sgrAt, if_neg (by omega), hend, List.drop_length, sgrLoop]
  | succ left ih =>
    by_cases hlt : index < parameters.length
    · have hvalue : parameters[index]? = some parameters[index] := List.getElem?_eq_getElem hlt
      have hslice : sliceFrom parameters (index + 1) = some (parameters.drop (index + 1)) :=
        if_pos hlt
      rw [sgrAt, if_pos hlt, hvalue, drop_of_getElem? hvalue, sgrLoop]
      simp only [Option.bind_eq_bind, Option.bind_some, hslice]
      by_cases hextended : parameters[index] = 38 ∨ parameters[index] = 48
      · rw [if_pos hextended, if_pos hextended]
        rcases hcolor : extendedColor (parameters.drop (index + 1)) with _ | ⟨color, consumed⟩
        · exact ih (by omega) (by omega)
        · -- the parameters of the colour are skipped, and they are there
          have hle := consumed_extendedColor hcolor
          rw [List.length_drop] at hle
          have hrest : (parameters.drop (index + 1)).drop consumed
              = parameters.drop (index + consumed + 1) := by
            rw [List.drop_drop]
            congr 1
            omega
          simp only [hrest]
          exact ih (by omega) (by omega)
      · rw [if_neg hextended, if_neg hextended]
        exact ih (by omega) (by omega)
    · have hend : index = parameters.length := by omega
      rw [sgrAt, if_neg hlt, hend, List.drop_length, sgrLoop]

namespace Parser

theorem sequenceEnd_eq {bytes : Bytes} {index : Nat} (h : index ≤ bytes.length) :
    ∃ stop, sequenceEnd bytes index = some stop ∧ index ≤ stop ∧ stop ≤ bytes.length
      ∧ bytes.drop stop = (bytes.drop index).dropWhile (fun byte => !isFinal byte)
      ∧ (bytes.drop index).take (stop - index)
        = (bytes.drop index).takeWhile fun byte => !isFinal byte := by
  obtain ⟨left, hleft⟩ : ∃ left, left = bytes.length - index := ⟨_, rfl⟩
  induction left generalizing index with
  | zero =>
    have hend : index = bytes.length := by omega
    refine ⟨index, ?_, Nat.le_refl _, h, ?_, ?_⟩
    · rw [sequenceEnd, if_neg (by omega)]
    · rw [hend, List.drop_length, List.dropWhile_nil]
    · rw [hend, List.drop_length, List.take_nil, List.takeWhile_nil]
  | succ left ih =>
    have hlt : index < bytes.length := by omega
    have hbyte : bytes[index]? = some bytes[index] := List.getElem?_eq_getElem hlt
    rw [sequenceEnd, if_pos hlt, hbyte, drop_of_getElem? hbyte]
    simp only [Option.bind_eq_bind, Option.bind_some]
    by_cases hfinal : isFinal bytes[index] = true
    · refine ⟨index, ?_, Nat.le_refl _, h, ?_, ?_⟩
      · rw [if_pos hfinal]
        rfl
      · rw [List.dropWhile_cons_of_neg (by simp [hfinal])]
        exact drop_of_getElem? hbyte
      · rw [List.takeWhile_cons_of_neg (by simp [hfinal]), Nat.sub_self, List.take_zero]
    · obtain ⟨stop, hstop, hle, hrange, hdrop, htake⟩ :=
        @ih (index + 1) (by omega) (by omega)
      refine ⟨stop, ?_, by omega, hrange, ?_, ?_⟩
      · rw [if_neg hfinal]
        exact hstop
      · rw [List.dropWhile_cons_of_pos (by simp [hfinal])]
        exact hdrop
      · have hcount : stop - index = (stop - (index + 1)) + 1 := by omega
        rw [List.takeWhile_cons_of_pos (by simp [hfinal]), hcount, List.take_succ_cons, htake]

/-- An escape ends within the bytes, and leaves what the escape on the rest leaves. -/
theorem escapeAt_eq (p : Parser) {bytes : Bytes} {start : Nat} (h : start < bytes.length) :
    ∃ next, p.escapeAt bytes start = some ((p.escape (bytes.drop (start + 1))).1, next)
      ∧ start < next ∧ next ≤ bytes.length
      ∧ bytes.drop next = (p.escape (bytes.drop (start + 1))).2 := by
  unfold escapeAt
  rcases hkind : bytes[start + 1]? with _ | kind
  · have hshort : bytes.length ≤ start + 1 := List.getElem?_eq_none_iff.mp hkind
    rw [List.drop_of_length_le hshort]
    exact ⟨bytes.length, rfl, h, Nat.le_refl _, List.drop_length⟩
  · obtain ⟨hlt, -⟩ := List.getElem?_eq_some_iff.mp hkind
    rw [drop_of_getElem? hkind]
    dsimp only
    by_cases hsequence : kind = 0x5B
    · subst hsequence
      obtain ⟨stop, hstop, hle, hrange, hdrop, htake⟩ :=
        @sequenceEnd_eq bytes (start + 2) (by omega)
      rw [if_pos rfl, hstop, escape, ← hdrop]
      simp only [Option.bind_eq_bind, Option.bind_some]
      by_cases hend : stop = bytes.length
      · subst hend
        rw [List.drop_length]
        exact ⟨bytes.length, by rw [if_pos rfl]; rfl, by omega, Nat.le_refl _, List.drop_length⟩
      · have hbyte : bytes[stop]? = some bytes[stop] := List.getElem?_eq_getElem (by omega)
        have hslice : sliceBetween bytes (start + 2) stop
            = some ((bytes.drop (start + 2)).take (stop - (start + 2))) := if_pos ⟨hle, hrange⟩
        refine ⟨stop + 1, ?_, by omega, by omega, ?_⟩
        · rw [if_neg hend, hbyte, drop_of_getElem? hbyte]
          simp only [Option.bind_some]
          by_cases hfinal : bytes[stop] = 0x6D
          · rw [if_pos hfinal, if_pos hfinal, hslice, htake]
            simp only [Option.bind_some, sgrAt_eq (Nat.zero_le _), List.drop_zero]
            rfl
          · rw [if_neg hfinal, if_neg hfinal]
            rfl
        · rw [drop_of_getElem? hbyte]
          by_cases hfinal : bytes[stop] = 0x6D
          · simp only [if_pos hfinal]
          · simp only [if_neg hfinal]
    · rw [if_neg hsequence]
      by_cases hstring : kind = 0x5D
      · subst hstring
        obtain ⟨next, hskip, hle, hrange, hrest⟩ :=
          @skipOscAt_eq bytes (start + 2) (by omega)
        rw [if_pos rfl, hskip]
        exact ⟨next, rfl, by omega, hrange, hrest⟩
      · rw [if_neg hstring, escape.eq_4 _ _ _ hsequence hstring, Nat.min_eq_left (by omega)]
        exact ⟨start + 2, rfl, by omega, by omega, rfl⟩

/-- **The loop with its index** returns what the loop on the rest returns. -/
theorem consumeAt_eq {bytes : Bytes} {rounds : Nat} {p : Parser} {index : Nat}
    (h : index ≤ bytes.length) (hrounds : bytes.length - index < rounds) :
    consumeAt bytes rounds p index = some (p.consume (bytes.drop index)) := by
  induction rounds generalizing p index with
  | zero => omega
  | succ rounds ih =>
    by_cases hlt : index < bytes.length
    · have hbyte : bytes[index]? = some bytes[index] := List.getElem?_eq_getElem hlt
      rw [consumeAt, if_pos hlt, hbyte, drop_of_getElem? hbyte, consume]
      simp only [Option.bind_eq_bind, Option.bind_some]
      by_cases hescape : bytes[index] = 0x1B
      · obtain ⟨next, hat, hless, hrange, hrest⟩ := escapeAt_eq p.flushText hlt
        rw [if_pos hescape, if_pos hescape, hat, ← hrest]
        exact ih hrange (by omega)
      · rw [if_neg hescape, if_neg hescape]
        -- every other byte is one step of the index
        have hnext : ∀ q : Parser,
            consumeAt bytes rounds q (index + 1) = some (q.consume (bytes.drop (index + 1))) :=
          fun q => ih hlt (by omega)
        simp only [hnext]
        split
        · rfl
        · split
          · rfl
          · split
            · rfl
            · split
              · rfl
              · split <;> rfl
    · have hend : index = bytes.length := by omega
      rw [consumeAt, if_neg hlt, hend, List.drop_length, consume_nil]

/-! ### Parsers side by side -/

/-- `consume`, with the way in which a line is pushed. -/
def consumeBy (push : Parser → Parser) (p : Parser) : Bytes → Parser
  | [] => p
  | byte :: rest =>
    if byte = 0x1B then
      consumeBy push (p.flushText.escape rest).1 (p.flushText.escape rest).2
    else if byte = 0x0A then
      consumeBy push (push p.flushText) rest
    else if byte = 0x0D then
      consumeBy push { p.flushText with current := ⟨[]⟩ } rest
    else if byte = 0x08 then
      consumeBy push p.flushText.backspace rest
    else if byte = 0x09 then
      consumeBy push { p with text := p.text ++ [32, 32, 32, 32] } rest
    else if byte ≤ 0x1F ∨ byte = 0x7F then
      consumeBy push p rest
    else
      consumeBy push { p with text := p.text ++ [byte] } rest
termination_by bytes => bytes.length
decreasing_by
  all_goals simp only [List.length_cons]
  · have hle := length_escape p.flushText rest
    omega
  all_goals omega

theorem consumeBy_pushLine (p : Parser) (bytes : Bytes) :
    p.consumeBy pushLine bytes = p.consume bytes := by
  induction p, bytes using Parser.consume.induct with
  | case1 p => rw [consumeBy, consume]
  | case2 | case3 | case4 | case5 | case6 | case7 | case8 => rw [consumeBy, consume]; simp [*]

/-- An escape changes the style, and no line. -/
theorem escape_frame (p : Parser) (bytes : Bytes) :
    (p.escape bytes).1 = { p with style := (p.escape bytes).1.style } := by
  unfold escape
  split
  · rfl
  · split
    · rfl
    · dsimp only
      split <;> rfl
  · rfl
  · rfl

/-- What an escape leaves does not depend on the parser, and its style on the style before. -/
theorem escape_congr {p q : Parser} (bytes : Bytes) :
    (p.escape bytes).2 = (q.escape bytes).2
      ∧ (p.style = q.style → (p.escape bytes).1.style = (q.escape bytes).1.style) := by
  unfold escape
  split
  · exact ⟨rfl, id⟩
  · split
    · exact ⟨rfl, id⟩
    · dsimp only
      split
      · exact ⟨rfl, fun hstyle => by rw [hstyle]⟩
      · exact ⟨rfl, id⟩
  · exact ⟨rfl, id⟩
  · exact ⟨rfl, id⟩

/-- What every byte keeps between two parsers, with their ways to push a line. -/
structure Simulates (R : Parser → Parser → Prop) (push push' : Parser → Parser) : Prop where
  flush : ∀ {p q : Parser}, R p q → R p.flushText q.flushText
  push : ∀ {p q : Parser}, R p q → R (push p) (push' q)
  clear : ∀ {p q : Parser}, R p q → R { p with current := ⟨[]⟩ } { q with current := ⟨[]⟩ }
  backspace : ∀ {p q : Parser}, R p q → R p.backspace q.backspace
  text : ∀ {p q : Parser} (added : Bytes), R p q →
    R { p with text := p.text ++ added } { q with text := q.text ++ added }
  escape : ∀ {p q : Parser} (bytes : Bytes), R p q → R (p.escape bytes).1 (q.escape bytes).1

theorem Simulates.consumeBy {R : Parser → Parser → Prop} {push push' : Parser → Parser}
    (h : Simulates R push push') {p q : Parser} (bytes : Bytes) (hR : R p q) :
    R (p.consumeBy push bytes) (q.consumeBy push' bytes) := by
  induction p, bytes using Parser.consumeBy.induct push generalizing q with
  | case1 p =>
    rw [Parser.consumeBy, Parser.consumeBy]
    exact hR
  | case2 p rest ih =>
    rw [Parser.consumeBy, if_pos rfl, Parser.consumeBy, if_pos rfl,
      (@escape_congr q.flushText p.flushText rest).1]
    exact ih (h.escape rest (h.flush hR))
  | case3 p rest hescape ih =>
    rw [Parser.consumeBy, if_neg hescape, if_pos rfl, Parser.consumeBy, if_neg hescape, if_pos rfl]
    exact ih (h.push (h.flush hR))
  | case4 p rest hescape hnewline ih =>
    rw [Parser.consumeBy, if_neg hescape, if_neg hnewline, if_pos rfl, Parser.consumeBy,
      if_neg hescape, if_neg hnewline, if_pos rfl]
    exact ih (h.clear (h.flush hR))
  | case5 p rest hescape hnewline hreturn ih =>
    rw [Parser.consumeBy, if_neg hescape, if_neg hnewline, if_neg hreturn, if_pos rfl,
      Parser.consumeBy, if_neg hescape, if_neg hnewline, if_neg hreturn, if_pos rfl]
    exact ih (h.backspace (h.flush hR))
  | case6 p rest hescape hnewline hreturn hbackspace ih =>
    rw [Parser.consumeBy, if_neg hescape, if_neg hnewline, if_neg hreturn, if_neg hbackspace,
      if_pos rfl, Parser.consumeBy, if_neg hescape, if_neg hnewline, if_neg hreturn,
      if_neg hbackspace, if_pos rfl]
    exact ih (h.text _ hR)
  | case7 p byte rest hescape hnewline hreturn hbackspace htab hignored ih =>
    rw [Parser.consumeBy, if_neg hescape, if_neg hnewline, if_neg hreturn, if_neg hbackspace,
      if_neg htab, if_pos hignored, Parser.consumeBy, if_neg hescape, if_neg hnewline,
      if_neg hreturn, if_neg hbackspace, if_neg htab, if_pos hignored]
    exact ih hR
  | case8 p byte rest hescape hnewline hreturn hbackspace htab hignored ih =>
    rw [Parser.consumeBy, if_neg hescape, if_neg hnewline, if_neg hreturn, if_neg hbackspace,
      if_neg htab, if_neg hignored, Parser.consumeBy, if_neg hescape, if_neg hnewline,
      if_neg hreturn, if_neg hbackspace, if_neg htab, if_neg hignored]
    exact ih (h.text _ hR)

/-! ### Nothing that is shown is a control character -/

/-- No character of a line is a control character. -/
def Visible (line : StyledLine) : Prop :=
  ∀ span ∈ line.spans, ∀ c ∈ span.text, isControl c = false

/-- No line that the parser has is one with a control character. -/
structure Clean (p : Parser) : Prop where
  lines : ∀ line ∈ p.lines, Visible line
  current : Visible p.current

theorem visible_nil : Visible ⟨[]⟩ := fun _ h => absurd h List.not_mem_nil

theorem isControl_visibleText {bytes : Bytes} {c : Char} (h : c ∈ visibleText bytes) :
    isControl c = false := by
  obtain ⟨original, -, rfl⟩ := List.mem_map.mp h
  split
  · decide
  · exact Bool.eq_false_of_not_eq_true (by assumption)

theorem Visible.append {spans : List StyledSpan} {span : StyledSpan} (h : Visible ⟨spans⟩)
    (hspan : ∀ c ∈ span.text, isControl c = false) : Visible ⟨spans ++ [span]⟩ := by
  intro other hother
  rcases List.mem_append.mp hother with hother | hother
  · exact h other hother
  · rw [List.mem_singleton.mp hother]
    exact hspan

theorem Visible.subset {spans spans' : List StyledSpan} (h : Visible ⟨spans⟩)
    (hsubset : spans' ⊆ spans) : Visible ⟨spans'⟩ := fun span hspan => h span (hsubset hspan)

theorem Clean.flushText {p : Parser} (h : p.Clean) : p.flushText.Clean := by
  refine ⟨by rw [lines_flushText]; exact h.lines, ?_⟩
  have htext : ∀ c ∈ visibleText p.text, isControl c = false := fun _ => isControl_visibleText
  unfold Parser.flushText
  split
  · exact h.current
  · dsimp only
    split
    · next last hlast =>
      have hmem : last ∈ p.current.spans := List.mem_of_getLast? hlast
      split
      · refine (h.current.subset (List.dropLast_subset _)).append ?_
        intro c hc
        rcases List.mem_append.mp hc with hc | hc
        · exact h.current last hmem c hc
        · exact htext c hc
      · exact h.current.append htext
    · exact h.current.append htext

theorem Clean.pushLine {p : Parser} (h : p.Clean) : p.pushLine.Clean := by
  have hall : ∀ line ∈ p.lines ++ [p.current], Visible line := by
    intro line hline
    rcases List.mem_append.mp hline with hline | hline
    · exact h.lines line hline
    · rw [List.mem_singleton.mp hline]
      exact h.current
  unfold Parser.pushLine
  dsimp only
  split
  · exact ⟨fun line hline => hall line (List.mem_of_mem_tail hline), visible_nil⟩
  · exact ⟨hall, visible_nil⟩

theorem visible_popChar {spans : List StyledSpan} (h : Visible ⟨spans⟩) :
    Visible ⟨popChar spans⟩ := by
  induction spans with
  | nil => exact h
  | cons last before ih =>
    have hbefore : Visible ⟨before⟩ := h.subset (List.subset_cons_self _ _)
    rw [popChar]
    split
    · exact ih hbefore
    · split
      · exact hbefore
      · intro span hspan
        rcases List.mem_cons.mp hspan with rfl | hspan
        · exact fun c hc => h last List.mem_cons_self c (List.mem_of_mem_dropLast hc)
        · exact hbefore span hspan

theorem Clean.backspace {p : Parser} (h : p.Clean) : p.backspace.Clean := by
  refine ⟨h.lines, ?_⟩
  have hreverse : Visible ⟨p.current.spans.reverse⟩ :=
    h.current.subset fun _ => List.mem_reverse.mp
  exact (visible_popChar hreverse).subset fun _ => List.mem_reverse.mp

/-- The parser stays clean, whatever it consumes. -/
theorem simulates_clean : Simulates (fun p _ => p.Clean) pushLine pushLine where
  flush h := h.flushText
  push h := h.pushLine
  clear h := ⟨h.lines, visible_nil⟩
  backspace h := h.backspace
  text _ h := ⟨h.lines, h.current⟩
  escape bytes h := by
    rw [escape_frame]
    exact ⟨h.lines, h.current⟩

theorem Clean.consume {p : Parser} (h : p.Clean) (bytes : Bytes) : (p.consume bytes).Clean := by
  rw [← consumeBy_pushLine]
  exact simulates_clean.consumeBy (q := p) bytes h

/-! ### The last lines -/

/-- A line that is pushed; none goes. -/
def pushAll (p : Parser) : Parser := { p with lines := p.lines ++ [p.current], current := ⟨[]⟩ }

/-- `pushLine`, with any limit. -/
def pushWithin (limit : Nat) (p : Parser) : Parser :=
  let lines := p.lines ++ [p.current]
  if lines.length > limit then
    { p with lines := lines.tail, current := ⟨[]⟩, discardedLines := true }
  else
    { p with lines, current := ⟨[]⟩ }

theorem pushLine_eq_pushWithin : pushLine = pushWithin MAX_RENDERED_LINES := rfl

/-- The parser that has kept the last lines of one that has kept all of them. -/
def window (limit : Nat) (p : Parser) : Parser :=
  { p with
    lines := p.lines.drop (p.lines.length - limit)
    discardedLines := decide (limit < p.lines.length) }

section Window

variable (limit : Nat) (p : Parser)

theorem lines_window : (p.window limit).lines = p.lines.drop (p.lines.length - limit) := rfl

theorem discardedLines_window :
    (p.window limit).discardedLines = decide (limit < p.lines.length) := rfl

theorem window_flushText : (p.window limit).flushText = p.flushText.window limit := by
  have hlines := p.lines_flushText
  unfold window
  rw [hlines]
  unfold flushText
  dsimp only
  split
  · rfl
  · split
    · split <;> rfl
    · rfl

theorem window_pushAll : (p.window limit).pushWithin limit = p.pushAll.window limit := by
  have hlength : (p.lines ++ [p.current]).length = p.lines.length + 1 := List.length_append
  have hkept : (p.lines.drop (p.lines.length - limit) ++ [p.current]).length
      = p.lines.length - (p.lines.length - limit) + 1 := by
    rw [List.length_append, List.length_drop, List.length_singleton]
  unfold pushWithin window pushAll
  dsimp only
  rw [hkept, hlength]
  split
  · next hmany =>
    -- the window was full, and moves on by one line
    have hcount : p.lines.length + 1 - limit = (p.lines.length - limit) + 1 := by omega
    have hdrop : (p.lines.drop (p.lines.length - limit) ++ [p.current]).tail
        = (p.lines ++ [p.current]).drop (p.lines.length + 1 - limit) := by
      have happend : (p.lines ++ [p.current]).drop (p.lines.length - limit)
          = p.lines.drop (p.lines.length - limit) ++ [p.current] :=
        List.drop_append_of_le_length (Nat.sub_le _ _)
      rw [hcount, ← List.drop_one, ← List.drop_drop, happend]
    rw [hdrop, decide_eq_true (show limit < p.lines.length + 1 by omega)]
  · next hfew =>
    have hnone : p.lines.length - limit = 0 := by omega
    have hnone' : p.lines.length + 1 - limit = 0 := by omega
    rw [hnone, hnone', List.drop_zero, List.drop_zero,
      decide_eq_false (show ¬ limit < p.lines.length by omega),
      decide_eq_false (show ¬ limit < p.lines.length + 1 by omega)]

/-- The parser keeps the last lines of the one that keeps them all. -/
theorem simulates_window :
    Simulates (fun p q => p = q.window limit) (pushWithin limit) pushAll where
  flush := by
    rintro _ q rfl
    exact q.window_flushText limit
  push := by
    rintro _ q rfl
    exact q.window_pushAll limit
  clear := by
    rintro _ q rfl
    rfl
  backspace := by
    rintro _ q rfl
    rfl
  text := by
    rintro _ q added rfl
    rfl
  escape := by
    rintro _ q bytes rfl
    have hstyle := (@escape_congr (q.window limit) q bytes).2 rfl
    rw [escape_frame, escape_frame q, hstyle]
    rfl

end Window

theorem consume_eq_window (bytes : Bytes) :
    default.consume bytes = (default.consumeBy pushAll bytes).window MAX_RENDERED_LINES := by
  have hempty : default = default.window MAX_RENDERED_LINES := by
    rw [window, default, List.length_nil, Nat.zero_sub, List.drop_zero,
      decide_eq_false (Nat.not_lt_zero _)]
  rw [← consumeBy_pushLine, pushLine_eq_pushWithin]
  exact (simulates_window MAX_RENDERED_LINES).consumeBy bytes hempty

end Parser

/-- All lines of the bytes, without a limit. -/
def TerminalDocument.allLines (bytes : Bytes) : List StyledLine :=
  ((Parser.default.consumeBy Parser.pushAll bytes).flushText.pushAll).lines

/-- **Terminal bytes.**  The parser comes to an end on any bytes, with every access in range and
every escape within the bytes; no line has a control character; and the lines are the last of all
lines, with a note if the caller or the limit has left some out. -/
theorem terminal_safe (bytes : Bytes) (truncated : Bool) :
    TerminalDocument.parseAt bytes truncated = some (TerminalDocument.parse bytes truncated)
      ∧ (∀ (p : Parser) (start : Nat), start < bytes.length →
        ∃ q next, p.escapeAt bytes start = some (q, next) ∧ start < next ∧ next ≤ bytes.length)
      ∧ (∀ index, index ≤ bytes.length →
        (∃ stop, Parser.sequenceEnd bytes index = some stop ∧ index ≤ stop ∧ stop ≤ bytes.length)
          ∧ ∃ next, skipOscAt bytes index = some next ∧ index ≤ next ∧ next ≤ bytes.length)
      ∧ (∀ (parameters : List Nat) (style : Style), (sgrAt parameters style 0).isSome)
      ∧ (∀ line ∈ (TerminalDocument.parse bytes truncated).lines, ∀ span ∈ line.spans,
        ∀ c ∈ span.text, isControl c = false)
      ∧ (TerminalDocument.parse bytes truncated).lines
        = (TerminalDocument.allLines bytes).drop
            ((TerminalDocument.allLines bytes).length - MAX_RENDERED_LINES)
      ∧ (TerminalDocument.parse bytes truncated).lines.length ≤ MAX_RENDERED_LINES
      ∧ ((TerminalDocument.parse bytes truncated).truncated = true
        ↔ truncated = true ∨ MAX_RENDERED_LINES < (TerminalDocument.allLines bytes).length) := by
  have hdocument : TerminalDocument.parse bytes truncated
      = ⟨(TerminalDocument.allLines bytes).drop
            ((TerminalDocument.allLines bytes).length - MAX_RENDERED_LINES),
          truncated || decide (MAX_RENDERED_LINES < (TerminalDocument.allLines bytes).length)⟩ := by
    rw [TerminalDocument.parse, Parser.finish, Parser.consume_eq_window, Parser.window_flushText,
      Parser.pushLine_eq_pushWithin, Parser.window_pushAll, Parser.lines_window,
      Parser.discardedLines_window, TerminalDocument.allLines]
  have hlines := congrArg TerminalDocument.lines hdocument
  have htruncated := congrArg TerminalDocument.truncated hdocument
  dsimp only at hlines htruncated
  refine ⟨?_, ?_, ?_, ?_, ?_, hlines, ?_, ?_⟩
  · rw [TerminalDocument.parseAt, Parser.consumeAt_eq (Nat.zero_le _) (by omega), List.drop_zero]
    rfl
  · intro p start hstart
    obtain ⟨next, hescape, hless, hrange, -⟩ := Parser.escapeAt_eq p hstart
    exact ⟨_, next, hescape, hless, hrange⟩
  · intro index hindex
    obtain ⟨stop, hstop, hle, hrange, -⟩ := Parser.sequenceEnd_eq hindex
    obtain ⟨next, hnext, hle', hrange', -⟩ := skipOscAt_eq hindex
    exact ⟨⟨stop, hstop, hle, hrange⟩, next, hnext, hle', hrange'⟩
  · intro parameters style
    rw [sgrAt_eq (Nat.zero_le _)]
    rfl
  · have hclean : Parser.default.Clean :=
      ⟨fun _ h => absurd h List.not_mem_nil, Parser.visible_nil⟩
    exact (hclean.consume bytes).flushText.pushLine.lines
  · rw [hlines, List.length_drop]
    omega
  · rw [htruncated, Bool.or_eq_true, decide_eq_true_iff]

end Rewind
