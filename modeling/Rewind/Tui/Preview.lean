/-
The preview of a changed text file.

Two texts are compared by their lines.  The lines that both have at their front and at their end are
left out, but for three on either side; what is between them is shown as removed and as added, with
a header that says where.

* `unifiedTextPreview` — the preview, with every slice and difference checked;
* `readPreview` — the hunk that a preview shows;
* **`preview_exact`** — no preview is too long, and one that is complete shows a hunk that turns the
  one text into the other.
-/
import Rewind.Lib.Bytes
import Rewind.Lib.Hunks
import Rewind.Lib.Slices

namespace Rewind

/-! ### The preview -/

def MAX_DIFF_LINES : Nat := 400

/-- A line with its line feed, if it has one. -/
abbrev TextLine := List Char

/-- `split_inclusive('\n')`. -/
def splitInclusive : List Char → List TextLine
  | [] => []
  | c :: rest =>
    if c = '\n' then
      [c] :: splitInclusive rest
    else
      match splitInclusive rest with
      | [] => [[c]]
      | line :: lines => (c :: line) :: lines

/-- `str::from_utf8`. -/
def fromUtf8 (bytes : Bytes) : Option String := String.fromUTF8? ⟨bytes.toArray⟩

/-- `hunk_start`. -/
def hunkStart (zeroBased count : Nat) : Nat := if count = 0 then zeroBased else zeroBased + 1

structure Preview where
  output : List String
  truncated : Bool

def noNewline : String := "\\ No newline at end of file"

/-- The text of a line: a carriage return is shown as a sign of its own. -/
def previewContent (line : TextLine) : List Char :=
  (if line.getLast? = some '\n' then line.dropLast else line).map fun c =>
    if c = '\r' then '␍' else c

/-- `push_preview_line`. -/
def pushPreviewLine (sign : Char) (p : Preview) (line : TextLine) : Preview :=
  if p.output.length ≥ MAX_DIFF_LINES - 1 then
    { p with truncated := true }
  else
    let output := p.output ++ [String.ofList (sign :: previewContent line)]
    if line.getLast? = some '\n' then
      { p with output }
    else if output.length ≥ MAX_DIFF_LINES - 1 then
      ⟨output, true⟩
    else
      { p with output := output ++ [noNewline] }

/-- The header of a hunk. -/
def hunkHeader (oldStart oldCount newStart newCount : Nat) : String :=
  s!"@@ -{oldStart},{oldCount} +{newStart},{newCount} @@"

/-- The lines that `unified_text_preview` compares, from the header of their hunk on. -/
def previewLines (names : List String) (before after : List TextLine) : Option (List String) := do
  let commonPrefix := commonLength before after
  let beforeRest ← sliceFrom before commonPrefix
  let afterRest ← sliceFrom after commonPrefix
  let commonSuffix := commonLength beforeRest.reverse afterRest.reverse
  let context := 3
  let start := commonPrefix - context
  let beforeChangedEnd := before.length - commonSuffix
  let afterChangedEnd := after.length - commonSuffix
  let suffixContext := min commonSuffix context
  let beforeEnd := beforeChangedEnd + suffixContext
  let afterEnd := afterChangedEnd + suffixContext
  let beforeCount ← checkedSub beforeEnd start
  let afterCount ← checkedSub afterEnd start
  let header := hunkHeader (hunkStart start beforeCount) beforeCount
    (hunkStart start afterCount) afterCount
  let shared ← sliceBetween before start commonPrefix
  let removed ← sliceBetween before commonPrefix beforeChangedEnd
  let added ← sliceBetween after commonPrefix afterChangedEnd
  let later ← sliceBetween after afterChangedEnd afterEnd
  let preview : Preview := ⟨names ++ [header], false⟩
  let preview := shared.foldl (pushPreviewLine ' ') preview
  let preview := removed.foldl (pushPreviewLine '-') preview
  let preview := added.foldl (pushPreviewLine '+') preview
  let preview := later.foldl (pushPreviewLine ' ') preview
  if preview.truncated then
    return preview.output ++ [s!"… unified preview limited to {MAX_DIFF_LINES} lines"]
  return preview.output

/-- `unified_text_preview`. -/
def unifiedTextPreview (path : String) (before after : Option Bytes) : Option (List String) :=
  let beforeName := if before.isSome then s!"a/{path}" else "/dev/null"
  let afterName := if after.isSome then s!"b/{path}" else "/dev/null"
  let names := [s!"--- {beforeName}", s!"+++ {afterName}"]
  match fromUtf8 (before.getD []), fromUtf8 (after.getD []) with
  | some before, some after =>
    let before := splitInclusive before.toList
    let after := splitInclusive after.toList
    if before = [] ∧ after = [] then
      some (names ++ ["Empty file content."])
    else
      previewLines names before after
  | _, _ => some (names ++ ["Binary or non-UTF-8 content diff omitted."])

/-! ### Reading a preview -/

/-- A number, and what follows it. -/
def readNumber (text : List Char) : Option (Nat × List Char) :=
  if text.takeWhile Char.isDigit = [] then
    none
  else
    some (Nat.ofDigitChars 10 (text.takeWhile Char.isDigit) 0, text.dropWhile Char.isDigit)

/-- What follows a word. -/
def readWord (word : String) (text : List Char) : Option (List Char) :=
  if word.toList <+: text then some (text.drop word.toList.length) else none

/-- The numbers of a header. -/
def readHeader (header : String) : Option (Nat × Nat × Nat × Nat) := do
  let text ← readWord "@@ -" header.toList
  let (oldStart, text) ← readNumber text
  let text ← readWord "," text
  let (oldCount, text) ← readNumber text
  let text ← readWord " +" text
  let (newStart, text) ← readNumber text
  let text ← readWord "," text
  let (newCount, text) ← readNumber text
  if text = " @@".toList then some (oldStart, oldCount, newStart, newCount) else none

/-- A line of a hunk under its sign. -/
def signedLine (sign : Char) (line : TextLine) : Option (HunkLine TextLine) :=
  if sign = ' ' then some (.context line)
  else if sign = '-' then some (.removed line)
  else if sign = '+' then some (.added line)
  else none

/-- The lines of a hunk, and whether a mark stands before them: the line above a mark has no line
feed. -/
def readBody : List String → Option (Bool × List (HunkLine TextLine))
  | [] => some (false, [])
  | printed :: rest => do
    let (marked, lines) ← readBody rest
    if printed = noNewline then
      if marked then none else some (true, lines)
    else
      match printed.toList with
      | [] => none
      | sign :: content =>
        let line ← signedLine sign (if marked then content else content ++ ['\n'])
        some (false, line :: lines)

/-- The hunk below the two names. -/
def readPreview : List String → Option (Hunk TextLine)
  | _ :: _ :: header :: body => do
    let (oldStart, oldCount, newStart, newCount) ← readHeader header
    let (marked, lines) ← readBody body
    if marked then none else some ⟨oldStart, oldCount, newStart, newCount, lines⟩
  | _ => none

/-! ### Lines of a text -/

theorem flatten_splitInclusive (text : List Char) : (splitInclusive text).flatten = text := by
  induction text with
  | nil => rfl
  | cons c rest ih =>
    rw [splitInclusive]
    split
    · rw [List.flatten_cons, ih]
      rfl
    · split
      · next hnone =>
        rw [hnone] at ih
        rw [← ih]
        rfl
      · next line lines hlines =>
        rw [hlines] at ih
        rw [← ih]
        rfl

/-! ### What is pushed -/

/-- A printed line. -/
def printedLine (sign : Char) (line : TextLine) : List String :=
  String.ofList (sign :: previewContent line)
    :: if line.getLast? = some '\n' then [] else [noNewline]

/-- A preview has all that was printed, or it is full. -/
structure Preview.Shows (printed : List String) (p : Preview) : Prop where
  bounded : p.output.length ≤ MAX_DIFF_LINES - 1
  full : p.truncated = true → p.output.length = MAX_DIFF_LINES - 1
  complete : p.truncated = false → p.output = printed

theorem Preview.Shows.push {printed : List String} {p : Preview} (h : p.Shows printed) (sign : Char)
    (line : TextLine) : (pushPreviewLine sign p line).Shows (printed ++ printedLine sign line) := by
  have hbounded := h.bounded
  unfold pushPreviewLine printedLine
  dsimp only
  by_cases hfull : p.output.length ≥ MAX_DIFF_LINES - 1
  · rw [if_pos hfull]
    exact ⟨hbounded, fun _ => Nat.le_antisymm hbounded hfull, fun hopen => Bool.noConfusion hopen⟩
  · have hopen : p.truncated = false := by
      by_contra htruncated
      have hlength := h.full (Bool.eq_true_of_not_eq_false htruncated)
      omega
    have hlength : (p.output ++ [String.ofList (sign :: previewContent line)]).length
        = p.output.length + 1 := List.length_append
    rw [if_neg hfull]
    by_cases hline : line.getLast? = some '\n'
    · rw [if_pos hline, if_pos hline]
      refine ⟨by rw [hlength]; omega, fun htruncated => ?_, fun _ => ?_⟩
      · exact absurd (hopen.symm.trans htruncated) Bool.false_ne_true
      · rw [h.complete hopen]
    · rw [if_neg hline, if_neg hline]
      by_cases hlast : (p.output ++ [String.ofList (sign :: previewContent line)]).length
          ≥ MAX_DIFF_LINES - 1
      · -- the line takes the last place, and its mark has none
        rw [if_pos hlast]
        rw [hlength] at hlast
        refine ⟨by rw [hlength]; omega, fun _ => by rw [hlength]; omega, fun hfalse => ?_⟩
        exact Bool.noConfusion hfalse
      · rw [if_neg hlast]
        rw [hlength] at hlast
        refine ⟨?_, fun htruncated => ?_, fun _ => ?_⟩
        · rw [List.length_append, hlength, List.length_singleton]
          omega
        · exact absurd (hopen.symm.trans htruncated) Bool.false_ne_true
        · rw [h.complete hopen, List.append_assoc, List.singleton_append]

theorem Preview.Shows.foldl {printed : List String} {p : Preview} (h : p.Shows printed)
    (sign : Char) (lines : List TextLine) :
    (lines.foldl (pushPreviewLine sign) p).Shows (printed ++ lines.flatMap (printedLine sign)) := by
  induction lines generalizing printed p with
  | nil =>
    rw [List.flatMap_nil, List.append_nil]
    exact h
  | cons line rest ih =>
    rw [List.foldl_cons, List.flatMap_cons, ← List.append_assoc]
    exact ih (h.push sign line)

/-! ### The lines of a preview -/

/-- The preview of the lines around a change. -/
def shownPreview (names : List String) (start : Nat)
    (shared removed added later : List TextLine) : List String :=
  let beforeCount := shared.length + removed.length + later.length
  let afterCount := shared.length + added.length + later.length
  let header := hunkHeader (hunkStart start beforeCount) beforeCount
    (hunkStart start afterCount) afterCount
  let preview : Preview := ⟨names ++ [header], false⟩
  let preview := shared.foldl (pushPreviewLine ' ') preview
  let preview := removed.foldl (pushPreviewLine '-') preview
  let preview := added.foldl (pushPreviewLine '+') preview
  let preview := later.foldl (pushPreviewLine ' ') preview
  if preview.truncated then
    preview.output ++ [s!"… unified preview limited to {MAX_DIFF_LINES} lines"]
  else
    preview.output

/-- Every slice and difference is in range, and the slices are the parts around the change. -/
theorem previewLines_eq (names : List String)
    {before after shared left right common : List TextLine}
    (hbefore : before = shared ++ left ++ common) (hafter : after = shared ++ right ++ common)
    (hfront : commonLength before after = shared.length)
    (htail : commonLength (before.drop shared.length).reverse (after.drop shared.length).reverse
      = common.length) :
    previewLines names before after = some (shownPreview names (shared.length - 3)
      (shared.drop (shared.length - 3)) left right (common.take 3)) := by
  have hbeforeLength : before.length = shared.length + left.length + common.length := by
    rw [hbefore, List.length_append, List.length_append]
  have hafterLength : after.length = shared.length + right.length + common.length := by
    rw [hafter, List.length_append, List.length_append]
  have hbeforeRest : sliceFrom before shared.length = some (before.drop shared.length) :=
    if_pos (by omega)
  have hafterRest : sliceFrom after shared.length = some (after.drop shared.length) :=
    if_pos (by omega)
  have hshown : (shared.drop (shared.length - 3)).length = shared.length - (shared.length - 3) :=
    List.length_drop
  have hlater : (common.take 3).length = min common.length 3 := by
    rw [List.length_take, Nat.min_comm]
  -- the four slices
  have hshared : sliceBetween before (shared.length - 3) shared.length
      = some (shared.drop (shared.length - 3)) := by
    have hparts : before = shared.take (shared.length - 3) ++ shared.drop (shared.length - 3)
        ++ (left ++ common) := by
      rw [List.take_append_drop, hbefore, List.append_assoc]
    have hskipped : (shared.take (shared.length - 3)).length = shared.length - 3 :=
      List.length_take_of_le (by omega)
    have hslice := sliceBetween_append (shared.take (shared.length - 3))
      (shared.drop (shared.length - 3))
      (left ++ common)
    rw [← hparts, hskipped, hshown, Nat.add_sub_cancel' (Nat.sub_le _ _)] at hslice
    exact hslice
  have hremoved : sliceBetween before shared.length (before.length - common.length)
    = some left := by
    have hend : before.length - common.length = shared.length + left.length := by omega
    rw [hend, hbefore]
    exact sliceBetween_append shared left common
  have hadded : sliceBetween after shared.length (after.length - common.length) = some right := by
    have hend : after.length - common.length = shared.length + right.length := by omega
    rw [hend, hafter]
    exact sliceBetween_append shared right common
  have hsuffix : sliceBetween after (after.length - common.length)
      (after.length - common.length + min common.length 3) = some (common.take 3) := by
    have hend : after.length - common.length = (shared ++ right).length := by
      rw [List.length_append]
      omega
    have hparts : after = shared ++ right ++ common.take 3 ++ common.drop 3 := by
      rw [hafter, List.append_assoc _ (common.take 3), List.take_append_drop]
    rw [hend, ← hlater, hparts]
    exact sliceBetween_append (shared ++ right) (common.take 3) (common.drop 3)
  -- the two counts
  have hbeforeCount : checkedSub (before.length - common.length + min common.length 3)
      (shared.length - 3) = some ((shared.drop (shared.length - 3)).length + left.length
        + (common.take 3).length) := by
    rw [checkedSub, if_pos (by omega), hshown, hlater]
    congr 1
    omega
  have hafterCount : checkedSub (after.length - common.length + min common.length 3)
      (shared.length - 3) = some ((shared.drop (shared.length - 3)).length + right.length
        + (common.take 3).length) := by
    rw [checkedSub, if_pos (by omega), hshown, hlater]
    congr 1
    omega
  unfold previewLines shownPreview
  simp only [hfront, hbeforeRest, hafterRest, htail, hbeforeCount, hafterCount, hshared, hremoved,
    hadded, hsuffix, Option.bind_eq_bind, Option.bind_some]
  split <;> rfl

/-! ### What is read -/

theorem readWord_append (word : String) (text : List Char) :
    readWord word (word.toList ++ text) = some text := by
  rw [readWord, if_pos (List.prefix_append _ _), List.drop_left]

theorem readNumber_append (n : Nat) {text : List Char} (h : ∀ c ∈ text.head?, c.isDigit = false) :
    readNumber ((toString n).toList ++ text) = some (n, text) := by
  have hdigits : ∀ c ∈ Nat.toDigits 10 n, c.isDigit = true := fun c hc =>
    Nat.isDigit_of_mem_toDigits (by decide) (by decide) hc
  have hstop : text.takeWhile Char.isDigit = [] ∧ text.dropWhile Char.isDigit = text := by
    cases text with
    | nil => exact ⟨rfl, rfl⟩
    | cons c rest =>
      have hc := h c rfl
      rw [List.takeWhile_cons_of_neg (by simp [hc]), List.dropWhile_cons_of_neg (by simp [hc])]
      exact ⟨rfl, rfl⟩
  have htext : (toString n).toList = Nat.toDigits 10 n := Nat.toList_repr
  have htake : ((toString n).toList ++ text).takeWhile Char.isDigit = Nat.toDigits 10 n := by
    rw [htext, List.takeWhile_append_of_pos hdigits, hstop.1, List.append_nil]
  have hdrop : ((toString n).toList ++ text).dropWhile Char.isDigit = text := by
    rw [htext, List.dropWhile_append_of_pos hdigits, hstop.2]
  rw [readNumber, htake, hdrop, if_neg Nat.toDigits_ne_nil, Nat.ofDigitChars_ten_toDigits]

theorem readHeader_hunkHeader (oldStart oldCount newStart newCount : Nat) :
    readHeader (hunkHeader oldStart oldCount newStart newCount)
      = some (oldStart, oldCount, newStart, newCount) := by
  have htext : (hunkHeader oldStart oldCount newStart newCount).toList
      = "@@ -".toList ++ ((toString oldStart).toList ++ (",".toList ++ ((toString oldCount).toList
        ++ (" +".toList ++ ((toString newStart).toList ++ (",".toList
          ++ ((toString newCount).toList ++ " @@".toList))))))) := by
    simp only [hunkHeader, String.toList_append, List.append_assoc]
    rfl
  have hcomma : ∀ rest : List Char, ∀ c ∈ (",".toList ++ rest).head?, c.isDigit = false := by
    rintro rest c ⟨rfl⟩
    decide
  have hplus : ∀ rest : List Char, ∀ c ∈ (" +".toList ++ rest).head?, c.isDigit = false := by
    rintro rest c ⟨rfl⟩
    decide
  have hend : ∀ c ∈ " @@".toList.head?, c.isDigit = false := by
    rintro c ⟨rfl⟩
    decide
  unfold readHeader
  simp only [htext, readWord_append, readNumber_append _ (hcomma _), readNumber_append _ (hplus _),
    readNumber_append _ hend, Option.bind_eq_bind, Option.bind_some, if_pos]

/-- A printed line is read back, whatever stands below it. -/
theorem readBody_printedLine {sign : Char} {make : TextLine → HunkLine TextLine}
    (hsign : ∀ line, signedLine sign line = some (make line)) {line : TextLine}
    (hreturn : '\r' ∉ line) {rest : List String} {body : List (HunkLine TextLine)}
    (hrest : readBody rest = some (false, body)) :
    readBody (printedLine sign line ++ rest) = some (false, make line :: body) := by
  have hslash : sign ≠ '\\' := by
    rintro rfl
    have hnone := hsign []
    rw [signedLine, if_neg (by decide), if_neg (by decide), if_neg (by decide)] at hnone
    exact absurd hnone (by simp)
  have hmark : ∀ content, String.ofList (sign :: content) ≠ noNewline := by
    intro content heq
    have hhead := congrArg (fun text => text.toList.head?) heq
    rw [String.toList_ofList, List.head?_cons] at hhead
    exact hslash (Option.some.inj hhead)
  have hsame : ∀ content : List Char, '\r' ∉ content →
      content.map (fun c => if c = '\r' then '␍' else c) = content := by
    intro content hcontent
    have hid : content.map (fun c => if c = '\r' then '␍' else c) = content.map id := by
      refine List.map_congr_left fun c hc => if_neg ?_
      rintro rfl
      exact hcontent hc
    rw [hid, List.map_id]
  by_cases hline : line.getLast? = some '\n'
  · have hcontent : previewContent line = line.dropLast := by
      rw [previewContent, if_pos hline]
      exact hsame _ fun hmem => hreturn (List.mem_of_mem_dropLast hmem)
    have hwhole : line.dropLast ++ ['\n'] = line := List.dropLast_append_getLast? _ hline
    rw [printedLine, if_pos hline, hcontent, List.cons_append, List.nil_append, readBody, hrest]
    simp only [Option.bind_eq_bind, Option.bind_some, if_neg (hmark _), String.toList_ofList,
      Bool.false_eq_true, if_false, hsign, hwhole]
  · have hcontent : previewContent line = line := by
      rw [previewContent, if_neg hline]
      exact hsame line hreturn
    have hmarked : readBody (noNewline :: rest) = some (true, body) := by
      rw [readBody, hrest]
      simp only [Option.bind_eq_bind, Option.bind_some, if_pos, Bool.false_eq_true, if_false]
    rw [printedLine, if_neg hline, hcontent, List.cons_append, List.singleton_append, readBody,
      hmarked]
    simp only [Option.bind_eq_bind, Option.bind_some, if_neg (hmark _), String.toList_ofList,
      if_pos, hsign]

theorem readBody_printedLines {sign : Char} {make : TextLine → HunkLine TextLine}
    (hsign : ∀ line, signedLine sign line = some (make line)) {lines : List TextLine}
    (hreturn : ∀ line ∈ lines, '\r' ∉ line) {rest : List String} {body : List (HunkLine TextLine)}
    (hrest : readBody rest = some (false, body)) :
    readBody (lines.flatMap (printedLine sign) ++ rest) = some (false, lines.map make ++ body) := by
  induction lines with
  | nil => exact hrest
  | cons line lines ih =>
    obtain ⟨hline, hlines⟩ := List.forall_mem_cons.mp hreturn
    rw [List.flatMap_cons, List.append_assoc, List.map_cons, List.cons_append]
    exact readBody_printedLine hsign hline (ih hlines)

/-! ### Exactness -/

/-- The hunk of the lines around a change. -/
def hunkOf (start : Nat) (shared removed added later : List TextLine) : Hunk TextLine where
  oldStart := hunkStart start (shared.length + removed.length + later.length)
  oldCount := shared.length + removed.length + later.length
  newStart := hunkStart start (shared.length + added.length + later.length)
  newCount := shared.length + added.length + later.length
  lines := shared.map .context
    ++ (removed.map .removed ++ (added.map .added ++ later.map .context))

section Shown

variable (names : List String) (start : Nat) (shared removed added later : List TextLine)

theorem linesBefore_hunkStart (start count : Nat) :
    Hunk.linesBefore (hunkStart start count) count = start := by
  unfold Hunk.linesBefore hunkStart
  split <;> omega

theorem hunkStart_pos (start count : Nat) : count ≠ 0 → 0 < hunkStart start count := by
  intro hcount
  rw [hunkStart, if_neg hcount]
  exact Nat.succ_pos _

theorem oldSide_hunkOf :
    HunkLine.oldSide (hunkOf start shared removed added later).lines = shared ++ removed
      ++ later := by
  simp [hunkOf, HunkLine.oldSide_append]

theorem newSide_hunkOf :
    HunkLine.newSide (hunkOf start shared removed added later).lines = shared ++ added
      ++ later := by
  simp [hunkOf, HunkLine.newSide_append]

theorem agrees_hunkOf : (hunkOf start shared removed added later).Agrees := by
  refine ⟨?_, ?_, ?_⟩
  · rw [oldSide_hunkOf, List.length_append, List.length_append]
    rfl
  · rw [newSide_hunkOf, List.length_append, List.length_append]
    rfl
  · exact (linesBefore_hunkStart _ _).trans (linesBefore_hunkStart _ _).symm

/-- A preview is no longer than the limit; one that is shorter shows its hunk. -/
theorem shownPreview_spec (hnames : names.length = 2) :
    (shownPreview names start shared removed added later).length ≤ MAX_DIFF_LINES
      ∧ ((shownPreview names start shared removed added later).length < MAX_DIFF_LINES →
        (∀ line ∈ shared ++ removed ++ added ++ later, '\r' ∉ line) →
        readPreview (shownPreview names start shared removed added later)
          = some (hunkOf start shared removed added later)) := by
  set beforeCount := shared.length + removed.length + later.length with hbeforeCount
  set afterCount := shared.length + added.length + later.length with hafterCount
  set header := hunkHeader (hunkStart start beforeCount) beforeCount
    (hunkStart start afterCount) afterCount with hheader
  have hlimit : MAX_DIFF_LINES = 400 := rfl
  have hstart : (⟨names ++ [header], false⟩ : Preview).Shows (names ++ [header]) := by
    refine ⟨?_, fun htruncated => Bool.noConfusion htruncated, fun _ => rfl⟩
    rw [List.length_append, hnames, List.length_singleton, hlimit]
    omega
  have hall := (((hstart.foldl ' ' shared).foldl '-' removed).foldl '+' added).foldl ' ' later
  unfold shownPreview
  dsimp only
  rw [← hbeforeCount, ← hafterCount, ← hheader]
  generalize hpreview : later.foldl (pushPreviewLine ' ') (added.foldl (pushPreviewLine '+')
    (removed.foldl (pushPreviewLine '-') (shared.foldl (pushPreviewLine ' ')
      ⟨names ++ [header], false⟩))) = preview at hall ⊢
  have hbounded := hall.bounded
  by_cases htruncated : preview.truncated = true
  · have hlength := hall.full htruncated
    rw [if_pos htruncated, List.length_append, hlength, List.length_singleton, hlimit]
    exact ⟨Nat.le_refl _, fun hless => absurd hless (Nat.lt_irrefl _)⟩
  · rw [if_neg htruncated]
    refine ⟨by omega, fun _ hreturn => ?_⟩
    obtain ⟨first, second, rfl⟩ := List.length_eq_two.mp hnames
    rw [hall.complete (Bool.eq_false_of_not_eq_true htruncated)]
    simp only [List.forall_mem_append] at hreturn
    obtain ⟨⟨⟨hshared, hremoved⟩, hadded⟩, hlater⟩ := hreturn
    have hcontext : ∀ line, signedLine ' ' line = some (.context line) := fun _ => rfl
    have hminus : ∀ line, signedLine '-' line = some (.removed line) := fun _ => rfl
    have hplus : ∀ line, signedLine '+' line = some (.added line) := fun _ => rfl
    -- the parts of the body are read from the last one on
    have hbody := readBody_printedLines hcontext hshared (readBody_printedLines hminus hremoved
      (readBody_printedLines hplus hadded
        (@readBody_printedLines ' ' _ hcontext later hlater [] [] rfl)))
    simp only [List.append_nil] at hbody
    simp only [List.cons_append, List.nil_append, List.append_assoc, readPreview, hbody, hheader,
      readHeader_hunkHeader, Option.bind_eq_bind, Option.bind_some, Bool.false_eq_true, if_false]
    rfl

end Shown

/-- The lines around a change: their preview fits, and its hunk turns the one side into the other.
-/
theorem previewLines_spec (names : List String) (hnames : names.length = 2)
    (before after : List TextLine) :
    ∃ output hunk, previewLines names before after = some output
      ∧ output.length ≤ MAX_DIFF_LINES
      ∧ (output.length < MAX_DIFF_LINES → (∀ line ∈ before ++ after, '\r' ∉ line) →
        readPreview output = some hunk)
      ∧ hunk.Locates before after ∧ hunk.apply before = some after := by
  obtain ⟨shared, left, right, common, hbefore, hafter, hfront, htail⟩ := exists_common before after
  rw [← hfront] at htail
  set start := shared.length - 3 with hstart
  have hbeforeParts : before = shared.take start
      ++ (shared.drop start ++ left ++ common.take 3) ++ common.drop 3 :=
    hbefore.trans (append_window shared left common start 3)
  have hafterParts : after = shared.take start
      ++ (shared.drop start ++ right ++ common.take 3) ++ common.drop 3 :=
    hafter.trans (append_window shared right common start 3)
  obtain ⟨hbounded, hshown⟩ :=
    shownPreview_spec names start (shared.drop start) left right (common.take 3) hnames
  refine ⟨_, hunkOf start (shared.drop start) left right (common.take 3),
    previewLines_eq names hbefore hafter hfront.symm htail.symm, hbounded, ?_, ?_, ?_⟩
  · intro hless hreturn
    refine hshown hless fun line hline => hreturn line ?_
    rw [hbeforeParts, hafterParts]
    simp only [List.mem_append] at hline ⊢
    tauto
  · have hskipped : (shared.take start).length
        = Hunk.linesBefore (hunkOf start (shared.drop start) left right (common.take 3)).oldStart
          (hunkOf start (shared.drop start) left right (common.take 3)).oldCount :=
      (List.length_take_of_le (Nat.sub_le _ _)).trans (linesBefore_hunkStart _ _).symm
    have hlocates := Hunk.locates_append (agrees_hunkOf start (shared.drop start) left right
      (common.take 3)) (hunkStart_pos _ _) (hunkStart_pos _ _) hskipped (common.drop 3)
    rw [oldSide_hunkOf, newSide_hunkOf, ← hbeforeParts, ← hafterParts] at hlocates
    exact hlocates
  · refine Hunk.apply_eq_some_iff.mpr ⟨agrees_hunkOf _ _ _ _ _, shared.take start, common.drop 3,
      ?_, ?_, ?_⟩
    · exact (List.length_take_of_le (Nat.sub_le _ _)).trans (linesBefore_hunkStart _ _).symm
    · rw [oldSide_hunkOf]
      exact hbeforeParts
    · rw [newSide_hunkOf]
      exact hafterParts

theorem previewLines_bounded {names : List String} (hnames : names.length = 2)
    {before after : List TextLine} :
    ∃ output, previewLines names before after = some output ∧ output.length ≤ MAX_DIFF_LINES := by
  obtain ⟨output, hunk, houtput, hbounded, -⟩ := previewLines_spec names hnames before after
  exact ⟨output, houtput, hbounded⟩

theorem exists_hunk {names : List String} (hnames : names.length = 2)
    {before after : List TextLine} {output : List String}
    (houtput : previewLines names before after = some output) :
    ∃ hunk, (output.length < MAX_DIFF_LINES → (∀ line ∈ before ++ after, '\r' ∉ line) →
        readPreview output = some hunk)
      ∧ hunk.Locates before after ∧ hunk.apply before = some after := by
  obtain ⟨output', hunk, houtput', -, hread, hlocates, happly⟩ :=
    previewLines_spec names hnames before after
  obtain rfl : output' = output := Option.some.inj (houtput'.symm.trans houtput)
  exact ⟨hunk, hread, hlocates, happly⟩

/-- Every preview is within the limit, with each slice and difference in range; the preview of two
texts that differ, if it stays under the limit, shows a hunk whose header locates its lines and that
turns the one text into the other. -/
theorem preview_exact :
    (∀ path before after, ∃ output, unifiedTextPreview path before after = some output
      ∧ output.length ≤ MAX_DIFF_LINES)
    ∧ ∀ path before after text text' output,
      fromUtf8 (before.getD []) = some text → fromUtf8 (after.getD []) = some text' →
      text ≠ text' → '\r' ∉ text.toList → '\r' ∉ text'.toList →
      unifiedTextPreview path before after = some output → output.length < MAX_DIFF_LINES →
      ∃ hunk, readPreview output = some hunk
        ∧ hunk.Locates (splitInclusive text.toList) (splitInclusive text'.toList)
        ∧ (hunk.apply (splitInclusive text.toList)).map List.flatten = some text'.toList := by
  constructor
  · intro path before after
    unfold unifiedTextPreview
    dsimp only
    split
    · split
      · exact ⟨_, rfl, Nat.le_of_ble_eq_true rfl⟩
      · exact previewLines_bounded rfl
    · exact ⟨_, rfl, Nat.le_of_ble_eq_true rfl⟩
  · intro path before after text text' output hbefore hafter hdiffer hreturn hreturn' houtput hless
    have hnonempty : ¬ (splitInclusive text.toList = [] ∧ splitInclusive text'.toList = []) := by
      rintro ⟨hnone, hnone'⟩
      refine hdiffer (String.toList_injective ?_)
      rw [← flatten_splitInclusive text.toList, ← flatten_splitInclusive text'.toList, hnone,
        hnone']
    simp only [unifiedTextPreview, hbefore, hafter, if_neg hnonempty] at houtput
    obtain ⟨hunk, hread, hlocates, happly⟩ := exists_hunk rfl houtput
    refine ⟨hunk, hread hless fun line hline hmem => ?_, hlocates, ?_⟩
    · rcases List.mem_append.mp hline with hline | hline
      · refine hreturn ?_
        rw [← flatten_splitInclusive text.toList]
        exact List.mem_flatten_of_mem hline hmem
      · refine hreturn' ?_
        rw [← flatten_splitInclusive text'.toList]
        exact List.mem_flatten_of_mem hline hmem
    · rw [happly, Option.map_some, flatten_splitInclusive]

/-- A last line that gets a line feed, and a line after it. -/
def Sample.previewed : List String :=
  ["--- a/n", "+++ b/n", "@@ -1,2 +1,3 @@", " a", "-b", noNewline, "+b", "+c"]

theorem preview_exact_sample :
    ∃ hunk, readPreview Sample.previewed = some hunk
      ∧ hunk.Locates (splitInclusive "a\nb".toList) (splitInclusive "a\nb\nc\n".toList)
      ∧ (hunk.apply (splitInclusive "a\nb".toList)).map List.flatten = some "a\nb\nc\n".toList :=
  preview_exact.2 "n" (some [97, 10, 98]) (some [97, 10, 98, 10, 99, 10]) "a\nb" "a\nb\nc\n"
    Sample.previewed rfl rfl (by simp) (by decide) (by decide) (by decide +kernel) (by decide)

end Rewind
