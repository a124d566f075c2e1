/-
Reading in chunks.

A read returns at most what it was asked for, often less, and nothing only at the end or when
nothing was asked for.

* `Source.read` — a static sequence, read in chunks of someone else's choice;
* `readExact` — reads until so much has come;
* `drain` — reads of given sizes up to the end;
* `Feeds` — what a reader promises; `Feeds.readExact`, `Feeds.drain_ends` and `Feeds.drain_fails`
  are what the two loops make of it.
-/
import Mathlib.Data.List.Basic

namespace Chunks

variable {α σ ε : Type*}

/-! ### Readers -/

/-- What is left of a sequence, and the number of reads so far. -/
structure Source (α : Type*) where
  rest : List α
  reads : Nat

/-- Up to `wanted` of what is left.  The read numbered `n` returns `chunks n` if it may, and at
least one as long as there is one. -/
def Source.read (chunks : Nat → Nat) (wanted : Nat) (s : Source α) : List α × Source α :=
  let count := min (max 1 (chunks s.reads)) wanted
  (s.rest.take count, ⟨s.rest.drop count, s.reads + 1⟩)

/-- Why a reader does not fill a buffer. -/
inductive ExactError (ε : Type*) where
  | failed (error : ε)
  | unexpectedEof

/-- `read_exact`: reads until `wanted` have come. -/
def readExact (read : Nat → σ → Except ε (List α × σ)) (wanted : Nat) (s : σ) :
    Except (ExactError ε) (List α × σ) :=
  if wanted = 0 then
    .ok ([], s)
  else match read wanted s with
  | .error error => .error (.failed error)
  | .ok (chunk, s') =>
    if _h : chunk.length = 0 then
      .error .unexpectedEof
    else match readExact read (wanted - chunk.length) s' with
    | .error error => .error error
    | .ok (more, s'') => .ok (chunk ++ more, s'')
termination_by wanted

/-- How a series of reads ends. -/
inductive Ending (ε : Type*) where
  | unfinished
  | finished
  | failed (error : ε)

/-- Reads of these sizes, until one fails or returns nothing though something was asked for. -/
def drain (read : Nat → σ → Except ε (List α × σ)) : List Nat → σ → List α × Ending ε
  | [], _ => ([], .unfinished)
  | size :: sizes, s =>
    match read size s with
    | .error error => ([], .failed error)
    | .ok ([], s') => if size = 0 then drain read sizes s' else ([], .finished)
    | .ok (a :: chunk, s') =>
      let (more, ending) := drain read sizes s'
      (a :: chunk ++ more, ending)

/-! ### What the loops return -/

/-- The reader in a state with `rest` ahead returns the next part of it, and has what is left
ahead then. -/
structure Feeds (read : Nat → σ → Except ε (List α × σ)) (Ahead : σ → List α → Prop) : Prop where
  zero : ∀ {s rest}, Ahead s rest → ∃ s', read 0 s = .ok ([], s') ∧ Ahead s' rest
  step : ∀ {s rest wanted}, Ahead s rest → 0 < wanted → rest ≠ [] →
    ∃ chunk rest' s', read wanted s = .ok (chunk, s') ∧ chunk ≠ [] ∧ chunk.length ≤ wanted
      ∧ chunk ++ rest' = rest ∧ Ahead s' rest'

variable {read : Nat → σ → Except ε (List α × σ)} {Ahead : σ → List α → Prop} {s : σ}
  {rest : List α}

/-- A buffer is filled if so much is ahead. -/
theorem Feeds.readExact_ok (h : Feeds read Ahead) {wanted : Nat} (hs : Ahead s rest)
    (hle : wanted ≤ rest.length) :
    ∃ s', readExact read wanted s = .ok (rest.take wanted, s') ∧ Ahead s' (rest.drop wanted) := by
  induction wanted using Nat.strongRecOn generalizing s rest with
  | _ wanted ih =>
    rw [readExact]
    by_cases hwanted : wanted = 0
    · rw [if_pos hwanted, hwanted]
      exact ⟨s, rfl, hs⟩
    · have hne : rest ≠ [] := by
        rintro rfl
        exact hwanted (Nat.le_zero.mp hle)
      obtain ⟨chunk, rest', s', hread, hchunk, hfits, rfl, hs'⟩ :=
        h.step hs (Nat.pos_of_ne_zero hwanted) hne
      have hpos : chunk.length ≠ 0 := fun hzero => hchunk (List.eq_nil_of_length_eq_zero hzero)
      rw [List.length_append] at hle
      obtain ⟨s'', hmore, hs''⟩ := ih (wanted - chunk.length) (by omega) hs' (by omega)
      have htake : (chunk ++ rest').take wanted = chunk ++ rest'.take (wanted - chunk.length) := by
        rw [List.take_append, List.take_of_length_le hfits]
      have hdrop : (chunk ++ rest').drop wanted = rest'.drop (wanted - chunk.length) := by
        rw [List.drop_append, List.drop_of_length_le hfits, List.nil_append]
      rw [if_neg hwanted, hread, htake, hdrop]
      refine ⟨s'', ?_, hs''⟩
      show (if _ : chunk.length = 0 then _ else _) = _
      rw [dif_neg hpos, hmore]

/-- A buffer is not filled if less is ahead. -/
theorem Feeds.readExact_short (h : Feeds read Ahead) {wanted : Nat} (hs : Ahead s rest)
    (hends : ∀ {s wanted}, Ahead s [] → 0 < wanted → ∃ s', read wanted s = .ok ([], s'))
    (hlt : rest.length < wanted) : readExact read wanted s = .error .unexpectedEof := by
  induction wanted using Nat.strongRecOn generalizing s rest with
  | _ wanted ih =>
    have hwanted : wanted ≠ 0 := by omega
    rw [readExact, if_neg hwanted]
    by_cases hne : rest = []
    · obtain ⟨s', hread⟩ := hends (hne ▸ hs) (Nat.pos_of_ne_zero hwanted)
      rw [hread]
      rfl
    · obtain ⟨chunk, rest', s', hread, hchunk, hfits, rfl, hs'⟩ :=
        h.step hs (Nat.pos_of_ne_zero hwanted) hne
      have hpos : chunk.length ≠ 0 := fun hzero => hchunk (List.eq_nil_of_length_eq_zero hzero)
      rw [List.length_append] at hlt
      rw [hread]
      show (if _ : chunk.length = 0 then _ else _) = _
      rw [dif_neg hpos, ih (wanted - chunk.length) (by omega) hs' (by omega)]

/-- The reads that ask for something. -/
def asking (sizes : List Nat) : Nat := (sizes.filter (0 < ·)).length

theorem asking_cons (size : Nat) (sizes : List Nat) :
    asking (size :: sizes) = asking sizes + if 0 < size then 1 else 0 := by
  unfold asking
  by_cases h : 0 < size <;> simp [h]

/-- A reader that ends well gives all there is ahead of it, to reads of any sizes, and then its
end; too few reads give the first part of it. -/
theorem Feeds.drain_ends (h : Feeds read Ahead)
    (hends : ∀ {s size}, Ahead s [] → 0 < size → ∃ s', read size s = .ok ([], s'))
    (sizes : List Nat) (hs : Ahead s rest) :
    (drain read sizes s = (rest, .finished)
        ∨ (drain read sizes s).2 = .unfinished ∧ (drain read sizes s).1 <+: rest)
      ∧ (rest.length < asking sizes → drain read sizes s = (rest, .finished)) := by
  induction sizes generalizing s rest with
  | nil => exact ⟨Or.inr ⟨rfl, List.nil_prefix⟩, fun hlt => absurd hlt (Nat.not_lt_zero _)⟩
  | cons size sizes ih =>
    rw [asking_cons, drain]
    by_cases hsize : size = 0
    · obtain ⟨s', hread, hs'⟩ := h.zero hs
      rw [hsize, hread]
      exact ih hs'
    · have hpos : 0 < size := Nat.pos_of_ne_zero hsize
      by_cases hne : rest = []
      · obtain ⟨s', hread⟩ := hends (hne ▸ hs) hpos
        rw [hread, hne]
        have hstop : (if size = 0 then drain read sizes s' else ([], .finished))
          = ([], .finished) :=
          if_neg hsize
        exact ⟨Or.inl hstop, fun _ => hstop⟩
      · obtain ⟨chunk, rest', s', hread, hchunk, -, rfl, hs'⟩ := h.step hs hpos hne
        obtain ⟨a, chunk, rfl⟩ := List.exists_cons_of_ne_nil hchunk
        obtain ⟨hresult, henough⟩ := ih hs'
        rw [hread, if_pos hpos]
        show ((a :: chunk ++ (drain read sizes s').1, (drain read sizes s').2) = _ ∨ _)
          ∧ (_ → _ = _)
        constructor
        · rcases hresult with hfinished | ⟨hunfinished, hinitial⟩
          · rw [hfinished]
            exact Or.inl rfl
          · exact Or.inr ⟨hunfinished, (List.prefix_append_right_inj _).mpr hinitial⟩
        · intro hlt
          rw [List.length_append, List.length_cons] at hlt
          show (a :: chunk ++ (drain read sizes s').1, (drain read sizes s').2) = _
          rw [henough (by omega)]

/-- A reader that fails behind what is ahead of it never comes to a good end. -/
theorem Feeds.drain_fails (h : Feeds read Ahead)
    (hfails : ∀ {s size}, Ahead s [] → 0 < size → ∃ error, read size s = .error error)
    (sizes : List Nat) (hs : Ahead s rest) : (drain read sizes s).2 ≠ .finished := by
  induction sizes generalizing s rest with
  | nil => exact fun heq => nomatch heq
  | cons size sizes ih =>
    rw [drain]
    by_cases hsize : size = 0
    · obtain ⟨s', hread, hs'⟩ := h.zero hs
      rw [hsize, hread]
      exact ih hs'
    · have hpos : 0 < size := Nat.pos_of_ne_zero hsize
      by_cases hne : rest = []
      · obtain ⟨error, hread⟩ := hfails (hne ▸ hs) hpos
        rw [hread]
        exact fun heq => nomatch heq
      · obtain ⟨chunk, rest', s', hread, hchunk, -, rfl, hs'⟩ := h.step hs hpos hne
        obtain ⟨a, chunk, rfl⟩ := List.exists_cons_of_ne_nil hchunk
        rw [hread]
        exact ih hs'

/-! ### Static sources -/

/-- The reads of a source do not fail. -/
def Source.reader (chunks : Nat → Nat) (wanted : Nat) (s : Source α) :
    Except Empty (List α × Source α) := .ok (s.read chunks wanted)

theorem Source.read_zero (chunks : Nat → Nat) (s : Source α) :
    s.read chunks 0 = ([], ⟨s.rest, s.reads + 1⟩) := by
  rw [Source.read, Nat.min_zero]
  rfl

theorem Source.read_nil (chunks : Nat → Nat) (wanted reads : Nat) :
    (Source.mk ([] : List α) reads).read chunks wanted = ([], ⟨[], reads + 1⟩) := by
  simp [Source.read]

/-- A read of a source that has something left returns the next part of it. -/
theorem Source.read_spec (chunks : Nat → Nat) (wanted : Nat) (s : Source α)
    (hwanted : 0 < wanted) (hne : s.rest ≠ []) :
    (s.read chunks wanted).1 ≠ [] ∧ (s.read chunks wanted).1.length ≤ wanted
      ∧ (s.read chunks wanted).1 ++ (s.read chunks wanted).2.rest = s.rest := by
  have hcount : 0 < min (max 1 (chunks s.reads)) wanted := by omega
  refine ⟨fun hnil => ?_, ?_, List.take_append_drop _ _⟩
  · rcases List.take_eq_nil_iff.mp hnil with hzero | hempty
    · omega
    · exact hne hempty
  · rw [Source.read, List.length_take]
    omega

theorem Source.feeds (chunks : Nat → Nat) :
    Feeds (Source.reader chunks) fun (s : Source α) rest => s.rest = rest where
  zero := by
    rintro s rest hs
    exact ⟨_, congrArg Except.ok (Source.read_zero chunks s), hs⟩
  step := by
    rintro s rest wanted rfl hwanted hne
    obtain ⟨hchunk, hfits, hrest⟩ := Source.read_spec chunks wanted s hwanted hne
    exact ⟨_, _, _, rfl, hchunk, hfits, hrest, rfl⟩

theorem Source.ends (chunks : Nat → Nat) {s : Source α} {wanted : Nat} (hs : s.rest = []) :
    ∃ s', Source.reader chunks wanted s = .ok ([], s') := by
  obtain ⟨rest, reads⟩ := s
  obtain rfl : rest = [] := hs
  exact ⟨_, congrArg Except.ok (Source.read_nil chunks wanted reads)⟩

end Chunks
