/-
What a replacement of patterns leaves of a text.

* `not_infix_replaceAll` — the pattern itself is gone, if no byte of it is in the replacement;
* `infix_of_infix_replaceAll` — nothing of other bytes than the replacement's is new;
* `foldlM_replaceAll` — a machine that cannot tell the pattern from the replacement reads the text
  as before.
-/
import Rewind.Lib.PathText

variable {pattern replacement text sought : Bytes}

/-! ### Occurrences -/

theorem replaceFrom_nil (skip : Nat) : replaceFrom pattern replacement skip [] = [] := by
  cases skip <;> rfl

/-- What starts with a byte that the replacement does not have starts where nothing is replaced. -/
theorem prefix_of_prefix_replaceFrom (hreplacement : replacement ≠ []) (hne : sought ≠ [])
    (hbytes : ∀ b ∈ sought, b ∉ replacement)
    (h : sought <+: replaceFrom pattern replacement 0 text) :
    sought <+: text ∧ ¬ pattern <+: text := by
  induction sought generalizing text with
  | nil => exact absurd rfl hne
  | cons b later ih =>
    obtain ⟨hb, hlater⟩ := List.forall_mem_cons.mp hbytes
    cases text with
    | nil =>
      rw [replaceFrom_nil] at h
      exact absurd (List.prefix_nil.mp h) (by simp)
    | cons c rest =>
      rw [replaceFrom] at h
      by_cases hfound : pattern <+: c :: rest
      · rw [if_pos hfound] at h
        obtain ⟨r, rs, rfl⟩ := List.exists_cons_of_ne_nil hreplacement
        rw [List.cons_append] at h
        have hfirst : b = r := (List.cons_prefix_cons.mp h).1
        exact absurd (hfirst ▸ List.mem_cons_self) hb
      · rw [if_neg hfound] at h
        obtain ⟨rfl, hrest⟩ := List.cons_prefix_cons.mp h
        refine ⟨List.cons_prefix_cons.mpr ⟨rfl, ?_⟩, hfound⟩
        by_cases hlast : later = []
        · rw [hlast]
          exact List.nil_prefix
        · exact (ih hlast hlater hrest).1

/-- Where a part is sought that shares no byte with what is in front of it. -/
theorem infix_of_infix_append {front : Bytes} (hne : sought ≠ []) (hbytes : ∀ b ∈ sought, b ∉ front)
    (h : sought <:+: front ++ text) : sought <:+: text := by
  induction front with
  | nil => exact h
  | cons r rs ih =>
    rw [List.cons_append] at h
    rcases List.infix_cons_iff.mp h with hstart | hlater
    · obtain ⟨b, later, rfl⟩ := List.exists_cons_of_ne_nil hne
      have hfirst : b = r := (List.cons_prefix_cons.mp hstart).1
      exact absurd (hfirst ▸ List.mem_cons_self) (hbytes b List.mem_cons_self)
    · exact ih (fun b hb hmem => hbytes b hb (List.mem_cons_of_mem _ hmem)) hlater

/-- What occurs after the replacement and is not of it has occurred before, at a place where the
pattern does not. -/
theorem exists_suffix_of_infix_replaceFrom (hreplacement : replacement ≠ []) (hne : sought ≠ [])
    (hbytes : ∀ b ∈ sought, b ∉ replacement) {skip : Nat}
    (h : sought <:+: replaceFrom pattern replacement skip text) :
    ∃ later, later <:+ text ∧ sought <+: later ∧ ¬ pattern <+: later := by
  induction text generalizing skip with
  | nil =>
    rw [replaceFrom_nil] at h
    exact absurd (List.infix_nil.mp h) hne
  | cons b rest ih =>
    have hrest : ∀ {n}, sought <:+: replaceFrom pattern replacement n rest →
        ∃ later, later <:+ b :: rest ∧ sought <+: later ∧ ¬ pattern <+: later := by
      intro n hn
      obtain ⟨later, hsuffix, hboth⟩ := ih hn
      exact ⟨later, hsuffix.trans (List.suffix_cons b rest), hboth⟩
    cases skip with
    | succ n => exact hrest h
    | zero =>
      by_cases hfound : pattern <+: b :: rest
      · rw [replaceFrom, if_pos hfound] at h
        exact hrest (infix_of_infix_append hne hbytes h)
      · have hstep := h
        rw [replaceFrom, if_neg hfound] at hstep
        rcases List.infix_cons_iff.mp hstep with hstart | hlater
        · have hhere : sought <+: replaceFrom pattern replacement 0 (b :: rest) := by
            rw [replaceFrom, if_neg hfound]
            exact hstart
          have hboth := prefix_of_prefix_replaceFrom hreplacement hne hbytes hhere
          exact ⟨b :: rest, List.suffix_rfl, hboth.1, hboth.2⟩
        · exact hrest hlater

theorem infix_of_infix_replaceAll (hpattern : pattern ≠ []) (hreplacement : replacement ≠ [])
    (hne : sought ≠ []) (hbytes : ∀ b ∈ sought, b ∉ replacement)
    (h : sought <:+: replaceAll pattern replacement text) : sought <:+: text := by
  rw [replaceAll, if_neg hpattern] at h
  obtain ⟨later, hsuffix, hstart, -⟩ :=
    exists_suffix_of_infix_replaceFrom hreplacement hne hbytes h
  exact hstart.isInfix.trans hsuffix.isInfix

/-- A pattern that shares no byte with the replacement does not occur any more. -/
theorem not_infix_replaceAll (hpattern : pattern ≠ []) (hreplacement : replacement ≠ [])
    (hbytes : ∀ b ∈ pattern, b ∉ replacement) :
    ¬ pattern <:+: replaceAll pattern replacement text := by
  intro h
  rw [replaceAll, if_neg hpattern] at h
  obtain ⟨later, -, hstart, hnot⟩ :=
    exists_suffix_of_infix_replaceFrom hreplacement hpattern hbytes h
  exact hnot hstart

/-! ### Reading -/

section Reading

variable {σ : Type} {step : σ → UInt8 → Option σ} {s s' : σ}

/-- A machine that ends the pattern and the replacement in the same state reads both texts
alike. -/
theorem foldlM_replaceFrom (hpattern : pattern ≠ [])
    (hsame : ∀ s s', pattern.foldlM step s = some s' → replacement.foldlM step s = some s')
    (skip : Nat) (h : (text.drop skip).foldlM step s = some s') :
    (replaceFrom pattern replacement skip text).foldlM step s = some s' := by
  induction text generalizing skip s with
  | nil =>
    rw [replaceFrom_nil]
    rw [List.drop_nil] at h
    exact h
  | cons b rest ih =>
    cases skip with
    | succ n => exact ih n h
    | zero =>
      rw [List.drop_zero] at h
      by_cases hfound : pattern <+: b :: rest
      · rw [replaceFrom, if_pos hfound, List.foldlM_append]
        obtain ⟨tail, htail⟩ := hfound
        rw [← htail, List.foldlM_append, Option.bind_eq_bind, Option.bind_eq_some_iff] at h
        obtain ⟨middle, hread, hlater⟩ := h
        rw [hsame s middle hread]
        refine ih _ ?_
        have hrest : rest.drop (pattern.length - 1) = tail := by
          obtain ⟨p, ps, rfl⟩ := List.exists_cons_of_ne_nil hpattern
          obtain ⟨rfl, rfl⟩ := List.cons_eq_cons.mp htail
          exact List.drop_left
        rw [hrest]
        exact hlater
      · rw [replaceFrom, if_neg hfound, List.foldlM_cons]
        rw [List.foldlM_cons, Option.bind_eq_bind, Option.bind_eq_some_iff] at h
        obtain ⟨middle, hread, hlater⟩ := h
        rw [hread]
        exact ih 0 hlater

theorem foldlM_replaceAll (hpattern : pattern ≠ [])
    (hsame : ∀ s s', pattern.foldlM step s = some s' → replacement.foldlM step s = some s')
    (h : text.foldlM step s = some s') :
    (replaceAll pattern replacement text).foldlM step s = some s' := by
  rw [replaceAll, if_neg hpattern]
  exact foldlM_replaceFrom hpattern hsame 0 h

end Reading
