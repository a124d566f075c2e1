/-
The moments at which inodes were as they have been found.

A traversal finds an inode, reads it, and verifies it later; in between, the inode has been the
same. The moments of two inodes need not meet: one may be verified before the other is found.

* `Verified` — an inode that was the same from when it was found to when it was verified;
* `Untorn` — no inode changes before it is verified and after a verified inode has changed;
* **`exists_moment`** — then at one moment all inodes were as they have been found.
-/
import Rewind.Platform.Pinned

namespace Rewind

/-- An inode, as a traversal has found it. -/
structure Visit (ι : Type) where
  inode : ι
  node : Inode ι

section Visits

variable {ι : Type}

/-- The call looks again at the inode. -/
def Verifies (g : Graph ι) (i : ι) : Option (InodeCall ι) → Prop
  | some (.fstat inode true) => inode = i
  | some (.fstatat directory name true) => g.child? directory name.bytes = some i
  | _ => False

instance [DecidableEq ι] (g : Graph ι) (i : ι) (call : Option (InodeCall ι)) :
    Decidable (Verifies g i call) :=
  match call with
  | some (.fstat inode true) => inferInstanceAs (Decidable (inode = i))
  | some (.fstatat directory name true) =>
    inferInstanceAs (Decidable (g.child? directory name.bytes = some i))
  | none | some (.fstat _ false) | some (.fstatat _ _ false) | some (.openat _ _)
  | some (.opendir _) | some (.readdir _) | some (.read _) | some (.readlinkat _ _)
  | some .elsewhere => .isFalse id

namespace InodeSystem

variable (fs : InodeSystem ι)

/-- At the moment `k`, the inode is verified. -/
def VerifiedAt (k : Nat) (i : ι) : Prop := ∃ g call, fs.At k g call ∧ Verifies g i call

/-- From the moment `k` to the next one, the inode changes. -/
def ChangedAt (k : Nat) (i : ι) : Prop :=
  ∃ g call g' call', fs.At k g call ∧ fs.At (k + 1) g' call' ∧ g' i ≠ g i

/-- When an inode changes that has been verified, then from there on no inode changes that is
verified after that. -/
def Untorn : Prop :=
  ∀ v₁ k₁ k₂ v₂ i₁ i₂, fs.VerifiedAt v₁ i₁ → v₁ ≤ k₁ → fs.ChangedAt k₁ i₁ →
    k₁ ≤ k₂ → fs.ChangedAt k₂ i₂ → k₂ < v₂ → ¬ fs.VerifiedAt v₂ i₂

/-- From `o` to `k`, the inode was as it has been found. -/
def SameFrom (o k : Nat) (v : Visit ι) : Prop :=
  ∀ l g call, o ≤ l → l ≤ k → fs.At l g call → g v.inode = v.node

end InodeSystem

/-- The inode was as it has been found until it was verified. -/
def Verified (fs : InodeSystem ι) (v : Visit ι) : Prop :=
  ∃ o k, o ≤ k ∧ fs.VerifiedAt k v.inode ∧ fs.SameFrom o k v

variable {fs fs' : InodeSystem ι}

theorem InodeSystem.At.graph_eq {k : Nat} {g g' : Graph ι} {call call' : Option (InodeCall ι)}
    (h : fs.At k g call) (h' : fs.At k g' call') : g = g' :=
  (Moment.mk.inj (Option.some.inj (h.symm.trans h'))).1

theorem InodeSystem.exists_at {k : Nat} (h : k < fs.history.length) : ∃ g call, fs.At k g call :=
  ⟨_, _, List.getElem?_eq_getElem h⟩

theorem InodeSystem.At.of_lt {k : Nat} {g : Graph ι} {call : Option (InodeCall ι)}
    (h : fs'.At k g call) (hfollows : fs.Follows fs') (hk : k < fs.history.length) :
    fs.At k g call := by
  obtain ⟨later, hlater⟩ := hfollows
  rw [InodeSystem.At, ← hlater, List.getElem?_append_left hk] at h
  exact h

theorem InodeSystem.VerifiedAt.lt {k : Nat} {i : ι} (h : fs.VerifiedAt k i) :
    k < fs.history.length := by
  obtain ⟨g, call, hat, -⟩ := h
  exact hat.lt

theorem Verified.mono {v : Visit ι} (h : Verified fs v) (hfollows : fs.Follows fs') :
    Verified fs' v := by
  obtain ⟨o, k, hok, hverified, hsame⟩ := h
  have hlt := hverified.lt
  obtain ⟨g, call, hat, hverifies⟩ := hverified
  refine ⟨o, k, hok, ⟨g, call, hat.mono hfollows, hverifies⟩, fun l g' call' hol hlk hat' => ?_⟩
  exact hsame l g' call' hol hlk (hat'.of_lt hfollows (Nat.lt_of_le_of_lt hlk hlt))

/-- An inode that has the same metadata when it is found and when it is verified. -/
theorem verified_of_seen (htimely : fs.Timely) {o k : Nat} {stat : EntryStat ι} {g : Graph ι}
    {call : Option (InodeCall ι)} (hseen : Seen fs o stat) (hok : o ≤ k) (hat : fs.At k g call)
    (hverifies : Verifies g stat.inode call) (hstat : g.stat stat.inode = stat) :
    fs.SameFrom o k ⟨stat.inode, g stat.inode⟩ ∧ Verified fs ⟨stat.inode, g stat.inode⟩ := by
  have hsame : fs.SameFrom o k ⟨stat.inode, g stat.inode⟩ := by
    intro l g' call' hol hlk hat'
    obtain ⟨g₀, call₀, hat₀, hstat₀⟩ := hseen
    have htimes : (g₀ stat.inode).times = (g stat.inode).times :=
      congrArg EntryStat.times (hstat₀.trans hstat.symm)
    have hfound := graph_eq_of_times htimely hol hlk hat₀ hat' hat htimes
    have hverified := graph_eq_of_times htimely hok (le_refl k) hat₀ hat hat htimes
    exact hfound.trans hverified.symm
  exact ⟨hsame, o, k, hok, ⟨g, call, hat, hverifies⟩, hsame⟩

/-- An inode that does not change from one moment to another is the same at both. -/
theorem InodeSystem.eq_of_not_changedAt {i : ι} {a b : Nat} (hab : a ≤ b) {g g' : Graph ι}
    {call call' : Option (InodeCall ι)} (ha : fs.At a g call) (hb : fs.At b g' call')
    (h : ∀ k, a ≤ k → k < b → ¬ fs.ChangedAt k i) : g' i = g i := by
  induction b, hab using Nat.le_induction generalizing g' call' with
  | base => rw [ha.graph_eq hb]
  | succ b hab ih =>
    obtain ⟨gᵦ, callᵦ, hatᵦ⟩ := InodeSystem.exists_at (Nat.lt_of_succ_lt hb.lt)
    have hbefore := ih hatᵦ fun k hak hkb => h k hak (Nat.lt_succ_of_lt hkb)
    have hstep : g' i = gᵦ i := by
      by_contra hne
      exact h b hab (Nat.lt_succ_self b) ⟨gᵦ, callᵦ, g', call', hatᵦ, hb, hne⟩
    exact hstep.trans hbefore

/-- At one moment of an untorn history, all inodes were as they have been found. -/
theorem exists_moment {visits : List (Visit ι)} (hstarted : fs.history ≠ [])
    (hvisits : ∀ v ∈ visits, Verified fs v) (huntorn : fs.Untorn) :
    ∃ k g call, fs.At k g call ∧ ∀ v ∈ visits, g v.inode = v.node := by
  classical
  -- The first moment before a change of an inode that has been verified, if there is one.
  by_cases hlate : ∃ k, ∃ v ∈ visits, ∃ u ≤ k, fs.VerifiedAt u v.inode ∧ fs.ChangedAt k v.inode
  · obtain ⟨v₁, hv₁, u₁, hu₁, hverified₁, hchanged₁⟩ := Nat.find_spec hlate
    have hfirst := @Nat.find_min _ _ hlate
    generalize Nat.find hlate = τ at hu₁ hchanged₁ hfirst
    obtain ⟨g, call, -, -, hat, -⟩ := id hchanged₁
    refine ⟨τ, g, call, hat, fun v hv => ?_⟩
    obtain ⟨o, k, hok, hverified, hsame⟩ := hvisits v hv
    rcases Nat.lt_or_ge τ k with hlt | hge
    · rcases Nat.lt_or_ge τ o with hbefore | hafter
      · -- The inode was found later, and has not changed since.
        obtain ⟨gₒ, callₒ, hatₒ⟩ := InodeSystem.exists_at (Nat.lt_of_le_of_lt hok hverified.lt)
        have heq := InodeSystem.eq_of_not_changedAt (Nat.le_of_lt hbefore) hat hatₒ
          fun j hj hjo hchanged => huntorn u₁ τ j k _ _ hverified₁ hu₁ hchanged₁ hj hchanged
            (Nat.lt_of_lt_of_le hjo hok) hverified
        exact heq.symm.trans (hsame o gₒ callₒ (le_refl o) hok hatₒ)
      · exact hsame τ g call hafter (Nat.le_of_lt hlt) hat
    · -- The inode was verified before, and changes later if at all.
      obtain ⟨gₖ, callₖ, hatₖ⟩ := InodeSystem.exists_at hverified.lt
      have heq := InodeSystem.eq_of_not_changedAt hge hatₖ hat
        fun j hj hjτ hchanged => hfirst hjτ ⟨v, hv, k, hj, hverified, hchanged⟩
      exact heq.trans (hsame k gₖ callₖ hok (le_refl k) hatₖ)
  · -- Nothing that has been verified changes: the last moment will do.
    have hlength := List.length_pos_of_ne_nil hstarted
    obtain ⟨g, call, hat⟩ := InodeSystem.exists_at (Nat.sub_lt hlength Nat.one_pos)
    refine ⟨_, g, call, hat, fun v hv => ?_⟩
    obtain ⟨o, k, hok, hverified, hsame⟩ := hvisits v hv
    obtain ⟨gₖ, callₖ, hatₖ⟩ := InodeSystem.exists_at hverified.lt
    have heq := InodeSystem.eq_of_not_changedAt (Nat.le_sub_one_of_lt hverified.lt) hatₖ hat
      fun j hj _ hchanged => hlate ⟨j, v, hv, k, hj, hverified, hchanged⟩
    exact heq.trans (hsame k gₖ callₖ hok (le_refl k) hatₖ)

end Visits

end Rewind
