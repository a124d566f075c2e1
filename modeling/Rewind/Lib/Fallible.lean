/-
Computations that may fail.

`Except ε α` is a computation whose state is thrown away when it fails (a
transaction that is rolled back); `Call σ ε α` is one that keeps the state it
has reached on both paths (a method with a mutable receiver).  The rules below
take such a computation apart at its binds:

* `Except.bind_eq_ok_iff`, `ensure_eq_ok_iff` — inversion of a successful
  computation;
* `Except.Agree` — two computations that fail alike or return related values;
* `Call.Spec` — from states with `P` a call ends in `Q` or fails in `E`, with one
  rule for each way of building a call;
* `Call.Keeps` — the property that a call keeps whether it returns `Ok` or `Err`.
-/
import Mathlib.Data.List.Basic
import Mathlib.Data.List.Forall2

variable {σ ε ε' α β : Type}

/-! ### Failing without a state -/

theorem Except.bind_eq_ok_iff {x : Except ε α} {f : α → Except ε β} {b : β} :
    (x >>= f) = .ok b ↔ ∃ a, x = .ok a ∧ f a = .ok b := by
  cases x with
  | error e => simp [Bind.bind, Except.bind]
  | ok a => simp [Bind.bind, Except.bind]

theorem Except.pure_eq_ok_iff {a b : α} : (pure a : Except ε α) = .ok b ↔ a = b := by
  simp [pure, Except.pure]

theorem Except.mapError_eq_ok_iff {x : Except ε α} {f : ε → ε'} {a : α} :
    x.mapError f = .ok a ↔ x = .ok a := by
  cases x <;> simp [Except.mapError]

theorem Except.toOption_eq_some_iff {x : Except ε α} {a : α} : x.toOption = some a ↔ x = .ok a := by
  cases x <;> simp [Except.toOption]

theorem Except.error_ne_ok {e : ε} {a : α} : (Except.error e : Except ε α) ≠ .ok a := by simp

/-- Fails with `e` unless `p` holds. -/
def ensure (p : Prop) [Decidable p] (e : ε) : Except ε Unit :=
  if p then .ok () else .error e

theorem ensure_eq_ok_iff {p : Prop} [Decidable p] {e : ε} {u : Unit} :
    ensure p e = .ok u ↔ p := by
  by_cases hp : p <;> simp [ensure, hp]

theorem ensure_eq_error_iff {p : Prop} [Decidable p] {e e' : ε} :
    ensure p e = .error e' ↔ ¬ p ∧ e = e' := by
  unfold ensure
  by_cases h : p
  · simp [h]
  · simp [h]

theorem ensure_bind_eq_ok_iff {p : Prop} [Decidable p] {e : ε} {f : Unit → Except ε β} {b : β} :
    (ensure p e >>= f) = .ok b ↔ p ∧ f () = .ok b := by
  rw [Except.bind_eq_ok_iff]
  constructor
  · rintro ⟨u, hp, hf⟩
    exact ⟨ensure_eq_ok_iff.mp hp, hf⟩
  · rintro ⟨hp, hf⟩
    exact ⟨(), ensure_eq_ok_iff.mpr hp, hf⟩

/-- A value that may be missing. -/
theorem Option.elim_error_eq_ok_iff {o : Option α} {e : ε} {a : α} :
    o.elim (.error e) .ok = (.ok a : Except ε α) ↔ o = some a := by
  cases o with
  | none => simp
  | some b => simp

/-- A guard that throws. -/
theorem throw_if_eq_ok_iff {p : Prop} [Decidable p] {e : ε} {x : Except ε β} {b : β} :
    (do
      if p then
        throw e
      x : Except ε β) = .ok b ↔ ¬ p ∧ x = .ok b := by
  by_cases hp : p
  · rw [if_pos hp]
    simp [hp, throw, throwThe, MonadExceptOf.throw, Bind.bind, Except.bind]
  · rw [if_neg hp]
    simp [hp]

/-- A left fold that succeeds has succeeded at every element; each step relates the
accumulator before it to the one after it. -/
theorem List.foldlM_eq_ok_cons {f : β → α → Except ε β} {b b' : β} {a : α} {as : List α} :
    (a :: as).foldlM f b = .ok b' ↔ ∃ c, f b a = .ok c ∧ as.foldlM f c = .ok b' := by
  rw [List.foldlM_cons, Except.bind_eq_ok_iff]

/-- A loop without results succeeds if each of its steps does. -/
theorem List.forM_eq_ok_iff {f : α → Except ε PUnit} {as : List α} :
    as.forM f = .ok () ↔ ∀ a ∈ as, f a = .ok () := by
  induction as with
  | nil => simp [pure, Except.pure]
  | cons a as ih =>
    show (f a >>= fun _ => as.forM f) = .ok () ↔ _
    rw [Except.bind_eq_ok_iff, List.forall_mem_cons]
    constructor
    · rintro ⟨_, hfirst, hrest⟩
      exact ⟨hfirst, ih.mp hrest⟩
    · rintro ⟨hfirst, hrest⟩
      exact ⟨(), hfirst, ih.mpr hrest⟩

/-- What a successful `mapM` returns, `f` returned for some element. -/
theorem List.exists_of_mapM_eq_ok {f : α → Except ε β} {as : List α} {bs : List β}
    (h : as.mapM f = .ok bs) {b : β} (hb : b ∈ bs) : ∃ a ∈ as, f a = .ok b := by
  induction as generalizing bs with
  | nil =>
    obtain rfl := Except.ok.inj h
    exact absurd hb List.not_mem_nil
  | cons a as ih =>
    rw [List.mapM_cons] at h
    obtain ⟨first, hfirst, h⟩ := Except.bind_eq_ok_iff.mp h
    obtain ⟨rest, hrest, h⟩ := Except.bind_eq_ok_iff.mp h
    obtain rfl := Except.ok.inj h
    rcases List.mem_cons.mp hb with rfl | hb
    · exact ⟨a, List.mem_cons_self, hfirst⟩
    · obtain ⟨a', ha', hf⟩ := ih hrest hb
      exact ⟨a', List.mem_cons_of_mem _ ha', hf⟩

/-- A successful `mapM` has a result for every element. -/
theorem List.forall_mem_of_mapM_eq_ok {f : α → Except ε β} {as : List α} {bs : List β}
    (h : as.mapM f = .ok bs) {a : α} (ha : a ∈ as) : ∃ b ∈ bs, f a = .ok b := by
  induction as generalizing bs with
  | nil => exact absurd ha List.not_mem_nil
  | cons a' as ih =>
    rw [List.mapM_cons] at h
    obtain ⟨first, hfirst, h⟩ := Except.bind_eq_ok_iff.mp h
    obtain ⟨rest, hrest, h⟩ := Except.bind_eq_ok_iff.mp h
    obtain rfl := Except.ok.inj h
    rcases List.mem_cons.mp ha with rfl | ha
    · exact ⟨first, List.mem_cons_self, hfirst⟩
    · obtain ⟨b, hb, hf⟩ := ih hrest ha
      exact ⟨b, List.mem_cons_of_mem _ hb, hf⟩

/-- A successful `mapM` has the results of the elements, in their order. -/
theorem List.mapM_eq_ok_iff {f : α → Except ε β} {as : List α} {bs : List β} :
    as.mapM f = .ok bs ↔ List.Forall₂ (fun a b => f a = .ok b) as bs := by
  induction as generalizing bs with
  | nil =>
    rw [List.mapM_nil, Except.pure_eq_ok_iff, List.forall₂_nil_left_iff]
    exact eq_comm
  | cons a as ih =>
    rw [List.mapM_cons, Except.bind_eq_ok_iff, List.forall₂_cons_left_iff]
    constructor
    · rintro ⟨b, hb, h⟩
      obtain ⟨rest, hrest, h⟩ := Except.bind_eq_ok_iff.mp h
      exact ⟨b, rest, hb, ih.mp hrest, (Except.ok.inj h).symm⟩
    · rintro ⟨b, rest, hb, hrest, rfl⟩
      exact ⟨b, hb, Except.bind_eq_ok_iff.mpr ⟨rest, ih.mpr hrest, rfl⟩⟩

/-! ### Two computations -/

/-- Both computations fail with one error, or they return related values. -/
inductive Except.Agree (R : α → β → Prop) : Except ε α → Except ε β → Prop where
  | ok {a : α} {b : β} (h : R a b) : Agree R (.ok a) (.ok b)
  | error (e : ε) : Agree R (.error e) (.error e)

namespace Except.Agree

variable {γ δ : Type} {R : α → β → Prop} {S : γ → δ → Prop}

theorem of_eq {x y : Except ε α} (h : x = y) : Agree Eq x y := by
  subst h
  cases x with
  | error e => exact .error e
  | ok a => exact .ok rfl

theorem eq {x y : Except ε α} (h : Agree Eq x y) : x = y := by
  cases h with
  | ok h => rw [h]
  | error e => rfl

theorem ok_of_right {x : Except ε α} {b : β} (h : Agree R x (.ok b)) : ∃ a, x = .ok a ∧ R a b := by
  cases h with
  | ok h => exact ⟨_, rfl, h⟩

theorem error_of_right {x : Except ε α} {e : ε} (h : Agree R x (.error e : Except ε β)) :
    x = .error e := by
  cases h with
  | error => rfl

theorem bind {x : Except ε α} {y : Except ε β} {f : α → Except ε γ} {g : β → Except ε δ}
    (h : Agree R x y) (hfg : ∀ a b, R a b → Agree S (f a) (g b)) :
    Agree S (x >>= f) (y >>= g) := by
  cases h with
  | ok h => exact hfg _ _ h
  | error e => exact .error e

theorem bind_same {x : Except ε α} {f : α → Except ε γ} {g : α → Except ε δ}
    (hfg : ∀ a, x = .ok a → Agree S (f a) (g a)) : Agree S (x >>= f) (x >>= g) := by
  cases x with
  | error e => exact .error e
  | ok a => exact hfg a rfl

theorem mapM {f : α → Except ε γ} {g : β → Except ε δ} {as : List α} {bs : List β}
    (h : List.Forall₂ R as bs) (hfg : ∀ a b, R a b → Agree S (f a) (g b)) :
    Agree (List.Forall₂ S) (as.mapM f) (bs.mapM g) := by
  induction h with
  | nil => exact .ok .nil
  | cons hab _ ih =>
    rw [List.mapM_cons, List.mapM_cons]
    refine (hfg _ _ hab).bind fun c d hcd => ih.bind fun cs ds hrest => ?_
    exact .ok (.cons hcd hrest)

theorem foldlM {f : γ → α → Except ε γ} {g : δ → β → Except ε δ} {as : List α} {bs : List β}
    {c : γ} {d : δ} (h : List.Forall₂ R as bs) (hcd : S c d)
    (hfg : ∀ c d a b, S c d → R a b → Agree S (f c a) (g d b)) :
    Agree S (as.foldlM f c) (bs.foldlM g d) := by
  induction h generalizing c d with
  | nil => exact .ok hcd
  | cons hab _ ih =>
    rw [List.foldlM_cons, List.foldlM_cons]
    exact (hfg _ _ _ _ hcd hab).bind fun _ _ hcd' => ih hcd'

end Except.Agree

/-! ### Failing with the state kept -/

/-- A computation over the state `σ` that may fail and keeps its state then too. -/
abbrev Call (σ ε α : Type) := ExceptT ε (StateM σ) α

namespace Call

/-- The result of a call and the state it leaves behind. -/
def exec (m : Call σ ε α) (s : σ) : Except ε α × σ := (ExceptT.run m).run s

/-- A call that reads and writes the state directly. -/
def ofFun (f : σ → Except ε α × σ) : Call σ ε α := ExceptT.mk fun s => f s

/-- Runs `m` and forgets its result: `let _ = m`. -/
def attempt (m : Call σ ε α) : Call σ ε' Unit :=
  ofFun fun s => (.ok (), (exec m s).2)

/-- The call `m` with its errors inside those of its caller. -/
def mapError (f : ε → ε') (m : Call σ ε α) : Call σ ε' α :=
  ofFun fun s => ((exec m s).1.mapError f, (exec m s).2)

/-- A result that does not touch the state. -/
def ofResult (result : Except ε α) : Call σ ε α := ofFun fun s => (result, s)

/-- The result of `m` as a value, for a `match` on it. -/
def outcome (m : Call σ ε α) : Call σ ε' (Except ε α) :=
  ofFun fun s => (.ok (exec m s).1, (exec m s).2)

@[simp] theorem exec_ofFun (f : σ → Except ε α × σ) (s : σ) : exec (ofFun f) s = f s := rfl

@[simp] theorem exec_pure (a : α) (s : σ) : exec (pure a : Call σ ε α) s = (.ok a, s) := rfl

@[simp] theorem exec_throw (e : ε) (s : σ) :
    exec (throw e : Call σ ε α) s = (.error e, s) := rfl

@[simp] theorem exec_get (s : σ) : exec (get : Call σ ε σ) s = (.ok s, s) := rfl

@[simp] theorem exec_modify (f : σ → σ) (s : σ) :
    exec (modify f : Call σ ε PUnit) s = (.ok ⟨⟩, f s) := rfl

theorem exec_bind (m : Call σ ε α) (f : α → Call σ ε β) (s : σ) :
    exec (m >>= f) s = match exec m s with
      | (.ok a, t) => exec (f a) t
      | (.error e, t) => (.error e, t) := by
  show StateT.run (ExceptT.run m >>= ExceptT.bindCont f) s = _
  unfold exec
  rw [StateT.run_bind]
  show (ExceptT.bindCont f ((ExceptT.run m).run s).1).run ((ExceptT.run m).run s).2 = _
  rcases h : (ExceptT.run m).run s with ⟨_ | a, t⟩ <;> rfl

theorem exec_bind_ok {m : Call σ ε α} {f : α → Call σ ε β} {s t : σ} {a : α}
    (h : exec m s = (.ok a, t)) : exec (m >>= f) s = exec (f a) t := by
  rw [exec_bind, h]

/-- A sequence succeeds when both of its calls do. -/
theorem exec_bind_eq_ok_iff {m : Call σ ε α} {f : α → Call σ ε β} {s u : σ} {b : β} :
    exec (m >>= f) s = (.ok b, u) ↔
      ∃ a t, exec m s = (.ok a, t) ∧ exec (f a) t = (.ok b, u) := by
  rw [exec_bind]
  rcases hm : exec m s with ⟨e | a, t⟩
  · simp
  · constructor
    · intro h
      exact ⟨a, t, rfl, h⟩
    · rintro ⟨a', t', heq, h⟩
      cases heq
      exact h

/-- A sequence fails when its first call does, or its second one after it. -/
theorem exec_bind_eq_error_iff {m : Call σ ε α} {f : α → Call σ ε β} {s u : σ} {e : ε} :
    exec (m >>= f) s = (.error e, u) ↔ exec m s = (.error e, u)
      ∨ ∃ a t, exec m s = (.ok a, t) ∧ exec (f a) t = (.error e, u) := by
  rw [exec_bind]
  rcases hm : exec m s with ⟨e' | a, t⟩
  · simp
  · constructor
    · intro h
      exact Or.inr ⟨a, t, rfl, h⟩
    · rintro (h | ⟨a', t', heq, h⟩)
      · exact absurd h (by simp)
      · cases heq
        exact h

theorem exec_mapError_eq_ok_iff {f : ε → ε'} {m : Call σ ε α} {s t : σ} {a : α} :
    exec (mapError f m) s = (.ok a, t) ↔ exec m s = (.ok a, t) := by
  show ((exec m s).1.mapError f, (exec m s).2) = (.ok a, t) ↔ _
  rcases exec m s with ⟨e | b, u⟩
  · simp [Except.mapError]
  · simp [Except.mapError]

theorem exec_mapError_eq_error_iff {f : ε → ε'} {m : Call σ ε α} {s t : σ} {e' : ε'} :
    exec (mapError f m) s = (.error e', t) ↔ ∃ e, exec m s = (.error e, t) ∧ f e = e' := by
  show ((exec m s).1.mapError f, (exec m s).2) = (.error e', t) ↔ _
  rcases exec m s with ⟨e | b, u⟩
  · simp [Except.mapError, and_comm]
  · simp [Except.mapError]

theorem exec_ofResult_eq_ok_iff {result : Except ε α} {s t : σ} {a : α} :
    exec (ofResult result) s = (.ok a, t) ↔ result = .ok a ∧ t = s := by
  show (result, s) = (.ok a, t) ↔ _
  rw [Prod.mk.injEq, eq_comm (a := t)]

theorem exec_ofResult_eq_error_iff {result : Except ε α} {s t : σ} {e : ε} :
    exec (ofResult result : Call σ ε α) s = (.error e, t) ↔ result = .error e ∧ t = s := by
  show (result, s) = (.error e, t) ↔ _
  rw [Prod.mk.injEq, eq_comm (a := t)]

@[simp] theorem exec_attempt (m : Call σ ε α) (s : σ) :
    exec (attempt m : Call σ ε' Unit) s = (.ok (), (exec m s).2) := rfl

@[simp] theorem exec_outcome (m : Call σ ε α) (s : σ) :
    exec (outcome m : Call σ ε' (Except ε α)) s = (.ok (exec m s).1, (exec m s).2) := rfl

/-- From `P`, `m` ends in `Q` with its value when it succeeds and in `E` when it fails. -/
def Spec (P : σ → Prop) (m : Call σ ε α) (Q : α → σ → Prop) (E : σ → Prop) : Prop :=
  ∀ s, P s → match exec m s with
    | (.ok a, t) => Q a t
    | (.error _, t) => E t

/-- `m` takes states with `I` to states with `I`, whether it succeeds or not. -/
def Keeps (I : σ → Prop) (m : Call σ ε α) : Prop := Spec I m (fun _ => I) I

section Rules

variable {I P P' E E' : σ → Prop} {Q Q' : α → σ → Prop}

theorem Spec.of_exec {m : Call σ ε α} (h : ∀ s, P s → (∀ a t, exec m s = (.ok a, t) → Q a t)
    ∧ ∀ e t, exec m s = (.error e, t) → E t) : Spec P m Q E := by
  intro s hs
  obtain ⟨hok, herror⟩ := h s hs
  rcases hexec : exec m s with ⟨e | a, t⟩
  · exact herror e t hexec
  · exact hok a t hexec

/-- The state a call leaves behind, when both ends agree on it. -/
theorem Spec.state {m : Call σ ε α} (h : Spec P m (fun _ => E) E) {s : σ} (hs : P s) :
    E (exec m s).2 := by
  have hstate := h s hs
  rcases hexec : exec m s with ⟨e | a, t⟩
  · rw [hexec] at hstate
    exact hstate
  · rw [hexec] at hstate
    exact hstate

theorem Spec.imp {m : Call σ ε α} (h : Spec P m Q E) (hP : ∀ s, P' s → P s)
    (hQ : ∀ a s, Q a s → Q' a s) (hE : ∀ s, E s → E' s) : Spec P' m Q' E' := by
  intro s hs
  have hspec := h s (hP s hs)
  rcases hexec : exec m s with ⟨e | a, t⟩
  · rw [hexec] at hspec
    exact hE t hspec
  · rw [hexec] at hspec
    exact hQ a t hspec

/-- Two properties of a call at once. -/
theorem Spec.and {m : Call σ ε α} (h : Spec P m Q E) (h' : Spec P' m Q' E') :
    Spec (fun s => P s ∧ P' s) m (fun a s => Q a s ∧ Q' a s) (fun s => E s ∧ E' s) := by
  rintro s ⟨hs, hs'⟩
  have hspec := h s hs
  have hspec' := h' s hs'
  rcases hexec : exec m s with ⟨e | a, t⟩
  · rw [hexec] at hspec hspec'
    exact ⟨hspec, hspec'⟩
  · rw [hexec] at hspec hspec'
    exact ⟨hspec, hspec'⟩

/-- A call that keeps what its failures leave, from there as well. -/
theorem Spec.orKeeps {m : Call σ ε α} (h : Spec P m Q E) (hkeeps : Keeps E m) :
    Spec (fun s => P s ∨ E s) m (fun a s => Q a s ∨ E s) E := by
  rintro s (hs | hs)
  · exact h.imp (fun _ hs => hs) (fun _ _ hQ => Or.inl hQ) (fun _ hE => hE) s hs
  · exact Spec.imp hkeeps (fun _ hs => hs) (fun _ _ hE => Or.inr hE) (fun _ hE => hE) s hs

theorem spec_pure {a : α} (h : ∀ s, P s → Q a s) : Spec P (pure a : Call σ ε α) Q E := h

theorem spec_throw {e : ε} (h : ∀ s, P s → E s) : Spec P (throw e : Call σ ε α) Q E := h

theorem spec_bind {R : β → σ → Prop} {m : Call σ ε α} {f : α → Call σ ε β}
    (hm : Spec P m Q E) (hf : ∀ a, Spec (Q a) (f a) R E) : Spec P (m >>= f) R E := by
  intro s hs
  have hspec := hm s hs
  rw [exec_bind]
  rcases hexec : exec m s with ⟨e | a, t⟩
  · rw [hexec] at hspec
    exact hspec
  · rw [hexec] at hspec
    exact hf a t hspec

/-- Reading the state: the rest of the call may depend on the value read. -/
theorem spec_get_bind {R : β → σ → Prop} {f : σ → Call σ ε β}
    (hf : ∀ s, P s → Spec (fun t => t = s) (f s) R E) : Spec P (get >>= f) R E := by
  intro s hs
  rw [exec_bind, exec_get]
  exact hf s hs s rfl

theorem spec_modify {f : σ → σ} {Q : PUnit → σ → Prop} (hf : ∀ s, P s → Q ⟨⟩ (f s)) :
    Spec P (modify f : Call σ ε PUnit) Q E := hf

theorem spec_ite {p : Prop} [Decidable p] {m n : Call σ ε α} (hm : p → Spec P m Q E)
    (hn : ¬ p → Spec P n Q E) : Spec P (if p then m else n) Q E := by
  by_cases hp : p
  · rw [if_pos hp]
    exact hm hp
  · rw [if_neg hp]
    exact hn hp

/-- A fact about no state may be taken out of the precondition. -/
theorem spec_and_right {p : Prop} {m : Call σ ε α} (h : p → Spec P m Q E) :
    Spec (fun s => P s ∧ p) m Q E := fun s hs => h hs.2 s hs.1

/-- An ignored failure ends where the call has ended. -/
theorem spec_attempt {m : Call σ ε α} {Q : Unit → σ → Prop} (h : Spec P m (fun _ => Q ()) (Q ())) :
    Spec P (attempt m : Call σ ε' Unit) Q E := fun _ hs => h.state hs

theorem spec_outcome {m : Call σ ε α} {Q : Except ε α → σ → Prop}
    (h : Spec P m (fun a => Q (.ok a)) fun s => ∀ e, Q (.error e) s) :
    Spec P (outcome m : Call σ ε' (Except ε α)) Q E := by
  intro s hs
  have hspec := h s hs
  rw [exec_outcome]
  rcases hexec : exec m s with ⟨e | a, t⟩
  · rw [hexec] at hspec
    exact hspec e
  · rw [hexec] at hspec
    exact hspec

theorem spec_mapError {f : ε → ε'} {m : Call σ ε α} (h : Spec P m Q E) :
    Spec P (mapError f m) Q E := by
  intro s hs
  have hspec := h s hs
  unfold mapError
  rw [exec_ofFun]
  rcases hexec : exec m s with ⟨e | a, t⟩
  · rw [hexec] at hspec
    exact hspec
  · rw [hexec] at hspec
    exact hspec

theorem spec_ofResult {result : Except ε α} (herror : ∀ s, P s → E s)
    (hok : ∀ a, result = .ok a → ∀ s, P s → Q a s) : Spec P (ofResult result : Call σ ε α) Q E := by
  rcases result with e | a
  · exact herror
  · exact hok a rfl

/-- What holds of the state a call leaves behind, whether it succeeds or not. -/
theorem Spec.of_state {m : Call σ ε α} (h : ∀ s, P s → E (exec m s).2) :
    Spec P m (fun _ => E) E := by
  intro s hs
  have hstate := h s hs
  rcases hexec : exec m s with ⟨e | a, t⟩
  · rw [hexec] at hstate
    exact hstate
  · rw [hexec] at hstate
    exact hstate

theorem Keeps.of_state {m : Call σ ε α} (h : ∀ s, I s → I (exec m s).2) : Keeps I m :=
  Spec.of_state h

/-- A property that a call keeps may be weakened for its failures. -/
theorem Keeps.to {m : Call σ ε α} (h : Keeps I m) (hE : ∀ s, I s → E s) :
    Spec I m (fun _ => I) E := h.imp (fun _ hs => hs) (fun _ _ hs => hs) hE

/-- What a call keeps, it keeps from the one state in which it is run. -/
theorem Keeps.at {m : Call σ ε α} (h : Keeps I m) {s : σ} (hs : I s) :
    Spec (fun t => t = s) m (fun _ => I) I :=
  h.imp (fun _ ht => ht ▸ hs) (fun _ _ ht => ht) fun _ ht => ht

theorem keeps_pure (a : α) : Keeps I (pure a : Call σ ε α) := spec_pure fun _ hs => hs

theorem keeps_throw (e : ε) : Keeps I (throw e : Call σ ε α) := spec_throw fun _ hs => hs

theorem keeps_get : Keeps I (get : Call σ ε σ) := fun _ hs => hs

theorem keeps_modify {f : σ → σ} (hf : ∀ s, I s → I (f s)) :
    Keeps I (modify f : Call σ ε PUnit) := spec_modify hf

theorem keeps_bind {m : Call σ ε α} {f : α → Call σ ε β} (hm : Keeps I m)
    (hf : ∀ a, Keeps I (f a)) : Keeps I (m >>= f) := spec_bind hm hf

theorem keeps_mapError {f : ε → ε'} {m : Call σ ε α} (hm : Keeps I m) : Keeps I (mapError f m) :=
  spec_mapError hm

theorem keeps_ofResult (result : Except ε α) : Keeps I (ofResult result : Call σ ε α) :=
  spec_ofResult (fun _ hs => hs) fun _ _ _ hs => hs

theorem keeps_foldlM {f : β → α → Call σ ε β} (hf : ∀ b a, Keeps I (f b a)) (b : β)
    (as : List α) : Keeps I (as.foldlM f b) := by
  induction as generalizing b with
  | nil => exact keeps_pure b
  | cons a as ih =>
    rw [List.foldlM_cons]
    exact keeps_bind (hf b a) ih

theorem keeps_forM {f : α → Call σ ε PUnit} (hf : ∀ a, Keeps I (f a)) (as : List α) :
    Keeps I (as.forM f) := by
  induction as with
  | nil => exact keeps_pure _
  | cons a as ih => exact keeps_bind (hf a) fun _ => ih

theorem keeps_attempt {m : Call σ ε α} (hm : Keeps I m) :
    Keeps I (attempt m : Call σ ε' Unit) := spec_attempt hm

theorem keeps_outcome {m : Call σ ε α} (hm : Keeps I m) :
    Keeps I (outcome m : Call σ ε' (Except ε α)) :=
  spec_outcome (hm.imp (fun _ hs => hs) (fun _ _ hs => hs) fun _ hs _ => hs)

end Rules

/-- From `P`, `m` ends with a result and a state that are related by `R`. -/
def Ends (P : σ → Prop) (m : Call σ ε α) (R : Except ε α → σ → Prop) : Prop :=
  ∀ s, P s → R (exec m s).1 (exec m s).2

section Ends

variable {P E : σ → Prop} {Q : α → σ → Prop} {R : Except ε α → σ → Prop}

theorem Spec.ends {m : Call σ ε α} (h : Spec P m Q E) (hok : ∀ a s, Q a s → R (.ok a) s)
    (herror : ∀ e s, E s → R (.error e) s) : Ends P m R := by
  intro s hs
  have hspec := h s hs
  rcases hexec : exec m s with ⟨e | a, t⟩
  · rw [hexec] at hspec
    exact herror e t hspec
  · rw [hexec] at hspec
    exact hok a t hspec

theorem ends_bind {R' : Except ε β → σ → Prop} {m : Call σ ε α} {f : α → Call σ ε β}
    (hm : Ends P m R) (hok : ∀ a, Ends (R (.ok a)) (f a) R')
    (herror : ∀ e s, R (.error e) s → R' (.error e) s) : Ends P (m >>= f) R' := by
  intro s hs
  have hends := hm s hs
  rw [exec_bind]
  rcases hexec : exec m s with ⟨e | a, t⟩
  · rw [hexec] at hends
    exact herror e t hends
  · rw [hexec] at hends
    exact hok a t hends

theorem ends_pure {a : α} (h : ∀ s, P s → R (.ok a) s) : Ends P (pure a) R := h

theorem Ends.imp {P' : σ → Prop} {R' : Except ε α → σ → Prop} {m : Call σ ε α} (h : Ends P m R)
    (hP : ∀ s, P' s → P s) (hR : ∀ result s, R result s → R' result s) : Ends P' m R' :=
  fun s hs => hR _ _ (h s (hP s hs))

/-- Reading the state: the rest of the call may depend on the value read. -/
theorem ends_get_bind {R' : Except ε β → σ → Prop} {f : σ → Call σ ε β}
    (hf : ∀ s, P s → Ends (fun t => t = s) (f s) R') : Ends P (get >>= f) R' := by
  intro s hs
  rw [exec_bind, exec_get]
  exact hf s hs s rfl

/-- The rest after a call that succeeds with `a`. -/
theorem ends_ok_bind {P' : σ → Prop} {R' : Except ε β → σ → Prop} {m : Call σ ε α}
    {f : α → Call σ ε β} {a : α} (hm : Ends P m fun result s => result = .ok a ∧ P' s)
    (hf : Ends P' (f a) R') : Ends P (m >>= f) R' := by
  refine ends_bind hm (fun a' s hs => ?_) fun e s hs => absurd hs.1 (by simp)
  obtain ⟨hresult, hs⟩ := hs
  obtain rfl := Except.ok.inj hresult
  exact hf s hs

theorem ends_ite {p : Prop} [Decidable p] {m n : Call σ ε α} (hm : p → Ends P m R)
    (hn : ¬ p → Ends P n R) : Ends P (if p then m else n) R := by
  by_cases hp : p
  · rw [if_pos hp]
    exact hm hp
  · rw [if_neg hp]
    exact hn hp

theorem ends_throw {e : ε} (h : ∀ s, P s → R (.error e) s) : Ends P (throw e) R := h

/-- The rest after a call whose failure ends it. -/
theorem ends_spec_bind {R' : Except ε β → σ → Prop} {m : Call σ ε α} {f : α → Call σ ε β}
    (hm : Spec P m Q E) (hok : ∀ a, Ends (Q a) (f a) R') (herror : ∀ e s, E s → R' (.error e) s) :
    Ends P (m >>= f) R' := by
  intro s hs
  have hspec := hm s hs
  rw [exec_bind]
  rcases hexec : exec m s with ⟨e | a, t⟩
  · rw [hexec] at hspec
    exact herror e t hspec
  · rw [hexec] at hspec
    exact hok a t hspec

/-- The rest after a call whose result is ignored. -/
theorem ends_attempt_bind {R' : Except ε' β → σ → Prop} {m : Call σ ε α}
    {f : Unit → Call σ ε' β} (hm : Spec P m (fun _ => E) E) (hf : Ends E (f ()) R') :
    Ends P (attempt m >>= f) R' := by
  intro s hs
  rw [exec_bind, exec_attempt]
  exact hf _ (hm.state hs)

/-- A result that meets `Q`, or an error that meets `F`. -/
def Either (Q : α → σ → Prop) (F : ε → σ → Prop) : Except ε α → σ → Prop
  | .ok a => Q a
  | .error e => F e

/-- What is known of a result may be weakened. -/
theorem Ends.either {Q' : α → σ → Prop} {F : ε → σ → Prop} {m : Call σ ε α}
    (h : Ends P m (Either Q F)) (hQ : ∀ a s, Q a s → Q' a s) : Ends P m (Either Q' F) := by
  refine h.imp (fun _ hs => hs) fun result s hs => ?_
  rcases result with e | a
  · exact hs
  · exact hQ a s hs

/-- A sequence fails as one of its calls does. -/
theorem ends_either_bind {Q' : β → σ → Prop} {F : ε → σ → Prop} {m : Call σ ε α}
    {f : α → Call σ ε β} (hm : Ends P m (Either Q F)) (hf : ∀ a, Ends (Q a) (f a) (Either Q' F)) :
    Ends P (m >>= f) (Either Q' F) := ends_bind hm hf fun _ _ h => h

/-- A call whose errors are put inside those of its caller. -/
theorem ends_mapError {f : ε → ε'} {F : ε → σ → Prop} {F' : ε' → σ → Prop} {m : Call σ ε α}
    (hm : Ends P m (Either Q F)) (hF : ∀ e s, F e s → F' (f e) s) :
    Ends P (mapError f m) (Either Q F') := by
  intro s hs
  have hends := hm s hs
  unfold mapError
  rw [exec_ofFun]
  rcases hexec : exec m s with ⟨e | a, t⟩
  · rw [hexec] at hends
    exact hF e t hends
  · rw [hexec] at hends
    exact hends

/-- A `match` on the result of a call. -/
theorem ends_outcome_bind {R' : Except ε' β → σ → Prop} {m : Call σ ε α}
    {f : Except ε α → Call σ ε' β} (hm : Ends P m R) (hf : ∀ r, Ends (R r) (f r) R') :
    Ends P (outcome m >>= f) R' := by
  intro s hs
  rw [exec_bind, exec_outcome]
  exact hf _ _ (hm s hs)

end Ends

end Call
