/-
What calls do when nothing fails.

A plan is a computation that either is impossible or gives a value and the state after it.  A call
carries it out if, whenever it succeeds, the plan says what it returns and leaves, and if it does
succeed wherever the plan is possible and the calls beneath it are reliable.  A result about a call
is then one about a function.

* `Plan` — a computation without failures of its own;
* `CarriesOut` — how a call is related to its plan;
* `carriesOut_bind`, `carriesOut_foldlM`, `carriesOut_outcome_bind` — how plans are put together.
-/
import Rewind.Lib.Fallible

namespace Rewind

open Call

variable {σ τ ε ε' α β : Type}

theorem Except.toOption_mapError (f : ε → ε') (result : Except ε α) :
    (result.mapError f).toOption = result.toOption := by
  cases result <;> rfl

/-- What a computation makes of a state, where it is possible. -/
abbrev Plan (τ α : Type) := StateT τ Option α

namespace Plan

/-- A value that leaves the state as it is. -/
def lift (value : Option α) : Plan τ α := fun t => value.map fun a => (a, t)

/-- A condition that a plan depends on. -/
def check (p : Prop) [Decidable p] : Plan τ Unit := lift (if p then some () else none)

/-- A plan that is nowhere possible. -/
def impossible : Plan τ α := fun _ => none

theorem pure_eq_some_iff {a b : α} {t u : τ} :
    (pure a : Plan τ α) t = some (b, u) ↔ a = b ∧ t = u := by
  show some (a, t) = some (b, u) ↔ _
  rw [Option.some.injEq, Prod.mk.injEq]

theorem lift_eq_some_iff {value : Option α} {a : α} {t u : τ} :
    lift value t = some (a, u) ↔ value = some a ∧ t = u := by
  unfold lift
  rcases value with _ | b <;> simp

theorem check_eq_some_iff {p : Prop} [Decidable p] {u : Unit} {t v : τ} :
    (check p : Plan τ Unit) t = some (u, v) ↔ p ∧ t = v := by
  rw [check, lift_eq_some_iff]
  by_cases h : p <;> simp [h]

theorem pure_apply (a : α) (t : τ) : (pure a : Plan τ α) t = some (a, t) := rfl

theorem bind_apply (x : Plan τ α) (f : α → Plan τ β) (t : τ) :
    (x >>= f) t = (x t).bind fun found => f found.1 found.2 := rfl

theorem bind_eq_some_iff {x : Plan τ α} {f : α → Plan τ β} {b : β} {t v : τ} :
    (x >>= f) t = some (b, v) ↔ ∃ a u, x t = some (a, u) ∧ f a u = some (b, v) := by
  rw [bind_apply]
  rcases x t with _ | ⟨a, u⟩
  · simp
  · rw [Option.bind_some]
    constructor
    · intro h
      exact ⟨a, u, rfl, h⟩
    · rintro ⟨a', u', heq, h⟩
      cases heq
      exact h

theorem foldlM_cons_eq_some_iff {f : β → α → Plan τ β} {b b' : β} {a : α} {as : List α}
    {t v : τ} : (a :: as).foldlM f b t = some (b', v)
      ↔ ∃ c u, f b a t = some (c, u) ∧ as.foldlM f c u = some (b', v) := by
  rw [List.foldlM_cons, bind_eq_some_iff]

/-- A loop whose steps leave the state as it is. -/
theorem forM_eq_some_iff {f : α → Plan τ PUnit} {p : α → Prop}
    (hf : ∀ a t u, f a t = some (⟨⟩, u) ↔ p a ∧ u = t) {as : List α} {t u : τ} :
    as.forM f t = some (⟨⟩, u) ↔ (∀ a ∈ as, p a) ∧ u = t := by
  induction as generalizing t with
  | nil =>
    refine pure_eq_some_iff.trans ?_
    simp [eq_comm]
  | cons a as ih =>
    refine bind_eq_some_iff.trans ?_
    rw [List.forall_mem_cons]
    constructor
    · rintro ⟨_, v, hfirst, hrest⟩
      obtain ⟨hp, rfl⟩ := (hf a t v).mp hfirst
      obtain ⟨hall, rfl⟩ := ih.mp hrest
      exact ⟨⟨hp, hall⟩, rfl⟩
    · rintro ⟨⟨hp, hall⟩, rfl⟩
      exact ⟨PUnit.unit, u, (hf a u u).mpr ⟨hp, rfl⟩, ih.mpr ⟨hall, rfl⟩⟩

theorem forM_eq_foldlM (f : α → Plan τ PUnit) (as : List α) :
    as.forM f = as.foldlM (fun _ a => f a) PUnit.unit := by
  induction as with
  | nil => rfl
  | cons a as ih =>
    show (f a >>= fun _ => as.forM f) = _
    rw [ih, List.foldlM_cons]

end Plan

/-- The call succeeds as in the plan, and wherever the plan is possible if the calls are
`reliable`. -/
structure CarriesOut (view : σ → τ) (reliable : Prop) (m : Call σ ε α) (x : Plan τ α) : Prop where
  sound : ∀ {s a s'}, exec m s = (.ok a, s') → x (view s) = some (a, view s')
  complete : reliable → ∀ {s a t}, x (view s) = some (a, t) →
    ∃ s', exec m s = (.ok a, s') ∧ view s' = t

section CarriesOut

variable {view : σ → τ} {reliable : Prop}

theorem carriesOut_pure (a : α) : CarriesOut view reliable (pure a : Call σ ε α) (pure a) where
  sound := by
    intro s b s' h
    obtain ⟨hvalue, rfl⟩ := Prod.mk.inj h
    exact Plan.pure_eq_some_iff.mpr ⟨Except.ok.inj hvalue, rfl⟩
  complete := by
    intro _ s b t h
    obtain ⟨rfl, rfl⟩ := Plan.pure_eq_some_iff.mp h
    exact ⟨s, rfl, rfl⟩

theorem carriesOut_throw (e : ε) :
    CarriesOut view reliable (throw e : Call σ ε α) Plan.impossible where
  sound h := absurd (congrArg Prod.fst h) (by simp)
  complete := by
    intro _ s a t h
    exact absurd h (by simp [Plan.impossible])

theorem carriesOut_bind {m : Call σ ε α} {f : α → Call σ ε β} {x : Plan τ α} {g : α → Plan τ β}
    (hm : CarriesOut view reliable m x) (hf : ∀ a, CarriesOut view reliable (f a) (g a)) :
    CarriesOut view reliable (m >>= f) (x >>= g) where
  sound := by
    intro s b s'' h
    obtain ⟨a, s', hfirst, hrest⟩ := exec_bind_eq_ok_iff.mp h
    exact Plan.bind_eq_some_iff.mpr ⟨a, view s', hm.sound hfirst, (hf a).sound hrest⟩
  complete := by
    intro hreliable s b v h
    obtain ⟨a, u, hfirst, hrest⟩ := Plan.bind_eq_some_iff.mp h
    obtain ⟨s', hexec, rfl⟩ := hm.complete hreliable hfirst
    obtain ⟨s'', hexec', hview⟩ := (hf a).complete hreliable hrest
    exact ⟨s'', exec_bind_eq_ok_iff.mpr ⟨a, s', hexec, hexec'⟩, hview⟩

/-- A step that does not matter to the plan. -/
theorem carriesOut_skip {m : Call σ ε α} {m' : Call σ ε β} {a : α} {x : Plan τ β}
    (hm : CarriesOut view reliable m (pure a)) (hm' : CarriesOut view reliable m' x) :
    CarriesOut view reliable (m >>= fun _ => m') x := by
  have h := carriesOut_bind hm fun _ => hm'
  rw [pure_bind] at h
  exact h

/-- A plan that says the same of every state. -/
theorem CarriesOut.congr {m : Call σ ε α} {x y : Plan τ α} (h : CarriesOut view reliable m x)
    (hxy : ∀ s, x (view s) = y (view s)) : CarriesOut view reliable m y where
  sound := by
    intro s a s' hexec
    rw [← hxy]
    exact h.sound hexec
  complete := by
    intro hreliable s a t ht
    rw [← hxy] at ht
    exact h.complete hreliable ht

theorem carriesOut_mapError {f : ε → ε'} {m : Call σ ε α} {x : Plan τ α}
    (hm : CarriesOut view reliable m x) : CarriesOut view reliable (mapError f m) x where
  sound h := hm.sound (exec_mapError_eq_ok_iff.mp h)
  complete := by
    intro hreliable s a t h
    obtain ⟨s', hexec, hview⟩ := hm.complete hreliable h
    exact ⟨s', exec_mapError_eq_ok_iff.mpr hexec, hview⟩

theorem carriesOut_ofResult (result : Except ε α) :
    CarriesOut view reliable (ofResult result) (Plan.lift result.toOption) where
  sound := by
    intro s a s' h
    obtain ⟨rfl, rfl⟩ := exec_ofResult_eq_ok_iff.mp h
    exact Plan.lift_eq_some_iff.mpr ⟨rfl, rfl⟩
  complete := by
    intro _ s a t h
    obtain ⟨hresult, rfl⟩ := Plan.lift_eq_some_iff.mp h
    exact ⟨s, exec_ofResult_eq_ok_iff.mpr ⟨Except.toOption_eq_some_iff.mp hresult, rfl⟩, rfl⟩

theorem carriesOut_ensure {p : Prop} [Decidable p] {e : ε} :
    CarriesOut view reliable (ofResult (ensure p e)) (Plan.check p) := by
  refine (carriesOut_ofResult _).congr fun s => ?_
  unfold Plan.check ensure
  by_cases h : p <;> simp [h, Except.toOption]

/-- A `match` on the result of a call, after whose failure the whole fails. -/
theorem carriesOut_outcome_bind {m : Call σ ε α} {k : Except ε α → Call σ ε' β} {x : Plan τ α}
    {g : α → Plan τ β} (hm : CarriesOut view reliable m x)
    (hok : ∀ a, CarriesOut view reliable (k (.ok a)) (g a))
    (herror : ∀ e s b, (exec (k (.error e)) s).1 ≠ .ok b) :
    CarriesOut view reliable (outcome m >>= k) (x >>= g) where
  sound := by
    intro s b s'' h
    obtain ⟨result, s', hfirst, hrest⟩ := exec_bind_eq_ok_iff.mp h
    rw [exec_outcome, Prod.mk.injEq] at hfirst
    obtain ⟨hresult, rfl⟩ := hfirst
    obtain rfl := Except.ok.inj hresult
    rcases hexec : exec m s with ⟨e | a, s'⟩ <;> rw [hexec] at hrest
    · exact absurd (congrArg Prod.fst hrest) (herror e s' b)
    · exact Plan.bind_eq_some_iff.mpr ⟨a, view s', hm.sound hexec, (hok a).sound hrest⟩
  complete := by
    intro hreliable s b v h
    obtain ⟨a, u, hfirst, hrest⟩ := Plan.bind_eq_some_iff.mp h
    obtain ⟨s', hexec, rfl⟩ := hm.complete hreliable hfirst
    obtain ⟨s'', hexec', hview⟩ := (hok a).complete hreliable hrest
    refine ⟨s'', exec_bind_eq_ok_iff.mpr ⟨.ok a, s', ?_, hexec'⟩, hview⟩
    rw [exec_outcome, hexec]

theorem carriesOut_foldlM {f : β → α → Call σ ε β} {g : β → α → Plan τ β} {as : List α}
    (hf : ∀ a ∈ as, ∀ b, CarriesOut view reliable (f b a) (g b a)) (b : β) :
    CarriesOut view reliable (as.foldlM f b) (as.foldlM g b) := by
  induction as generalizing b with
  | nil => exact carriesOut_pure b
  | cons a as ih =>
    obtain ⟨hfirst, hrest⟩ := List.forall_mem_cons.mp hf
    rw [List.foldlM_cons, List.foldlM_cons]
    exact carriesOut_bind (hfirst b) (ih hrest)

theorem carriesOut_forM {f : α → Call σ ε PUnit} {g : α → Plan τ PUnit}
    (hf : ∀ a, CarriesOut view reliable (f a) (g a)) (as : List α) :
    CarriesOut view reliable (as.forM f) (as.forM g) := by
  induction as with
  | nil => exact carriesOut_pure PUnit.unit
  | cons a as ih => exact carriesOut_bind (hf a) fun _ => ih

theorem carriesOut_ite {p : Prop} [Decidable p] {m m' : Call σ ε α} {x x' : Plan τ α}
    (hm : p → CarriesOut view reliable m x) (hm' : ¬ p → CarriesOut view reliable m' x') :
    CarriesOut view reliable (if p then m else m') (if p then x else x') := by
  by_cases h : p
  · rw [if_pos h, if_pos h]
    exact hm h
  · rw [if_neg h, if_neg h]
    exact hm' h

end CarriesOut

end Rewind
