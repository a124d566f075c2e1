/-
Forests that grow one edge at a time.

A forest is the list of its edges, oldest first; an edge leads from a child to its parent.  An
edge is added for a child that is the parent of no edge so far, so that a walk along parents meets
older and older edges.

* `Grown.exists_rank` — a rank that falls along every edge, bounded by the number of edges;
* `not_transGen`, `not_forall_up` — with a rank there is no cycle, and no walk without end;
* `climb_ends` — a walk with as many steps as the rank allows ends at a root;
* `trail_ends`, `trail_ok` — a walk that stops before it meets a node again ends on any data,
  and has met every ancestor;
* `nearest_of_find?` — the first node of a trail that is on another one is below all they share.
-/
import Mathlib.Data.Finset.Card
import Mathlib.Data.List.Induction
import Mathlib.Logic.Relation

namespace Forest

variable {ε α : Type*} (child parent : ε → α)

/-- An edge leads from `a` up to `b`. -/
def Up (edges : List ε) (a b : α) : Prop := ∃ e ∈ edges, child e = a ∧ parent e = b

/-- Every edge was added for a child that was the parent of no edge, its own included. -/
structure Grown (edges : List ε) : Prop where
  proper : ∀ e ∈ edges, child e ≠ parent e
  ordered : edges.Pairwise fun e e' => parent e ≠ child e'

variable {child parent}

theorem Grown.nil : Grown child parent [] := ⟨fun _ h => absurd h List.not_mem_nil,
    List.Pairwise.nil⟩

theorem Grown.append {edges : List ε} {e : ε} (h : Grown child parent edges)
    (hproper : child e ≠ parent e) (hnew : ∀ e' ∈ edges, parent e' ≠ child e) :
    Grown child parent (edges ++ [e]) := by
  constructor
  · intro e' he'
    rcases List.mem_append.mp he' with hold | hlast
    · exact h.proper e' hold
    · obtain rfl := List.mem_singleton.mp hlast
      exact hproper
  · rw [List.pairwise_append]
    refine ⟨h.ordered, List.pairwise_singleton _ _, fun e' he' e'' he'' => ?_⟩
    obtain rfl := List.mem_singleton.mp he''
    exact hnew e' he'

/-- What a grown list of edges has in front of its last edge has grown too. -/
theorem Grown.of_append {edges : List ε} {e : ε} (h : Grown child parent (edges ++ [e])) :
    Grown child parent edges ∧ child e ≠ parent e ∧ ∀ e' ∈ edges, parent e' ≠ child e := by
  obtain ⟨hordered, -, hlast⟩ := List.pairwise_append.mp h.ordered
  refine ⟨⟨fun e' he' => h.proper e' (List.mem_append_left _ he'), hordered⟩, ?_, ?_⟩
  · exact h.proper e (List.mem_append_right _ (List.mem_singleton_self e))
  · intro e' he'
    exact hlast e' he' e (List.mem_singleton_self e)

/-- A grown forest has a rank that falls from each child to its parent. -/
theorem Grown.exists_rank {edges : List ε} (h : Grown child parent edges) :
    ∃ rank : α → Nat, (∀ a b, Up child parent edges a b → rank b < rank a)
      ∧ ∀ a, rank a ≤ edges.length := by
  classical
  -- the child of the newest edge is ranked above everything there was before
  induction edges using List.reverseRecOn with
  | nil => exact ⟨fun _ => 0, fun _ _ ⟨_, he, _⟩ => absurd he List.not_mem_nil, fun _ =>
      Nat.le_refl 0⟩
  | append_singleton edges e ih =>
    obtain ⟨hgrown, hproper, hnew⟩ := h.of_append
    obtain ⟨rank, hfalls, hbound⟩ := ih hgrown
    let rank' : α → Nat := fun a => if a = child e then edges.length + 1 else rank a
    have hchild : rank' (child e) = edges.length + 1 := if_pos rfl
    have hother : ∀ a, a ≠ child e → rank' a = rank a := fun a ha => if_neg ha
    have hbetween : ∀ a, rank a ≤ rank' a ∧ rank' a ≤ edges.length + 1 := by
      intro a
      have hle := hbound a
      by_cases ha : a = child e
      · rw [ha] at hle ⊢
        omega
      · have hsame := hother a ha
        omega
    refine ⟨rank', ?_, fun a => ?_⟩
    · rintro a b ⟨e', he', rfl, rfl⟩
      rcases List.mem_append.mp he' with hmem | hlast
      · have hsame := hother _ (hnew e' hmem)
        have hlt := hfalls _ _ ⟨e', hmem, rfl, rfl⟩
        have hle := (hbetween (child e')).1
        omega
      · obtain rfl := List.mem_singleton.mp hlast
        have hsame := hother _ hproper.symm
        have hle := hbound (parent e')
        omega
    · rw [List.length_append, List.length_singleton]
      exact (hbetween a).2

section Ranked

variable {up : α → α → Prop} {rank : α → Nat}

theorem not_transGen (hrank : ∀ a b, up a b → rank b < rank a) (a : α) :
    ¬ Relation.TransGen up a a := by
  have hfalls : ∀ b, Relation.TransGen up a b → rank b < rank a := by
    intro b hb
    induction hb with
    | single h => exact hrank _ _ h
    | tail _ h ih => exact Nat.lt_trans (hrank _ _ h) ih
  intro hcycle
  exact Nat.lt_irrefl _ (hfalls a hcycle)

theorem not_forall_up (hrank : ∀ a b, up a b → rank b < rank a) (walk : Nat → α) :
    ¬ ∀ n, up (walk n) (walk (n + 1)) := by
  intro hwalk
  have hbound : ∀ n, rank (walk n) + n ≤ rank (walk 0) := by
    intro n
    induction n with
    | zero => exact Nat.le_refl _
    | succ n ih =>
      have hlt := hrank _ _ (hwalk n)
      omega
  have hlast := hbound (rank (walk 0) + 1)
  omega

end Ranked

/-- The walk from `a` along parents, of `fuel` steps at most. -/
def climb (up? : α → Option α) : Nat → α → List α
  | 0, a => [a]
  | fuel + 1, a =>
    match up? a with
    | none => [a]
    | some b => a :: climb up? fuel b

/-- A walk that may take as many steps as its start ranks ends at a root. -/
theorem climb_ends {up? : α → Option α} {rank : α → Nat}
    (hrank : ∀ a b, up? a = some b → rank b < rank a) {fuel : Nat} {a : α} (h : rank a ≤ fuel) :
    ∃ root, (climb up? fuel a).getLast? = some root ∧ up? root = none := by
  induction fuel generalizing a with
  | zero =>
    refine ⟨a, rfl, ?_⟩
    rcases hup : up? a with _ | b
    · rfl
    · have hlt := hrank a b hup
      omega
  | succ fuel ih =>
    rcases hup : up? a with _ | b
    · refine ⟨a, ?_, hup⟩
      rw [climb, hup]
      rfl
    · have hlt := hrank a b hup
      obtain ⟨root, hlast, hroot⟩ := ih (show rank b ≤ fuel by omega)
      refine ⟨root, ?_, hroot⟩
      rw [climb, hup]
      show (a :: climb up? fuel b).getLast? = some root
      rw [List.getLast?_cons, hlast]
      rfl

/-! ### Walks that remember where they have been -/

section Trail

variable [DecidableEq α] (up? : α → Option α)

/-- `b` is the parent of `a`. -/
def Above (a b : α) : Prop := up? a = some b

/-- The walk from `current` along parents until it would meet a node again, of `fuel` steps at most;
`met` are the nodes that it has met. -/
def trail : Nat → List α → Option α → Option (List α)
  | 0, _, _ => none
  | fuel + 1, met, current =>
    match current.filter (· ∉ met) with
    | none => some met
    | some a => trail fuel (met ++ [a]) (up? a)

variable {up?} {fuel : Nat} {met walk : List α} {current : Option α} {start a : α}

/-- What holds of the nodes that a walk has met, each below the later ones. -/
structure Trailing (up? : α → Option α) (start : α) (met : List α) (current : Option α) : Prop where
  begun : start ∈ met ∨ (met = [] ∧ current = some start)
  nodup : met.Nodup
  ordered : met.Pairwise (Relation.ReflTransGen (Above up?))
  reached : ∀ a ∈ met, Relation.ReflTransGen (Above up?) start a
  next : ∀ a ∈ met, ∀ b, current = some b → Relation.ReflTransGen (Above up?) a b
  closed : ∀ a ∈ met, ∀ b, up? a = some b → b ∈ met ∨ current = some b

omit [DecidableEq α] in
theorem trailing_start (up? : α → Option α) (start : α) : Trailing up? start [] (some start) where
  begun := Or.inr ⟨rfl, rfl⟩
  nodup := List.nodup_nil
  ordered := List.Pairwise.nil
  reached := by simp
  next := by simp
  closed := by simp

omit [DecidableEq α] in
theorem Trailing.step (h : Trailing up? start met (some a)) (hnew : a ∉ met) :
    Trailing up? start (met ++ [a]) (up? a) := by
  have hreached : Relation.ReflTransGen (Above up?) start a := by
    rcases h.begun with hmem | ⟨-, hcurrent⟩
    · exact h.next start hmem a rfl
    · rw [Option.some.inj hcurrent]
  have hmem : ∀ {b}, b ∈ met ++ [a] ↔ b ∈ met ∨ b = a := by simp
  refine ⟨Or.inl ?_, ?_, ?_, ?_, ?_, ?_⟩
  · rcases h.begun with hmet | ⟨-, hcurrent⟩
    · exact hmem.mpr (Or.inl hmet)
    · exact hmem.mpr (Or.inr (Option.some.inj hcurrent).symm)
  · refine List.nodup_append.mpr ⟨h.nodup, List.nodup_singleton a, fun x hx y hy heq => hnew ?_⟩
    rw [← List.mem_singleton.mp hy, ← heq]
    exact hx
  · refine List.pairwise_append.mpr ⟨h.ordered, List.pairwise_singleton _ _, fun x hx y hy => ?_⟩
    rw [List.mem_singleton.mp hy]
    exact h.next x hx a rfl
  · intro b hb
    rcases hmem.mp hb with hold | rfl
    · exact h.reached b hold
    · exact hreached
  · intro b hb c hc
    have hlast : Relation.ReflTransGen (Above up?) a c := Relation.ReflTransGen.single hc
    rcases hmem.mp hb with hold | rfl
    · exact (h.next b hold a rfl).trans hlast
    · exact hlast
  · intro b hb c hc
    rcases hmem.mp hb with hold | rfl
    · rcases h.closed b hold c hc with hmet | hcurrent
      · exact Or.inl (hmem.mpr (Or.inl hmet))
      · exact Or.inl (hmem.mpr (Or.inr (Option.some.inj hcurrent).symm))
    · exact Or.inr hc

/-- A walk that has ended has met all ancestors of its start, in their order. -/
theorem trail_ok (h : Trailing up? start met current)
    (hwalk : trail up? fuel met current = some walk) :
    walk.Pairwise (Relation.ReflTransGen (Above up?))
      ∧ ∀ a, a ∈ walk ↔ Relation.ReflTransGen (Above up?) start a := by
  induction fuel generalizing met current with
  | zero => exact absurd hwalk (by simp [trail])
  | succ fuel ih =>
    rw [trail] at hwalk
    rcases hfilter : current.filter (· ∉ met) with _ | a <;> rw [hfilter] at hwalk
    · obtain rfl := Option.some.inj hwalk
      -- Nothing new is left: what has been met is closed.
      have hmet : ∀ b, current = some b → b ∈ met := by
        rintro b rfl
        by_contra hnew
        rw [Option.filter_some, if_pos (decide_eq_true hnew)] at hfilter
        exact absurd hfilter (by simp)
      have hstart : start ∈ met := h.begun.elim id fun ⟨_, hcurrent⟩ => hmet start hcurrent
      refine ⟨h.ordered, fun a => ⟨h.reached a, fun hreached => ?_⟩⟩
      induction hreached with
      | refl => exact hstart
      | tail _ hup ihup => exact (h.closed _ ihup _ hup).elim id (hmet _)
    · obtain ⟨rfl, hnew⟩ := Option.filter_eq_some_iff.mp hfilter
      exact ih (h.step (of_decide_eq_true hnew)) hwalk

/-- More fuel changes nothing. -/
theorem trail_mono {fuel' : Nat} (hwalk : trail up? fuel met current = some walk)
    (hle : fuel ≤ fuel') : trail up? fuel' met current = some walk := by
  induction fuel generalizing fuel' met current with
  | zero => exact absurd hwalk (by simp [trail])
  | succ fuel ih =>
    obtain ⟨fuel', rfl⟩ : ∃ n, fuel' = n + 1 := ⟨fuel' - 1, by omega⟩
    rw [trail] at hwalk ⊢
    rcases hfilter : current.filter (· ∉ met) with _ | a <;> rw [hfilter] at hwalk
    · exact hwalk
    · exact ih hwalk (by omega)

/-- A walk ends, even on a cycle, when only so many nodes have a parent. -/
theorem trail_ends {nodes : List α} (hnodes : ∀ a b, up? a = some b → a ∈ nodes)
    (h : met.Nodup) (hmet : current.isSome → met ⊆ nodes) (hbound : met.length ≤ nodes.length + 1)
    (hfuel : nodes.length + 2 ≤ met.length + fuel) :
    ∃ walk, trail up? fuel met current = some walk := by
  induction fuel generalizing met current with
  | zero => omega
  | succ fuel ih =>
    rw [trail]
    rcases hfilter : current.filter (· ∉ met) with _ | a
    · exact ⟨met, rfl⟩
    · obtain ⟨rfl, hnew⟩ := Option.filter_eq_some_iff.mp hfilter
      have hnew : a ∉ met := of_decide_eq_true hnew
      have hsub := hmet rfl
      -- All that has been met has a parent, and so it is one of the nodes.
      have hle : met.length ≤ nodes.length := (List.Nodup.subperm h hsub).length_le
      refine ih ?_ ?_ ?_ ?_
      · refine List.nodup_append.mpr ⟨h, List.nodup_singleton a, fun x hx y hy heq => hnew ?_⟩
        rw [← List.mem_singleton.mp hy, ← heq]
        exact hx
      · intro hsome
        obtain ⟨b, hb⟩ := Option.isSome_iff_exists.mp hsome
        exact List.append_subset.mpr ⟨hsub, by simpa using hnodes a b hb⟩
      · rw [List.length_append, List.length_singleton]
        omega
      · rw [List.length_append, List.length_singleton]
        omega

/-- What two walks share is above the first node of the one that is on the other. -/
theorem nearest_of_find? {walk walk' : List α}
    (hordered : walk.Pairwise (Relation.ReflTransGen (Above up?))) {nearest : α}
    (h : walk.find? (· ∈ walk') = some nearest) :
    nearest ∈ walk ∧ nearest ∈ walk'
      ∧ ∀ a ∈ walk, a ∈ walk' → Relation.ReflTransGen (Above up?) nearest a := by
  obtain ⟨hshared, before, after, rfl, hbefore⟩ := List.find?_eq_some_iff_append.mp h
  refine ⟨by simp, of_decide_eq_true hshared, fun a ha ha' => ?_⟩
  rcases List.mem_append.mp ha with hearly | hlate
  · exact absurd ha' (by simpa using hbefore a hearly)
  · rcases List.mem_cons.mp hlate with rfl | hlater
    · exact Relation.ReflTransGen.refl
    · exact (List.pairwise_cons.mp (List.pairwise_append.mp hordered).2.1).1 a hlater

omit [DecidableEq α] in
/-- Where no node is above itself, two nodes above each other are the same. -/
theorem eq_of_reflTransGen (hacyclic : ∀ a, ¬ Relation.TransGen (Above up?) a a) {a b : α}
    (hab : Relation.ReflTransGen (Above up?) a b) (hba : Relation.ReflTransGen (Above up?) b a) :
    a = b := by
  rcases Relation.reflTransGen_iff_eq_or_transGen.mp hab with heq | htrans
  · exact heq.symm
  · exact absurd (Relation.TransGen.trans_left htrans hba) (hacyclic a)

end Trail

end Forest
