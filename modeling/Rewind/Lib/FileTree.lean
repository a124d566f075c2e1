/-
Directory trees.

A `Dir` maps names to leaves and to further directories; what it maps a name to is read
with `get?`, and nothing here depends on the order of its entries.

* `insert`, `erase`, `modify`, `create` — changes at a name and at a path, with what they
  leave alone;
* `size` — the number of entries, by which a removal is seen;
* `Extends` — everything in the one tree is at the same path in the other;
* `collect` — what a function makes of everything in a tree, by the paths where it stands.
-/
import Mathlib.Data.List.Dedup

namespace FileTree

/-- The entries of a directory. -/
inductive Dir (α μ β : Type) where
  | nil
  | leaf (name : α) (content : β) (rest : Dir α μ β)
  | directory (name : α) (mode : μ) (entries rest : Dir α μ β)
deriving DecidableEq

/-- What stands at a name. -/
inductive Node (α μ β : Type) where
  | leaf (content : β)
  | directory (mode : μ) (entries : Dir α μ β)
deriving DecidableEq

/-- What stands at a name, without the entries of a directory. -/
inductive Kind (μ β : Type) where
  | leaf (content : β)
  | directory (mode : μ)
deriving DecidableEq

variable {α μ β : Type}

def Node.kind : Node α μ β → Kind μ β
  | .leaf content => .leaf content
  | .directory mode _ => .directory mode

/-- A directory, and no entry in it. -/
def Node.isEmptyDirectory : Node α μ β → Bool
  | .directory _ .nil => true
  | _ => false

theorem isEmptyDirectory_iff {node : Node α μ β} :
    node.isEmptyDirectory = true ↔ ∃ mode, node = .directory mode .nil := by
  rcases node with content | ⟨mode, _ | _ | _⟩ <;> simp [Node.isEmptyDirectory]

namespace Dir

/-- One more entry. -/
def cons (name : α) : Node α μ β → Dir α μ β → Dir α μ β
  | .leaf content, rest => .leaf name content rest
  | .directory mode entries, rest => .directory name mode entries rest

variable [DecidableEq α]

def get? : Dir α μ β → α → Option (Node α μ β)
  | .nil, _ => none
  | .leaf m content rest, n => if m = n then some (.leaf content) else rest.get? n
  | .directory m mode entries rest, n =>
    if m = n then some (.directory mode entries) else rest.get? n

def erase : Dir α μ β → α → Dir α μ β
  | .nil, _ => .nil
  | .leaf m content rest, n => if m = n then rest.erase n else .leaf m content (rest.erase n)
  | .directory m mode entries rest, n =>
    if m = n then rest.erase n else .directory m mode entries (rest.erase n)

/-- The entry `n` is `node`, whatever it was. -/
def insert : Dir α μ β → α → Node α μ β → Dir α μ β
  | .nil, n, node => cons n node .nil
  | .leaf m content rest, n, node =>
    if m = n then cons n node rest else .leaf m content (rest.insert n node)
  | .directory m mode entries rest, n, node =>
    if m = n then cons n node rest else .directory m mode entries (rest.insert n node)

/-- The names in the order of the entries. -/
def allNames : Dir α μ β → List α
  | .nil => []
  | .leaf name _ rest | .directory name _ _ rest => name :: rest.allNames

/-- The names, each once. -/
def names (d : Dir α μ β) : List α := d.allNames.dedup

@[simp] theorem get?_nil (n : α) : (.nil : Dir α μ β).get? n = none := rfl

theorem get?_cons (d : Dir α μ β) (m n : α) (node : Node α μ β) :
    (cons m node d).get? n = if m = n then some node else d.get? n := by
  cases node <;> rfl

theorem get?_erase (d : Dir α μ β) (m n : α) :
    (d.erase m).get? n = if m = n then none else d.get? n := by
  induction d with
  | nil => simp [erase]
  | leaf k content rest ih =>
    by_cases hk : k = m
    · subst hk
      rw [erase, if_pos rfl, ih]
      by_cases hn : k = n <;> simp [get?, hn]
    · rw [erase, if_neg hk, get?, get?, ih]
      by_cases hn : k = n
      · rw [if_pos hn, if_pos hn, if_neg fun hm => hk (hn.trans hm.symm)]
      · rw [if_neg hn, if_neg hn]
  | directory k mode entries rest _ ih =>
    by_cases hk : k = m
    · subst hk
      rw [erase, if_pos rfl, ih]
      by_cases hn : k = n <;> simp [get?, hn]
    · rw [erase, if_neg hk, get?, get?, ih]
      by_cases hn : k = n
      · rw [if_pos hn, if_pos hn, if_neg fun hm => hk (hn.trans hm.symm)]
      · rw [if_neg hn, if_neg hn]

theorem get?_erase_of_ne (d : Dir α μ β) {m n : α} (h : n ≠ m) :
    (d.erase m).get? n = d.get? n := by rw [get?_erase, if_neg h.symm]

theorem get?_insert (d : Dir α μ β) (m n : α) (node : Node α μ β) :
    (d.insert m node).get? n = if m = n then some node else d.get? n := by
  induction d with
  | nil => exact get?_cons _ m n node
  | leaf k content rest ih =>
    by_cases hk : k = m
    · subst hk
      rw [insert, if_pos rfl, get?_cons]
      by_cases hn : k = n <;> simp [get?, hn]
    · rw [insert, if_neg hk, get?, get?, ih]
      by_cases hn : k = n
      · rw [if_pos hn, if_pos hn, if_neg fun hm => hk (hn.trans hm.symm)]
      · rw [if_neg hn, if_neg hn]
  | directory k mode entries rest _ ih =>
    by_cases hk : k = m
    · subst hk
      rw [insert, if_pos rfl, get?_cons]
      by_cases hn : k = n <;> simp [get?, hn]
    · rw [insert, if_neg hk, get?, get?, ih]
      by_cases hn : k = n
      · rw [if_pos hn, if_pos hn, if_neg fun hm => hk (hn.trans hm.symm)]
      · rw [if_neg hn, if_neg hn]

theorem get?_insert_self (d : Dir α μ β) (n : α) (node : Node α μ β) :
    (d.insert n node).get? n = some node := by rw [get?_insert, if_pos rfl]

theorem get?_insert_of_ne (d : Dir α μ β) {m n : α} (node : Node α μ β) (h : n ≠ m) :
    (d.insert m node).get? n = d.get? n := by rw [get?_insert, if_neg h.symm]

theorem erase_cons_self (d : Dir α μ β) (n : α) (node : Node α μ β) :
    (cons n node d).erase n = d.erase n := by
  cases node <;> simp [cons, erase]

theorem insert_cons_self (d : Dir α μ β) (n : α) (node node' : Node α μ β) :
    (cons n node d).insert n node' = cons n node' d := by
  cases node <;> simp [cons, insert]

theorem erase_insert (d : Dir α μ β) (n : α) (node : Node α μ β) :
    (d.insert n node).erase n = d.erase n := by
  induction d with
  | nil => exact erase_cons_self _ n node
  | leaf k content rest ih =>
    by_cases hk : k = n
    · rw [insert, if_pos hk, erase_cons_self, erase, if_pos hk]
    · rw [insert, if_neg hk, erase, erase, if_neg hk, if_neg hk, ih]
  | directory k mode entries rest _ ih =>
    by_cases hk : k = n
    · rw [insert, if_pos hk, erase_cons_self, erase, if_pos hk]
    · rw [insert, if_neg hk, erase, erase, if_neg hk, if_neg hk, ih]

theorem insert_insert (d : Dir α μ β) (n : α) (node node' : Node α μ β) :
    (d.insert n node).insert n node' = d.insert n node' := by
  induction d with
  | nil => exact insert_cons_self _ n node node'
  | leaf k content rest ih =>
    by_cases hk : k = n
    · rw [insert, if_pos hk, insert_cons_self, insert, if_pos hk]
    · rw [insert, if_neg hk, insert, insert, if_neg hk, if_neg hk, ih]
  | directory k mode entries rest _ ih =>
    by_cases hk : k = n
    · rw [insert, if_pos hk, insert_cons_self, insert, if_pos hk]
    · rw [insert, if_neg hk, insert, insert, if_neg hk, if_neg hk, ih]

/-- Writing back what is there. -/
theorem insert_eq_self {d : Dir α μ β} {n : α} {node : Node α μ β} (h : d.get? n = some node) :
    d.insert n node = d := by
  induction d with
  | nil => exact absurd h (by simp)
  | leaf k content rest ih =>
    by_cases hk : k = n
    · rw [get?, if_pos hk] at h
      obtain rfl := Option.some.inj h
      rw [insert, if_pos hk, hk, cons]
    · rw [get?, if_neg hk] at h
      rw [insert, if_neg hk, ih h]
  | directory k mode entries rest _ ih =>
    by_cases hk : k = n
    · rw [get?, if_pos hk] at h
      obtain rfl := Option.some.inj h
      rw [insert, if_pos hk, hk, cons]
    · rw [get?, if_neg hk] at h
      rw [insert, if_neg hk, ih h]

theorem erase_eq_self {d : Dir α μ β} {n : α} (h : d.get? n = none) : d.erase n = d := by
  induction d with
  | nil => rfl
  | leaf k content rest ih =>
    by_cases hk : k = n
    · rw [get?, if_pos hk] at h
      exact absurd h (by simp)
    · rw [get?, if_neg hk] at h
      rw [erase, if_neg hk, ih h]
  | directory k mode entries rest _ ih =>
    by_cases hk : k = n
    · rw [get?, if_pos hk] at h
      exact absurd h (by simp)
    · rw [get?, if_neg hk] at h
      rw [erase, if_neg hk, ih h]

theorem mem_names {d : Dir α μ β} {n : α} : n ∈ d.names ↔ (d.get? n).isSome := by
  rw [names, List.mem_dedup]
  induction d with
  | nil => simp [allNames]
  | leaf k content rest ih =>
    by_cases hk : k = n
    · simp [allNames, get?, hk]
    · rw [allNames, get?, if_neg hk, List.mem_cons, ih]
      exact or_iff_right fun hn => hk hn.symm
  | directory k mode entries rest _ ih =>
    by_cases hk : k = n
    · simp [allNames, get?, hk]
    · rw [allNames, get?, if_neg hk, List.mem_cons, ih]
      exact or_iff_right fun hn => hk hn.symm

theorem get?_foldl_erase (names : List α) (d : Dir α μ β) (n : α) :
    (names.foldl erase d).get? n = if n ∈ names then none else d.get? n := by
  induction names generalizing d with
  | nil => simp
  | cons m names ih =>
    rw [List.foldl_cons, ih, get?_erase]
    by_cases hn : n = m
    · subst hn
      simp
    · by_cases hmem : n ∈ names
      · simp [hmem]
      · rw [if_neg hmem, if_neg fun h => hn h.symm, if_neg]
        simp [hn, hmem]

/-- A directory without names has no entries. -/
theorem eq_nil_of_get? {d : Dir α μ β} (h : ∀ n, d.get? n = none) : d = .nil := by
  cases d with
  | nil => rfl
  | leaf k content rest => exact absurd (h k) (by simp [get?])
  | directory k mode entries rest => exact absurd (h k) (by simp [get?])

/-- Without all its entries a directory is empty. -/
theorem foldl_erase_names (d : Dir α μ β) : d.names.foldl erase d = .nil := by
  refine eq_nil_of_get? fun n => ?_
  rw [get?_foldl_erase]
  by_cases hn : n ∈ d.names
  · rw [if_pos hn]
  · rw [if_neg hn]
    exact Option.not_isSome_iff_eq_none.mp fun h => hn (mem_names.mpr h)

/-! ### Paths -/

/-- The directory at a path. -/
def enter : List α → Dir α μ β → Option (Dir α μ β)
  | [], d => some d
  | n :: path, d =>
    match d.get? n with
    | some (.directory _ entries) => enter path entries
    | _ => none

/-- A change of the directory at a path, when there is one. -/
def modify (f : Dir α μ β → Dir α μ β) : List α → Dir α μ β → Dir α μ β
  | [], d => f d
  | n :: path, d =>
    match d.get? n with
    | some (.directory mode entries) => d.insert n (.directory mode (modify f path entries))
    | _ => d

/-- A new entry at a path whose directory is there and has no such entry yet. -/
def create (node : Node α μ β) : List α → Dir α μ β → Dir α μ β
  | [], d => d
  | [n], d => if (d.get? n).isSome then d else d.insert n node
  | n :: m :: path, d =>
    match d.get? n with
    | some (.directory mode entries) =>
      d.insert n (.directory mode (create node (m :: path) entries))
    | _ => d

/-- What stands at a path beneath a directory. -/
def lookup? (path : List α) (d : Dir α μ β) : Option (Node α μ β) :=
  path.getLast?.bind fun n => (d.enter path.dropLast).bind (·.get? n)

theorem lookup?_append_singleton (p : List α) (n : α) (d : Dir α μ β) :
    d.lookup? (p ++ [n]) = (d.enter p).bind (·.get? n) := by
  simp [lookup?]

theorem enter_append (p q : List α) (d : Dir α μ β) :
    d.enter (p ++ q) = (d.enter p).bind fun entries => entries.enter q := by
  induction p generalizing d with
  | nil => rfl
  | cons n p ih =>
    rw [List.cons_append, enter, enter]
    rcases d.get? n with _ | (content | ⟨mode, entries⟩)
    · rfl
    · rfl
    · exact ih entries

theorem modify_append (f : Dir α μ β → Dir α μ β) (p q : List α) (d : Dir α μ β) :
    d.modify f (p ++ q) = d.modify (fun entries => entries.modify f q) p := by
  induction p generalizing d with
  | nil => rfl
  | cons n p ih =>
    rw [List.cons_append, modify, modify]
    rcases d.get? n with _ | (content | ⟨mode, entries⟩)
    · rfl
    · rfl
    · simp only [ih entries]

theorem modify_modify (f g : Dir α μ β → Dir α μ β) (p : List α) (d : Dir α μ β) :
    (d.modify g p).modify f p = d.modify (fun entries => f (g entries)) p := by
  induction p generalizing d with
  | nil => rfl
  | cons n p ih =>
    rcases hget : d.get? n with _ | (content | ⟨mode, entries⟩)
    · simp only [modify, hget]
    · simp only [modify, hget]
    · simp only [modify, hget, get?_insert_self, insert_insert, ih entries]

theorem enter_modify (f : Dir α μ β → Dir α μ β) (p : List α) (d : Dir α μ β) :
    (d.modify f p).enter p = (d.enter p).map f := by
  induction p generalizing d with
  | nil => rfl
  | cons n p ih =>
    rcases hget : d.get? n with _ | (content | ⟨mode, entries⟩)
    · simp only [modify, enter, hget, Option.map_none]
    · simp only [modify, enter, hget, Option.map_none]
    · simp only [modify, enter, hget, get?_insert_self, ih entries]

/-- Only what a change does to the directory that is there counts. -/
theorem modify_congr {f g : Dir α μ β → Dir α μ β} {p : List α} {d entries : Dir α μ β}
    (henter : d.enter p = some entries) (hfg : f entries = g entries) :
    d.modify f p = d.modify g p := by
  induction p generalizing d with
  | nil =>
    obtain rfl := Option.some.inj henter
    exact hfg
  | cons n p ih =>
    rcases hget : d.get? n with _ | (content | ⟨mode, beneath⟩)
    · simp [enter, hget] at henter
    · simp [enter, hget] at henter
    · simp only [enter, hget] at henter
      simp only [modify, hget, ih henter]

/-- A change that is none where it is made. -/
theorem modify_eq_self {f : Dir α μ β → Dir α μ β} {p : List α} {d entries : Dir α μ β}
    (henter : d.enter p = some entries) (hf : f entries = entries) : d.modify f p = d := by
  induction p generalizing d with
  | nil =>
    obtain rfl := Option.some.inj henter
    exact hf
  | cons n p ih =>
    rcases hget : d.get? n with _ | (content | ⟨mode, beneath⟩)
    · simp [enter, hget] at henter
    · simp [enter, hget] at henter
    · simp only [enter, hget] at henter
      simp only [modify, hget, ih henter, insert_eq_self hget]

/-- A change beneath a name leaves the others alone. -/
theorem get?_modify_of_ne (f : Dir α μ β → Dir α μ β) (d : Dir α μ β) {m n : α} (path : List α)
    (h : n ≠ m) : (d.modify f (m :: path)).get? n = d.get? n := by
  rw [modify]
  rcases hget : d.get? m with _ | (content | ⟨mode, entries⟩)
  · rfl
  · rfl
  · exact get?_insert_of_ne d _ h

theorem get?_create_of_ne (node : Node α μ β) (d : Dir α μ β) {m n : α} (path : List α)
    (h : n ≠ m) : (d.create node (m :: path)).get? n = d.get? n := by
  cases path with
  | nil =>
    rw [create]
    by_cases hget : (d.get? m).isSome
    · rw [if_pos hget]
    · rw [if_neg hget]
      exact get?_insert_of_ne d node h
  | cons k path =>
    rw [create]
    rcases hget : d.get? m with _ | (content | ⟨mode, entries⟩)
    · rfl
    · rfl
    · exact get?_insert_of_ne d _ h

/-- Nothing is created beneath a name that is not there. -/
theorem get?_create_of_none (node : Node α μ β) {d : Dir α μ β} {n : α} {path : List α}
    (hget : d.get? n = none) (hpath : path ≠ [n]) : (d.create node path).get? n = none := by
  rcases path with _ | ⟨m, path⟩
  · exact hget
  · by_cases hn : n = m
    · subst hn
      rcases path with _ | ⟨k, path⟩
      · exact absurd rfl hpath
      · rw [create]
        simp only [hget]
    · rw [get?_create_of_ne node d path hn]
      exact hget

/-- The entries of a child directory are removed, and then the directory. -/
theorem modify_erase_names {d entries beneath : Dir α μ β} {p : List α} {n : α} {mode : μ}
    (henter : d.enter p = some entries) (hget : entries.get? n = some (.directory mode beneath)) :
    ∃ emptied, (d.modify (fun es => beneath.names.foldl erase es) (p ++ [n])).enter p = some emptied
      ∧ emptied.get? n = some (.directory mode .nil)
      ∧ (d.modify (fun es => beneath.names.foldl erase es) (p ++ [n])).modify (·.erase n) p
        = d.modify (·.erase n) p := by
  refine ⟨entries.modify (fun es => beneath.names.foldl erase es) [n], ?_, ?_, ?_⟩
  · rw [modify_append, enter_modify, henter]
    rfl
  · simp only [modify, hget, get?_insert_self, foldl_erase_names]
  · rw [modify_append, modify_modify]
    refine modify_congr henter ?_
    simp only [modify, hget, erase_insert]

/-! ### Size -/

/-- The number of entries of a tree. -/
def size : Dir α μ β → Nat
  | .nil => 0
  | .leaf _ _ rest => rest.size + 1
  | .directory _ _ entries rest => entries.size + rest.size + 1

theorem size_erase_le (d : Dir α μ β) (n : α) : (d.erase n).size ≤ d.size := by
  induction d with
  | nil => exact Nat.le_refl _
  | leaf m content rest ih =>
    by_cases hm : m = n
    · rw [erase, if_pos hm, size]
      omega
    · rw [erase, if_neg hm, size, size]
      omega
  | directory m mode entries rest _ ih =>
    by_cases hm : m = n
    · rw [erase, if_pos hm, size]
      omega
    · rw [erase, if_neg hm, size, size]
      omega

theorem size_erase_lt {d : Dir α μ β} {n : α} {node : Node α μ β} (h : d.get? n = some node) :
    (d.erase n).size < d.size := by
  induction d with
  | nil => exact absurd h (by simp)
  | leaf m content rest ih =>
    by_cases hm : m = n
    · have hle := size_erase_le rest n
      rw [erase, if_pos hm, size]
      omega
    · rw [get?, if_neg hm] at h
      have hlt := ih h
      rw [erase, if_neg hm, size, size]
      omega
  | directory m mode entries rest _ ih =>
    by_cases hm : m = n
    · have hle := size_erase_le rest n
      rw [erase, if_pos hm, size]
      omega
    · rw [get?, if_neg hm] at h
      have hlt := ih h
      rw [erase, if_neg hm, size, size]
      omega

/-- A smaller directory in the place of a larger one. -/
theorem size_insert_lt {d : Dir α μ β} {n : α} {mode : μ} {entries entries' : Dir α μ β}
    (h : d.get? n = some (.directory mode entries)) (hsize : entries'.size < entries.size) :
    (d.insert n (.directory mode entries')).size < d.size := by
  induction d with
  | nil => exact absurd h (by simp)
  | leaf m content rest ih =>
    by_cases hm : m = n
    · simp [get?, hm] at h
    · rw [get?, if_neg hm] at h
      have hlt := ih h
      rw [insert, if_neg hm, size, size]
      omega
  | directory m mode' entries₀ rest _ ih =>
    by_cases hm : m = n
    · simp only [get?, if_pos hm, Option.some.injEq, Node.directory.injEq] at h
      obtain ⟨-, rfl⟩ := h
      rw [insert, if_pos hm, cons, size, size]
      omega
    · rw [get?, if_neg hm] at h
      have hlt := ih h
      rw [insert, if_neg hm, size, size]
      omega

/-- A change that makes the directory at a path smaller makes the tree smaller. -/
theorem size_modify_lt {f : Dir α μ β → Dir α μ β} {path : List α} {d entries : Dir α μ β}
    (henter : d.enter path = some entries) (hf : (f entries).size < entries.size) :
    (d.modify f path).size < d.size := by
  induction path generalizing d with
  | nil =>
    obtain rfl := Option.some.inj henter
    exact hf
  | cons n path ih =>
    rcases hget : d.get? n with _ | (content | ⟨mode, beneath⟩)
    · simp [enter, hget] at henter
    · simp [enter, hget] at henter
    · simp only [enter, hget] at henter
      simp only [modify, hget]
      exact size_insert_lt hget (ih henter)

end Dir

/-! ### Extension -/

section Extension

variable [DecidableEq α]

/-- What stands at a path beneath a node. -/
def Node.kindAt : Node α μ β → List α → Option (Kind μ β)
  | node, [] => some node.kind
  | .leaf _, _ :: _ => none
  | .directory _ entries, n :: path =>
    match entries.get? n with
    | none => none
    | some node => node.kindAt path

@[simp] theorem Node.kindAt_nil (node : Node α μ β) : node.kindAt [] = some node.kind := by
  cases node <;> rfl

/-- Everything in the one tree is at its path in the other one. -/
def Extends (node node' : Option (Node α μ β)) : Prop :=
  ∀ path kind, node.bind (·.kindAt path) = some kind → node'.bind (·.kindAt path) = some kind

theorem Extends.refl (node : Option (Node α μ β)) : Extends node node := fun _ _ h => h

theorem Extends.trans {node₁ node₂ node₃ : Option (Node α μ β)} (h₁₂ : Extends node₁ node₂)
    (h₂₃ : Extends node₂ node₃) : Extends node₁ node₃ :=
  fun path kind h => h₂₃ path kind (h₁₂ path kind h)

theorem extends_none (node : Option (Node α μ β)) : Extends none node :=
  fun _ _ h => absurd h (by simp)

/-- More entries extend a directory. -/
theorem extends_directory {mode : μ} {entries entries' : Dir α μ β}
    (h : ∀ n, Extends (entries.get? n) (entries'.get? n)) :
    Extends (some (.directory mode entries)) (some (.directory mode entries')) := by
  intro path kind hkind
  cases path with
  | nil => exact hkind
  | cons n path =>
    have hbeneath := h n path kind
    rw [Option.bind_some, Node.kindAt] at hkind ⊢
    rcases hget : entries.get? n with _ | node
    · rw [hget] at hkind
      exact absurd hkind (by simp)
    · rw [hget] at hkind hbeneath
      have hnext := hbeneath hkind
      rcases hget' : entries'.get? n with _ | node'
      · rw [hget'] at hnext
        exact absurd hnext (by simp)
      · rw [hget'] at hnext
        exact hnext

/-- A new entry extends every tree it is made in. -/
theorem extends_create (node : Node α μ β) (path : List α) (d : Dir α μ β) (n : α) :
    Extends (d.get? n) ((d.create node path).get? n) := by
  induction path generalizing d n with
  | nil => exact Extends.refl _
  | cons m path ih =>
    by_cases hn : n = m
    · subst hn
      cases path with
      | nil =>
        rw [Dir.create]
        by_cases hget : (d.get? n).isSome
        · rw [if_pos hget]
          exact Extends.refl _
        · rw [if_neg hget, Option.not_isSome_iff_eq_none.mp hget]
          exact extends_none _
      | cons k path =>
        rw [Dir.create]
        rcases hget : d.get? n with _ | (content | ⟨mode, entries⟩)
        · exact extends_none _
        · rw [hget]
          exact Extends.refl _
        · rw [Dir.get?_insert_self]
          exact extends_directory (ih entries)
    · rw [Dir.get?_create_of_ne node d path hn]
      exact Extends.refl _

/-- What a missing entry and an empty directory are: no loss. -/
def HoldsNothing (node : Option (Node α μ β)) : Prop :=
  ∀ node', node = some node' → node'.isEmptyDirectory = true

instance decidableHoldsNothing : ∀ node : Option (Node α μ β), Decidable (HoldsNothing node)
  | none => .isTrue nofun
  | some node =>
    decidable_of_iff (node.isEmptyDirectory = true)
      ⟨fun h _ heq => Option.some.inj heq ▸ h, fun h => h node rfl⟩

/-- Nothing is lost between the one tree and the other. -/
def Retains (node node' : Option (Node α μ β)) : Prop :=
  HoldsNothing node ∨ Extends node node'

theorem Retains.refl (node : Option (Node α μ β)) : Retains node node := Or.inr (Extends.refl node)

theorem Retains.extends {node₁ node₂ node₃ : Option (Node α μ β)} (h₁₂ : Retains node₁ node₂)
    (h₂₃ : Extends node₂ node₃) : Retains node₁ node₃ := h₁₂.imp_right fun h => h.trans h₂₃

/-- What an empty directory extends is empty. -/
theorem isEmptyDirectory_of_extends {node : Node α μ β} {mode : μ}
    (h : Extends (some node) (some (.directory mode .nil))) : node.isEmptyDirectory = true := by
  have hroot := h [] node.kind (Node.kindAt_nil node)
  rcases node with content | ⟨mode', entries⟩
  · exact absurd hroot (by simp [Node.kind])
  · refine isEmptyDirectory_iff.mpr ⟨mode', congrArg _ (Dir.eq_nil_of_get? fun n => ?_)⟩
    rcases hget : entries.get? n with _ | node
    · rfl
    · have hbeneath := h [n] node.kind (by simp [Node.kindAt, hget])
      exact absurd hbeneath (by simp [Node.kindAt])

/-- What has become nothing without a loss was nothing. -/
theorem Retains.holdsNothing {node₁ node₂ : Option (Node α μ β)} (h : Retains node₁ node₂)
    (hnothing : HoldsNothing node₂) : HoldsNothing node₁ := by
  rcases h with h | h
  · exact h
  · rintro node rfl
    rcases node₂ with _ | node₂
    · exact absurd (h [] node.kind (Node.kindAt_nil node)) (by simp)
    · obtain ⟨mode, rfl⟩ := isEmptyDirectory_iff.mp (hnothing node₂ rfl)
      exact isEmptyDirectory_of_extends h

theorem Retains.trans {node₁ node₂ node₃ : Option (Node α μ β)} (h₁₂ : Retains node₁ node₂)
    (h₂₃ : Retains node₂ node₃) : Retains node₁ node₃ := by
  rcases h₂₃ with hnothing | hextends
  · exact Or.inl (h₁₂.holdsNothing hnothing)
  · exact h₁₂.extends hextends

end Extension

/-! ### Collecting -/

section Collecting

variable {γ : Type} [DecidableEq α]

namespace Dir

/-- What stands at a path beneath a directory. -/
def kindAt (d : Dir α μ β) : List α → Option (Kind μ β)
  | [] => none
  | n :: path => (d.get? n).bind (·.kindAt path)

/-- What `f` makes of everything beneath a directory, each directory before its entries. -/
def collect (f : Kind μ β → List γ) : Dir α μ β → List γ
  | .nil => []
  | .leaf _ content rest => f (.leaf content) ++ rest.collect f
  | .directory _ mode entries rest => f (.directory mode) ++ entries.collect f ++ rest.collect f

/-- No directory has a name twice. -/
def Distinct : Dir α μ β → Prop
  | .nil => True
  | .leaf name _ rest => name ∉ rest.allNames ∧ rest.Distinct
  | .directory name _ entries rest => name ∉ rest.allNames ∧ entries.Distinct ∧ rest.Distinct

omit [DecidableEq α] in
theorem allNames_cons (name : α) (node : Node α μ β) (d : Dir α μ β) :
    (cons name node d).allNames = name :: d.allNames := by
  cases node <;> rfl

theorem kindAt_cons (name n : α) (node : Node α μ β) (d : Dir α μ β) (path : List α) :
    (cons name node d).kindAt (n :: path)
      = if name = n then node.kindAt path else d.kindAt (n :: path) := by
  rw [kindAt, get?_cons, kindAt]
  by_cases h : name = n
  · rw [if_pos h, if_pos h, Option.bind_some]
  · rw [if_neg h, if_neg h]

@[simp] theorem nil_kindAt (path : List α) : (.nil : Dir α μ β).kindAt path = none := by
  cases path <;> rfl

theorem kindAt_directory_cons (mode : μ) (d : Dir α μ β) (n : α) (path : List α) :
    (Node.directory mode d).kindAt (n :: path) = d.kindAt (n :: path) := by
  rw [Node.kindAt, kindAt]
  rcases d.get? n with _ | node
  · rfl
  · rfl

theorem kindAt_leaf_cons (content : β) (n : α) (path : List α) :
    (Node.leaf content : Node α μ β).kindAt (n :: path) = none := by
  rw [Node.kindAt]

/-- Beneath a leaf there is nothing. -/
theorem kindAt_append_of_leaf {d : Dir α μ β} {path : List α} {content : β}
    (h : d.kindAt path = some (.leaf content)) (n : α) (rest : List α) :
    d.kindAt (path ++ n :: rest) = none := by
  induction path generalizing d with
  | nil => exact absurd h (by simp [kindAt])
  | cons m path ih =>
    rw [List.cons_append, kindAt]
    rw [kindAt] at h
    rcases hget : d.get? m with _ | (leaf | ⟨mode, entries⟩)
    · rfl
    · rw [Option.bind_some]
      cases path <;> simp [Node.kindAt]
    · rw [hget, Option.bind_some] at h
      cases path with
      | nil => exact absurd h (by simp [Node.kind])
      | cons k path =>
        rw [kindAt_directory_cons] at h
        rw [Option.bind_some, List.cons_append, kindAt_directory_cons]
        exact ih h

/-- Only a directory has something beneath it. -/
theorem exists_directory_of_kindAt_append {d : Dir α μ β} {path rest : List α} {n : α}
    {kind : Kind μ β} (hne : path ≠ []) (h : d.kindAt (path ++ n :: rest) = some kind) :
    ∃ mode, d.kindAt path = some (.directory mode) := by
  induction path generalizing d with
  | nil => exact absurd rfl hne
  | cons m path ih =>
    rw [List.cons_append, kindAt] at h
    rw [kindAt]
    rcases hget : d.get? m with _ | (leaf | ⟨mode, entries⟩) <;> rw [hget] at h
    · exact absurd h (by simp)
    · cases path <;> exact absurd h (by simp [Node.kindAt])
    · rw [Option.bind_some] at h ⊢
      cases path with
      | nil => exact ⟨mode, by rw [Node.kindAt_nil, Node.kind]⟩
      | cons k path =>
        rw [List.cons_append, kindAt_directory_cons] at h
        rw [kindAt_directory_cons]
        exact ih (List.cons_ne_nil k path) h

/-- What stands beneath a path is what stands in the directory there. -/
theorem kindAt_append (d : Dir α μ β) (location : List α) (n : α) (rest : List α) :
    d.kindAt (location ++ n :: rest)
      = (d.enter location).bind fun entries => entries.kindAt (n :: rest) := by
  induction location generalizing d with
  | nil => rfl
  | cons m location ih =>
    rw [List.cons_append, kindAt, enter]
    rcases d.get? m with _ | (content | ⟨mode, entries⟩)
    · rfl
    · cases location <;> rfl
    · rw [Option.bind_some]
      show _ = (entries.enter location).bind _
      rw [← ih entries]
      cases location <;> exact kindAt_directory_cons mode entries _ _

/-- Beneath what is not there, there is nothing. -/
theorem kindAt_append_of_none {d : Dir α μ β} {path : List α} (hne : path ≠ [])
    (h : d.kindAt path = none) (rest : List α) : d.kindAt (path ++ rest) = none := by
  cases rest with
  | nil => rw [List.append_nil, h]
  | cons n rest =>
    by_contra hsome
    obtain ⟨kind, hkind⟩ := Option.ne_none_iff_exists'.mp hsome
    obtain ⟨mode, hmode⟩ := exists_directory_of_kindAt_append hne hkind
    rw [h] at hmode
    exact absurd hmode (by simp)

/-- The removal of an entry takes away what is at its path and beneath it, and nothing else. -/
theorem kindAt_modify_erase (d : Dir α μ β) (location : List α) (n : α) (path : List α) :
    (d.modify (·.erase n) location).kindAt path
      = if location ++ [n] <+: path then none else d.kindAt path := by
  induction location generalizing d path with
  | nil =>
    rcases path with _ | ⟨m, path⟩
    · simp [kindAt]
    · show ((d.erase n).get? m).bind _ = _
      rw [get?_erase]
      by_cases hm : n = m
      · subst hm
        simp
      · simp [hm, kindAt]
  | cons k location ih =>
    rcases path with _ | ⟨m, path⟩
    · simp [kindAt]
    · by_cases hm : k = m
      · subst hm
        simp only [List.cons_append, List.cons_prefix_cons, true_and]
        rcases hget : d.get? k with _ | (content | ⟨mode, entries⟩)
        · simp [modify, hget, kindAt]
        · -- There is no directory to change, and nothing beneath a leaf.
          simp only [modify, hget, kindAt, Option.bind_some]
          cases path with
          | nil => simp
          | cons m path => simp [kindAt_leaf_cons]
        · simp only [modify, hget, kindAt, get?_insert_self, Option.bind_some]
          cases path with
          | nil => simp [Node.kind]
          | cons m path =>
            rw [kindAt_directory_cons, kindAt_directory_cons]
            exact ih entries (m :: path)
      · rw [if_neg]
        · rw [kindAt, kindAt, get?_modify_of_ne _ _ _ (Ne.symm hm)]
        · intro hinitial
          exact hm (List.cons_prefix_cons.mp hinitial).1

/-- A directory can be entered. -/
theorem exists_enter {d : Dir α μ β} {location : List α} {mode : μ}
    (h : d.kindAt location = some (.directory mode)) :
    ∃ entries, d.enter location = some entries := by
  induction location generalizing d with
  | nil => exact absurd h (by simp [kindAt])
  | cons n location ih =>
    obtain ⟨node, hget, hnode⟩ := Option.bind_eq_some_iff.mp h
    rw [enter, hget]
    rcases node with content | ⟨mode', entries⟩
    · cases location with
      | nil => exact absurd hnode (by simp [Node.kind])
      | cons m location => exact absurd hnode (by simp [kindAt_leaf_cons])
    · cases location with
      | nil => exact ⟨entries, rfl⟩
      | cons m location =>
        rw [kindAt_directory_cons] at hnode
        exact ih hnode

theorem get?_kind {d entries : Dir α μ β} {location : List α}
    (henter : d.enter location = some entries) (n : α) :
    (entries.get? n).map (·.kind) = d.kindAt (location ++ [n]) := by
  rw [kindAt_append, henter, Option.bind_some, kindAt]
  rcases entries.get? n with _ | node
  · rfl
  · exact (Node.kindAt_nil node).symm

/-- An entry is put in place of one with the same beneath it: nothing else changes. -/
theorem kindAt_modify_insert {d entries : Dir α μ β} {location : List α}
    (henter : d.enter location = some entries) {n : α} {node : Node α μ β}
    (hsame : ∀ m rest, (entries.get? n).bind (·.kindAt (m :: rest)) = node.kindAt (m :: rest)) :
    (d.modify (fun _ => entries.insert n node) location).kindAt
      = Function.update d.kindAt (location ++ [n]) (some node.kind) := by
  funext path
  induction location generalizing d path with
  | nil =>
    obtain rfl := Option.some.inj henter
    rcases path with _ | ⟨m, path⟩
    · rw [Function.update_of_ne (by simp)]
      rfl
    · show ((d.insert n node).get? m).bind _ = _
      rw [get?_insert]
      by_cases hm : n = m
      · subst hm
        rw [if_pos rfl, Option.bind_some]
        cases path with
        | nil => rw [List.nil_append, Function.update_self, Node.kindAt_nil]
        | cons k path =>
          rw [Function.update_of_ne (by simp), ← hsame]
          rfl
      · rw [if_neg hm, Function.update_of_ne (by simpa using fun h => absurd h.symm hm)]
        rfl
  | cons k location ih =>
    rw [enter] at henter
    rcases hget : d.get? k with _ | (content | ⟨mode, beneath⟩)
    · rw [hget] at henter
      exact absurd henter (by simp)
    · rw [hget] at henter
      exact absurd henter (by simp)
    · rw [hget] at henter
      rw [modify, hget]
      rcases path with _ | ⟨m, path⟩
      · rw [Function.update_of_ne (by simp)]
        rfl
      · show ((d.insert k _).get? m).bind _ = _
        rw [get?_insert]
        by_cases hm : k = m
        · subst hm
          have hold : d.kindAt (k :: path) = (Node.directory mode beneath).kindAt path := by
            rw [kindAt, hget, Option.bind_some]
          rw [if_pos rfl, Option.bind_some]
          cases path with
          | nil =>
            rw [Function.update_of_ne (by simp), hold]
            rfl
          | cons m path =>
            rw [kindAt_directory_cons, ih henter (m :: path)]
            by_cases hpath : m :: path = location ++ [n]
            · rw [hpath, Function.update_self, List.cons_append, Function.update_self]
            · rw [Function.update_of_ne hpath, Function.update_of_ne (by simpa using hpath), hold,
                kindAt_directory_cons]
        · rw [if_neg hm, Function.update_of_ne (by
            intro h
            exact hm (List.cons.inj h).1.symm)]
          rfl

theorem mem_allNames_iff {d : Dir α μ β} {n : α} : n ∈ d.allNames ↔ (d.get? n).isSome := by
  rw [← mem_names, names, List.mem_dedup]

theorem mem_allNames_of_kindAt {d : Dir α μ β} {n : α} {path : List α} {kind : Kind μ β}
    (h : d.kindAt (n :: path) = some kind) : n ∈ d.allNames := by
  obtain ⟨node, hget, -⟩ := Option.bind_eq_some_iff.mp h
  rw [mem_allNames_iff, hget]
  rfl

theorem kindAt_singleton_isSome {d : Dir α μ β} {n : α} :
    (d.kindAt [n]).isSome ↔ n ∈ d.allNames := by
  rw [mem_allNames_iff, kindAt]
  rcases d.get? n with _ | node <;> simp

theorem ne_nil_of_kindAt {d : Dir α μ β} {path : List α} {kind : Kind μ β}
    (h : d.kindAt path = some kind) : path ≠ [] := by
  rintro rfl
  exact absurd h (by simp [kindAt])

/-- A new name hides nothing. -/
theorem kindAt_cons_of_rest {name : α} {node : Node α μ β} {rest : Dir α μ β} {path : List α}
    {kind : Kind μ β} (hname : name ∉ rest.allNames) (h : rest.kindAt path = some kind) :
    (cons name node rest).kindAt path = some kind ∧ path.head? ≠ some name := by
  cases path with
  | nil => exact absurd rfl (ne_nil_of_kindAt h)
  | cons n path =>
    have hn : name ≠ n := by
      rintro rfl
      exact hname (mem_allNames_of_kindAt h)
    rw [kindAt_cons, if_neg hn]
    exact ⟨h, fun heq => hn (Option.some.inj heq).symm⟩

theorem kindAt_cons_self (name : α) (node : Node α μ β) (rest : Dir α μ β) :
    (cons name node rest).kindAt [name] = some node.kind := by
  rw [kindAt_cons, if_pos rfl, Node.kindAt_nil]

theorem kindAt_cons_of_entries {name : α} {mode : μ} {entries rest : Dir α μ β} {path : List α}
    {kind : Kind μ β} (h : entries.kindAt path = some kind) :
    (cons name (.directory mode entries) rest).kindAt (name :: path) = some kind := by
  cases path with
  | nil => exact absurd rfl (ne_nil_of_kindAt h)
  | cons n path => rw [kindAt_cons, if_pos rfl, kindAt_directory_cons, h]

/-- The one entries, and behind them the others. -/
def append : Dir α μ β → Dir α μ β → Dir α μ β
  | .nil, d => d
  | .leaf name content rest, d => .leaf name content (rest.append d)
  | .directory name mode entries rest, d => .directory name mode entries (rest.append d)

/-- The paths beneath a directory, seen from `location`, at which something of a kind stands. -/
def pathsOf (p : Kind μ β → Bool) (location : List α) : Dir α μ β → List (List α)
  | .nil => []
  | .leaf name content rest =>
    (if p (.leaf content) then [location ++ [name]] else []) ++ rest.pathsOf p location
  | .directory name mode entries rest =>
    (if p (.directory mode) then [location ++ [name]] else [])
      ++ entries.pathsOf p (location ++ [name]) ++ rest.pathsOf p location

/-- An entry with a new name comes last. -/
theorem insert_eq_append {d : Dir α μ β} {n : α} (node : Node α μ β) (h : d.get? n = none) :
    d.insert n node = d.append (cons n node .nil) := by
  induction d with
  | nil => rfl
  | leaf m content rest ih =>
    rw [get?] at h
    by_cases hm : m = n
    · rw [if_pos hm] at h
      exact absurd h (by simp)
    · rw [if_neg hm] at h
      rw [insert, if_neg hm, append, ih h]
  | directory m mode entries rest _ ih =>
    rw [get?] at h
    by_cases hm : m = n
    · rw [if_pos hm] at h
      exact absurd h (by simp)
    · rw [if_neg hm] at h
      rw [insert, if_neg hm, append, ih h]

omit [DecidableEq α] in
theorem append_cons (d rest : Dir α μ β) (n : α) (node : Node α μ β) :
    (d.append (cons n node .nil)).append rest = d.append (cons n node rest) := by
  induction d with
  | nil => cases node <;> rfl
  | leaf m content tail ih => rw [append, append, ih, append]
  | directory m mode entries tail _ ih => rw [append, append, ih, append]

omit [DecidableEq α] in
theorem append_nil (d : Dir α μ β) : d.append .nil = d := by
  induction d with
  | nil => rfl
  | leaf m content rest ih => rw [append, ih]
  | directory m mode entries rest _ ih => rw [append, ih]

omit [DecidableEq α] in
theorem exists_of_mem_pathsOf {p : Kind μ β → Bool} {location : List α} {d : Dir α μ β}
    {path : List α}
    (h : path ∈ d.pathsOf p location) : ∃ n ∈ d.allNames, ∃ rest, path = location ++ n :: rest := by
  have hhere : ∀ (b : Bool) (location : List α) (name : α),
      path ∈ (if b then [location ++ [name]] else []) → path = location ++ [name] := by
    intro b location name hmem
    cases b with
    | true => exact List.mem_singleton.mp hmem
    | false => exact absurd hmem List.not_mem_nil
  induction d generalizing location with
  | nil => exact absurd h List.not_mem_nil
  | leaf name content rest ih =>
    rw [pathsOf] at h
    rcases List.mem_append.mp h with hself | hrest
    · exact ⟨name, List.mem_cons_self, [], hhere _ _ _ hself⟩
    · obtain ⟨n, hn, more, hpath⟩ := ih hrest
      exact ⟨n, List.mem_cons_of_mem _ hn, more, hpath⟩
  | directory name mode entries rest ihentries ih =>
    rw [pathsOf] at h
    rcases List.mem_append.mp h with hfirst | hrest
    · rcases List.mem_append.mp hfirst with hself | hbeneath
      · exact ⟨name, List.mem_cons_self, [], hhere _ _ _ hself⟩
      · obtain ⟨n, -, more, hpath⟩ := ihentries hbeneath
        refine ⟨name, List.mem_cons_self, n :: more, ?_⟩
        rw [hpath, List.append_assoc]
        rfl
    · obtain ⟨n, hn, more, hpath⟩ := ih hrest
      exact ⟨n, List.mem_cons_of_mem _ hn, more, hpath⟩

omit [DecidableEq α] in
theorem pathsOf_cons (p : Kind μ β → Bool) (location : List α) (n : α) (node : Node α μ β)
    (rest : Dir α μ β) :
    (cons n node rest).pathsOf p location
      = (cons n node .nil).pathsOf p location ++ rest.pathsOf p location := by
  cases node <;> simp [cons, pathsOf]

omit [DecidableEq α] in
/-- The paths of one entry are not those of another. -/
theorem disjoint_pathsOf {p q : Kind μ β → Bool} {location : List α} {n : α} {node : Node α μ β}
    {rest : Dir α μ β} (hn : n ∉ rest.allNames) {path : List α}
    (h : path ∈ (cons n node .nil).pathsOf p location) : path ∉ rest.pathsOf q location := by
  intro hrest
  obtain ⟨m, hm, more, rfl⟩ := exists_of_mem_pathsOf h
  obtain ⟨m', hm', more', heq⟩ := exists_of_mem_pathsOf hrest
  rw [allNames_cons] at hm
  obtain rfl := List.mem_singleton.mp hm
  obtain ⟨rfl, -⟩ := List.cons.inj (List.append_cancel_left heq)
  exact hn hm'

/-- Each item comes from what stands at some path. -/
theorem mem_collect_iff {f : Kind μ β → List γ} {d : Dir α μ β} (h : d.Distinct) {x : γ} :
    x ∈ d.collect f ↔ ∃ path kind, d.kindAt path = some kind ∧ x ∈ f kind := by
  induction d with
  | nil =>
    constructor
    · intro hx
      exact absurd hx List.not_mem_nil
    · rintro ⟨_ | ⟨n, path⟩, kind, hkind, -⟩ <;> exact absurd hkind (by simp [kindAt])
  | leaf name content rest ih =>
    obtain ⟨hname, hrest⟩ := h
    rw [collect, List.mem_append, ih hrest]
    show _ ↔ ∃ path kind, (cons name (.leaf content) rest).kindAt path = some kind ∧ x ∈ f kind
    constructor
    · rintro (hx | ⟨path, kind, hkind, hx⟩)
      · exact ⟨[name], _, kindAt_cons_self name _ rest, hx⟩
      · exact ⟨path, kind, (kindAt_cons_of_rest hname hkind).1, hx⟩
    · rintro ⟨_ | ⟨n, path⟩, kind, hkind, hx⟩
      · exact absurd rfl (ne_nil_of_kindAt hkind)
      · rw [kindAt_cons] at hkind
        by_cases hn : name = n
        · rw [if_pos hn] at hkind
          cases path with
          | nil =>
            obtain rfl := Option.some.inj hkind
            exact Or.inl hx
          | cons m path => exact absurd hkind (by simp [Node.kindAt])
        · rw [if_neg hn] at hkind
          exact Or.inr ⟨n :: path, kind, hkind, hx⟩
  | directory name mode entries rest ih ih' =>
    obtain ⟨hname, hentries, hrest⟩ := h
    rw [collect, List.mem_append, List.mem_append, ih hentries, ih' hrest]
    show _ ↔ ∃ path kind, (cons name (.directory mode entries) rest).kindAt path = some kind
      ∧ x ∈ f kind
    constructor
    · rintro ((hx | ⟨path, kind, hkind, hx⟩) | ⟨path, kind, hkind, hx⟩)
      · exact ⟨[name], _, kindAt_cons_self name _ rest, hx⟩
      · exact ⟨name :: path, kind, kindAt_cons_of_entries hkind, hx⟩
      · exact ⟨path, kind, (kindAt_cons_of_rest hname hkind).1, hx⟩
    · rintro ⟨_ | ⟨n, path⟩, kind, hkind, hx⟩
      · exact absurd rfl (ne_nil_of_kindAt hkind)
      · rw [kindAt_cons] at hkind
        by_cases hn : name = n
        · rw [if_pos hn] at hkind
          cases path with
          | nil =>
            obtain rfl := Option.some.inj hkind
            exact Or.inl (Or.inl hx)
          | cons m path =>
            rw [kindAt_directory_cons] at hkind
            exact Or.inl (Or.inr ⟨m :: path, kind, hkind, hx⟩)
        · rw [if_neg hn] at hkind
          exact Or.inr ⟨n :: path, kind, hkind, hx⟩

/-- What holds between items of different paths, and between the items of one, holds between all. -/
theorem pairwise_collect {f : Kind μ β → List γ} {R : γ → γ → Prop} {d : Dir α μ β}
    (h : d.Distinct) (hself : ∀ path kind, d.kindAt path = some kind → (f kind).Pairwise R)
    (hapart : ∀ path path' kind kind', path ≠ path' → d.kindAt path = some kind →
      d.kindAt path' = some kind' → ∀ x ∈ f kind, ∀ y ∈ f kind', R x y) :
    (d.collect f).Pairwise R := by
  induction d with
  | nil => exact List.Pairwise.nil
  | leaf name content rest ih =>
    obtain ⟨hname, hrest⟩ := h
    have hlift : ∀ {path kind}, rest.kindAt path = some kind →
        (cons name (.leaf content) rest).kindAt path = some kind ∧ path.head? ≠ some name :=
      fun hkind => kindAt_cons_of_rest hname hkind
    have hhere := kindAt_cons_self name (.leaf content) rest
    refine List.pairwise_append.mpr ⟨hself _ _ hhere, ih hrest ?_ ?_, ?_⟩
    · exact fun path kind hkind => hself path kind (hlift hkind).1
    · exact fun path path' kind kind' hne hkind hkind' =>
        hapart path path' kind kind' hne (hlift hkind).1 (hlift hkind').1
    · intro x hx y hy
      obtain ⟨path, kind, hkind, hy⟩ := (mem_collect_iff hrest).mp hy
      refine hapart [name] path _ kind ?_ hhere (hlift hkind).1 x hx y hy
      rintro rfl
      exact (hlift hkind).2 rfl
  | directory name mode entries rest ih ih' =>
    obtain ⟨hname, hentries, hrest⟩ := h
    have hlift : ∀ {path kind}, rest.kindAt path = some kind →
        (cons name (.directory mode entries) rest).kindAt path = some kind
          ∧ path.head? ≠ some name := fun hkind => kindAt_cons_of_rest hname hkind
    have hhere := kindAt_cons_self name (.directory mode entries) rest
    have hbeneath : ∀ {path kind}, entries.kindAt path = some kind →
        (cons name (.directory mode entries) rest).kindAt (name :: path) = some kind :=
      fun hkind => kindAt_cons_of_entries hkind
    refine List.pairwise_append.mpr
      ⟨List.pairwise_append.mpr ⟨hself _ _ hhere, ih hentries ?_ ?_, ?_⟩, ih' hrest ?_ ?_, ?_⟩
    · exact fun path kind hkind => hself _ kind (hbeneath hkind)
    · exact fun path path' kind kind' hne hkind hkind' =>
        hapart _ _ kind kind' (fun heq => hne (List.cons.inj heq).2) (hbeneath hkind)
          (hbeneath hkind')
    · intro x hx y hy
      obtain ⟨path, kind, hkind, hy⟩ := (mem_collect_iff hentries).mp hy
      refine hapart [name] (name :: path) _ kind ?_ hhere (hbeneath hkind) x hx y hy
      intro heq
      exact ne_nil_of_kindAt hkind (List.cons.inj heq).2.symm
    · exact fun path kind hkind => hself path kind (hlift hkind).1
    · exact fun path path' kind kind' hne hkind hkind' =>
        hapart path path' kind kind' hne (hlift hkind).1 (hlift hkind').1
    · intro x hx y hy
      obtain ⟨path', kind', hkind', hy⟩ := (mem_collect_iff hrest).mp hy
      have hother := hlift hkind'
      rcases List.mem_append.mp hx with hx | hx
      · refine hapart [name] path' _ kind' ?_ hhere hother.1 x hx y hy
        rintro rfl
        exact hother.2 rfl
      · obtain ⟨path, kind, hkind, hx⟩ := (mem_collect_iff hentries).mp hx
        refine hapart (name :: path) path' kind kind' ?_ (hbeneath hkind) hother.1 x hx y hy
        rintro rfl
        exact hother.2 rfl

end Dir

end Collecting

end FileTree
