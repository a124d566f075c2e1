/-
Maps and sets that are iterated in the order of their keys.

A `SortedMap` is the list of its entries, strictly ascending by key; a set is a map without
values.  What a map holds decides what it is.

* `SortedMap.mem_insert` — an insertion replaces the entry of its key and no other;
* `SortedSet.mem_ofList`, `SortedSet.toList_eq` — a set has the members of any list it was made
  from, and its list depends on nothing else.
-/
import Mathlib.Data.List.Sort
import Mathlib.Data.List.Lex

/-- The entries of a map with the entry of `k` put in its place. -/
def insertEntry {κ ν : Type} [LinearOrder κ] (k : κ) (v : ν) : List (κ × ν) → List (κ × ν)
  | [] => [(k, v)]
  | e :: rest =>
    if k < e.1 then (k, v) :: e :: rest
    else if k = e.1 then (k, v) :: rest
    else e :: insertEntry k v rest

/-- A map with strictly ascending keys. -/
@[ext] structure SortedMap (κ ν : Type) [LinearOrder κ] where
  entries : List (κ × ν)
  sorted : entries.Pairwise fun e e' => e.1 < e'.1

/-- A set with strictly ascending members. -/
abbrev SortedSet (κ : Type) [LinearOrder κ] := SortedMap κ Unit

variable {κ ν : Type} [LinearOrder κ]

theorem mem_insertEntry {k : κ} {v : ν} {entries : List (κ × ν)}
    (hsorted : entries.Pairwise fun e e' => e.1 < e'.1) {e : κ × ν} :
    e ∈ insertEntry k v entries ↔ e = (k, v) ∨ (e ∈ entries ∧ e.1 ≠ k) := by
  induction entries with
  | nil => simp [insertEntry]
  | cons first rest ih =>
    obtain ⟨hfirst, hrest⟩ := List.pairwise_cons.mp hsorted
    rw [insertEntry]
    by_cases hless : k < first.1
    · -- every entry comes behind the new one
      rw [if_pos hless, List.mem_cons]
      refine or_congr_right ⟨fun hmem => ⟨hmem, ?_⟩, fun h => h.1⟩
      rcases List.mem_cons.mp hmem with rfl | hmem
      · exact hless.ne'
      · exact (hless.trans (hfirst e hmem)).ne'
    · rw [if_neg hless]
      by_cases heq : k = first.1
      · -- the first entry is replaced
        rw [if_pos heq, List.mem_cons, List.mem_cons]
        refine or_congr_right ⟨fun hmem => ⟨Or.inr hmem, ?_⟩, ?_⟩
        · rw [heq]
          exact (hfirst e hmem).ne'
        · rintro ⟨rfl | hmem, hne⟩
          · exact absurd heq.symm hne
          · exact hmem
      · rw [if_neg heq, List.mem_cons, List.mem_cons, ih hrest]
        constructor
        · rintro (rfl | rfl | ⟨hmem, hne⟩)
          · exact Or.inr ⟨Or.inl rfl, fun h => heq h.symm⟩
          · exact Or.inl rfl
          · exact Or.inr ⟨Or.inr hmem, hne⟩
        · rintro (rfl | ⟨rfl | hmem, hne⟩)
          · exact Or.inr (Or.inl rfl)
          · exact Or.inl rfl
          · exact Or.inr (Or.inr ⟨hmem, hne⟩)

theorem insertEntry_sorted {k : κ} {v : ν} {entries : List (κ × ν)}
    (hsorted : entries.Pairwise fun e e' => e.1 < e'.1) :
    (insertEntry k v entries).Pairwise fun e e' => e.1 < e'.1 := by
  induction entries with
  | nil => exact List.pairwise_singleton _ _
  | cons first rest ih =>
    obtain ⟨hfirst, hrest⟩ := List.pairwise_cons.mp hsorted
    rw [insertEntry]
    by_cases hless : k < first.1
    · rw [if_pos hless, List.pairwise_cons]
      refine ⟨?_, hsorted⟩
      intro e hmem
      rcases List.mem_cons.mp hmem with rfl | hmem
      · exact hless
      · exact hless.trans (hfirst e hmem)
    · rw [if_neg hless]
      by_cases heq : k = first.1
      · rw [if_pos heq, List.pairwise_cons]
        exact ⟨fun e hmem => heq ▸ hfirst e hmem, hrest⟩
      · rw [if_neg heq, List.pairwise_cons]
        refine ⟨?_, ih hrest⟩
        intro e hmem
        rcases (mem_insertEntry hrest).mp hmem with rfl | ⟨hmem, -⟩
        · exact lt_of_le_of_ne (not_lt.mp hless) (Ne.symm heq)
        · exact hfirst e hmem

theorem length_insertEntry_le (k : κ) (v : ν) (entries : List (κ × ν)) :
    (insertEntry k v entries).length ≤ entries.length + 1 := by
  induction entries with
  | nil => exact Nat.le_refl _
  | cons first rest ih =>
    rw [insertEntry]
    by_cases hless : k < first.1
    · rw [if_pos hless]
      exact Nat.le_refl _
    · rw [if_neg hless]
      by_cases heq : k = first.1
      · rw [if_pos heq]
        exact Nat.le_succ _
      · rw [if_neg heq]
        exact Nat.succ_le_succ ih

namespace SortedMap

def empty : SortedMap κ ν := ⟨[], List.Pairwise.nil⟩

/-- `BTreeMap::insert`. -/
def insert (m : SortedMap κ ν) (k : κ) (v : ν) : SortedMap κ ν :=
  ⟨insertEntry k v m.entries, insertEntry_sorted m.sorted⟩

/-- `BTreeMap::get`. -/
def get? (m : SortedMap κ ν) (k : κ) : Option ν :=
  (m.entries.find? fun e => decide (e.1 = k)).map Prod.snd

def keys (m : SortedMap κ ν) : List κ := m.entries.map Prod.fst

/-- `BTreeMap::remove`. -/
def erase (m : SortedMap κ ν) (k : κ) : SortedMap κ ν :=
  ⟨m.entries.filter fun e => e.1 ≠ k, m.sorted.filter _⟩

@[simp] theorem entries_empty : (empty : SortedMap κ ν).entries = [] := rfl

theorem mem_insert {m : SortedMap κ ν} {k : κ} {v : ν} {e : κ × ν} :
    e ∈ (m.insert k v).entries ↔ e = (k, v) ∨ (e ∈ m.entries ∧ e.1 ≠ k) :=
  mem_insertEntry m.sorted

/-- An insertion makes a map at most one entry longer. -/
theorem length_insert_le (m : SortedMap κ ν) (k : κ) (v : ν) :
    (m.insert k v).entries.length ≤ m.entries.length + 1 := length_insertEntry_le k v m.entries

theorem keys_pairwise (m : SortedMap κ ν) : m.keys.Pairwise (· < ·) :=
    List.pairwise_map.mpr m.sorted

/-- `BTreeMap::pop_last`. -/
def popLast (m : SortedMap κ ν) : SortedMap κ ν :=
  ⟨m.entries.dropLast, m.sorted.sublist (List.dropLast_sublist _)⟩

/-- An insertion after which the last entry is removed if there are more than `n`. -/
def insertWithin (n : Nat) (m : SortedMap κ ν) (k : κ) (v : ν) : SortedMap κ ν :=
  let m := m.insert k v
  if n < m.entries.length then m.popLast else m

/-- An insertion among the first entries finds the place it has among all. -/
theorem take_insertEntry (n : Nat) (k : κ) (v : ν) (entries : List (κ × ν)) :
    (insertEntry k v (entries.take n)).take n = (insertEntry k v entries).take n := by
  induction entries generalizing n with
  | nil => rw [List.take_nil]
  | cons first rest ih =>
    rcases n with _ | n
    · rfl
    · rw [List.take_succ_cons, insertEntry, insertEntry]
      by_cases hless : k < first.1
      · have hfront : first :: rest.take n = (first :: rest).take (n + 1) := rfl
        rw [if_pos hless, if_pos hless, List.take_succ_cons, List.take_succ_cons, hfront,
          List.take_take, min_eq_left (Nat.le_succ n)]
      · rw [if_neg hless, if_neg hless]
        by_cases heq : k = first.1
        · rw [if_pos heq, if_pos heq, List.take_succ_cons, List.take_succ_cons, List.take_take,
            min_self]
        · rw [if_neg heq, if_neg heq, List.take_succ_cons, List.take_succ_cons, ih]

/-- Of the entries that are inserted, the map keeps the first `n`. -/
theorem entries_insertWithin {n : Nat} {m all : SortedMap κ ν}
    (h : m.entries = all.entries.take n) (k : κ) (v : ν) :
    (m.insertWithin n k v).entries = (all.insert k v).entries.take n := by
  have hlength := m.length_insert_le k v
  have hold : m.entries.length ≤ n := by
    rw [h]
    exact List.length_take_le _ _
  have htake : (m.insert k v).entries.take n = (all.insert k v).entries.take n := by
    show (insertEntry k v m.entries).take n = _
    rw [h]
    exact take_insertEntry n k v all.entries
  rw [← htake, insertWithin]
  by_cases hlong : n < (m.insert k v).entries.length
  · rw [if_pos hlong]
    show (m.insert k v).entries.dropLast = _
    rw [List.dropLast_eq_take]
    congr 1
    omega
  · rw [if_neg hlong, List.take_of_length_le (by omega)]

theorem entries_foldl_insertWithin (n : Nat) (entries : List (κ × ν)) {m all : SortedMap κ ν}
    (h : m.entries = all.entries.take n) :
    (entries.foldl (fun m e => m.insertWithin n e.1 e.2) m).entries
      = (entries.foldl (fun m e => m.insert e.1 e.2) all).entries.take n := by
  induction entries generalizing m all with
  | nil => exact h
  | cons e rest ih => exact ih (entries_insertWithin h e.1 e.2)

/-- A map made by insertions under distinct keys has the entries that were inserted. -/
theorem mem_foldl_insert {entries : List (κ × ν)} (hnodup : (entries.map Prod.fst).Nodup)
    {m : SortedMap κ ν} (hnew : ∀ e ∈ entries, ∀ e' ∈ m.entries, e'.1 ≠ e.1) {e : κ × ν} :
    e ∈ (entries.foldl (fun m e => m.insert e.1 e.2) m).entries ↔ e ∈ m.entries ∨ e ∈ entries := by
  induction entries generalizing m with
  | nil => simp
  | cons first rest ih =>
    obtain ⟨hfirst, hrest⟩ := List.nodup_cons.mp hnodup
    have hinserted : ∀ e', e' ∈ (m.insert first.1 first.2).entries
        ↔ e' = first ∨ e' ∈ m.entries := by
      intro e'
      rw [mem_insert]
      exact or_congr_right ⟨And.left, fun he' => ⟨he', hnew first List.mem_cons_self e' he'⟩⟩
    rw [List.foldl_cons, ih hrest, hinserted, List.mem_cons]
    · tauto
    · intro e hmem e' he'
      rcases (hinserted e').mp he' with rfl | he'
      · exact fun heq => hfirst (heq ▸ List.mem_map_of_mem hmem)
      · exact hnew e (List.mem_cons_of_mem _ hmem) e' he'

/-- A key has one value. -/
theorem get?_eq_some_iff {m : SortedMap κ ν} {k : κ} {v : ν} :
    m.get? k = some v ↔ (k, v) ∈ m.entries := by
  rw [get?, Option.map_eq_some_iff]
  constructor
  · rintro ⟨e, hfind, rfl⟩
    have hkey : e.1 = k := by simpa using List.find?_some hfind
    rw [← hkey]
    exact List.mem_of_find?_eq_some hfind
  · intro hmem
    have hfound : (m.entries.find? fun e => decide (e.1 = k)).isSome := by
      rw [List.find?_isSome]
      exact ⟨_, hmem, by simp⟩
    obtain ⟨e, he⟩ := Option.isSome_iff_exists.mp hfound
    have hkey : e.1 = k := by simpa using List.find?_some he
    refine ⟨e, he, ?_⟩
    have hnodup : (m.entries.map Prod.fst).Nodup := m.keys_pairwise.imp ne_of_lt
    have hsame : e = (k, v) :=
      List.inj_on_of_nodup_map hnodup (List.mem_of_find?_eq_some he) hmem hkey
    rw [hsame]

theorem get?_insert_self (m : SortedMap κ ν) (k : κ) (v : ν) : (m.insert k v).get? k = some v :=
  get?_eq_some_iff.mpr (mem_insert.mpr (Or.inl rfl))

theorem get?_insert_of_ne (m : SortedMap κ ν) {k k' : κ} (v : ν) (h : k' ≠ k) :
    (m.insert k v).get? k' = m.get? k' := by
  refine Option.ext fun v' => ?_
  rw [get?_eq_some_iff, get?_eq_some_iff, mem_insert]
  constructor
  · rintro (heq | ⟨hmem, -⟩)
    · exact absurd (congrArg Prod.fst heq) h
    · exact hmem
  · intro hmem
    exact Or.inr ⟨hmem, h⟩

theorem get?_erase_of_ne (m : SortedMap κ ν) {k k' : κ} (h : k' ≠ k) :
    (m.erase k).get? k' = m.get? k' := by
  refine Option.ext fun v => ?_
  rw [get?_eq_some_iff, get?_eq_some_iff]
  show _ ∈ m.entries.filter _ ↔ _
  rw [List.mem_filter]
  exact ⟨fun hmem => hmem.1, fun hmem => ⟨hmem, decide_eq_true h⟩⟩

theorem get?_eq_none_iff {m : SortedMap κ ν} {k : κ} : m.get? k = none ↔ k ∉ m.keys := by
  rw [Option.eq_none_iff_forall_ne_some]
  simp only [ne_eq, get?_eq_some_iff, keys, List.mem_map, not_exists, not_and]
  constructor
  · rintro h ⟨k', v⟩ hmem rfl
    exact h v hmem
  · intro h v hmem
    exact h _ hmem rfl

theorem mem_keys_insert {m : SortedMap κ ν} {k k' : κ} {v : ν} :
    k' ∈ (m.insert k v).keys ↔ k' = k ∨ k' ∈ m.keys := by
  by_cases h : k' = k
  · subst h
    have hmem : k' ∈ (m.insert k' v).keys := by
      by_contra hnone
      rw [← get?_eq_none_iff, get?_insert_self] at hnone
      exact absurd hnone (by simp)
    exact ⟨fun _ => Or.inl rfl, fun _ => hmem⟩
  · have hsame : k' ∉ (m.insert k v).keys ↔ k' ∉ m.keys := by
      rw [← get?_eq_none_iff, ← get?_eq_none_iff, get?_insert_of_ne m v h]
    rw [← not_iff_not, hsame]
    simp [h]

theorem keys_nodup (m : SortedMap κ ν) : m.keys.Nodup := m.keys_pairwise.imp ne_of_lt

/-- A new entry is added to those there are. -/
theorem entries_insert_perm {m : SortedMap κ ν} {k : κ} {v : ν} (h : k ∉ m.keys) :
    (m.insert k v).entries.Perm ((k, v) :: m.entries) := by
  have hnodup : ((k, v) :: m.entries).Nodup := by
    refine List.nodup_cons.mpr ⟨fun hmem => h (List.mem_map_of_mem hmem), ?_⟩
    exact m.sorted.imp fun hlt heq => absurd (congrArg Prod.fst heq) hlt.ne
  have hinserted : (m.insert k v).entries.Nodup :=
    (m.insert k v).sorted.imp fun hlt heq => absurd (congrArg Prod.fst heq) hlt.ne
  refine (List.perm_ext_iff_of_nodup hinserted hnodup).mpr fun e => ?_
  rw [mem_insert, List.mem_cons]
  refine or_congr_right ⟨And.left, fun hmem => ⟨hmem, ?_⟩⟩
  rintro rfl
  exact h (List.mem_map_of_mem hmem)

/-- An entry that is taken out was one of those there are. -/
theorem entries_erase_perm {m : SortedMap κ ν} {k : κ} {v : ν} (h : m.get? k = some v) :
    m.entries.Perm ((k, v) :: (m.erase k).entries) := by
  have hmem := get?_eq_some_iff.mp h
  have hentries : m.entries.Nodup := m.sorted.imp fun hlt heq =>
    absurd (congrArg Prod.fst heq) hlt.ne
  have hnodup : ((k, v) :: (m.erase k).entries).Nodup := by
    refine List.nodup_cons.mpr ⟨fun hin => ?_, hentries.filter _⟩
    simpa using (List.mem_filter.mp hin).2
  refine (List.perm_ext_iff_of_nodup hentries hnodup).mpr fun e => ?_
  rw [List.mem_cons]
  show _ ↔ _ ∨ e ∈ m.entries.filter _
  rw [List.mem_filter]
  constructor
  · intro he
    by_cases hkey : e.1 = k
    · exact Or.inl (List.inj_on_of_nodup_map m.keys_nodup he hmem hkey)
    · exact Or.inr ⟨he, by simpa using hkey⟩
  · rintro (rfl | ⟨he, -⟩)
    · exact hmem
    · exact he

/-- A map made by insertions under distinct keys has the values that were inserted. -/
theorem get?_foldl_insert {entries : List (κ × ν)} (hnodup : (entries.map Prod.fst).Nodup)
    (m : SortedMap κ ν) {k : κ} {v : ν} (h : (k, v) ∈ entries) :
    (entries.foldl (fun m e => m.insert e.1 e.2) m).get? k = some v := by
  have hother : ∀ (entries : List (κ × ν)) (m : SortedMap κ ν), k ∉ entries.map Prod.fst →
      (entries.foldl (fun m e => m.insert e.1 e.2) m).get? k = m.get? k := by
    intro entries
    induction entries with
    | nil => exact fun _ _ => rfl
    | cons e rest ih =>
      intro m hk
      rw [List.map_cons, List.mem_cons, not_or] at hk
      rw [List.foldl_cons, ih _ hk.2, get?_insert_of_ne m e.2 hk.1]
  induction entries generalizing m with
  | nil => exact absurd h List.not_mem_nil
  | cons e rest ih =>
    obtain ⟨hnew, hnodup⟩ := List.nodup_cons.mp hnodup
    rw [List.foldl_cons]
    rcases List.mem_cons.mp h with rfl | hrest
    · rw [hother rest _ hnew, get?_insert_self]
    · exact ih hnodup _ hrest

end SortedMap

namespace SortedSet

/-- The members in their order. -/
def toList (s : SortedSet κ) : List κ := s.keys

/-- `BTreeSet::insert`. -/
def add (s : SortedSet κ) (k : κ) : SortedSet κ := s.insert k ()

/-- `BTreeSet::extend`. -/
def extend (s : SortedSet κ) (ks : List κ) : SortedSet κ := ks.foldl add s

/-- The set of the elements of a list. -/
def ofList (ks : List κ) : SortedSet κ := extend SortedMap.empty ks

theorem mem_add {s : SortedSet κ} {k k' : κ} :
    k' ∈ (s.add k).toList ↔ k' = k ∨ k' ∈ s.toList := by
  simp only [toList, add, SortedMap.keys, List.mem_map, SortedMap.mem_insert]
  constructor
  · rintro ⟨e, rfl | ⟨hmem, -⟩, rfl⟩
    · exact Or.inl rfl
    · exact Or.inr ⟨e, hmem, rfl⟩
  · rintro (rfl | ⟨e, hmem, rfl⟩)
    · exact ⟨_, Or.inl rfl, rfl⟩
    · by_cases hkey : e.1 = k
      · exact ⟨_, Or.inl rfl, hkey.symm⟩
      · exact ⟨e, Or.inr ⟨hmem, hkey⟩, rfl⟩

theorem mem_extend {s : SortedSet κ} {ks : List κ} {k : κ} :
    k ∈ (s.extend ks).toList ↔ k ∈ s.toList ∨ k ∈ ks := by
  induction ks generalizing s with
  | nil => simp [extend]
  | cons first rest ih =>
    show k ∈ ((s.add first).extend rest).toList ↔ _
    rw [ih, mem_add, List.mem_cons]
    tauto

theorem mem_ofList {ks : List κ} {k : κ} : k ∈ (ofList ks).toList ↔ k ∈ ks := by
  rw [ofList, mem_extend]
  simp [toList, SortedMap.keys]

theorem toList_pairwise (s : SortedSet κ) : s.toList.Pairwise (· < ·) := s.keys_pairwise

/-- A strictly ascending list with the members of a set is its list. -/
theorem toList_eq {s : SortedSet κ} {ks : List κ} (hsorted : ks.Pairwise (· < ·))
    (hmem : ∀ k, k ∈ s.toList ↔ k ∈ ks) : s.toList = ks := by
  have hnodup : ∀ {l : List κ}, l.Pairwise (· < ·) → l.Nodup := by
    intro l hl
    exact hl.imp ne_of_lt
  have hperm := (List.perm_ext_iff_of_nodup (hnodup s.toList_pairwise) (hnodup hsorted)).mpr hmem
  exact hperm.eq_of_pairwise (fun _ _ _ _ hlt hlt' => absurd hlt (lt_asymm hlt')) s.toList_pairwise
    hsorted

end SortedSet
