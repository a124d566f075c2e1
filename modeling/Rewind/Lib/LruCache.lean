/-
A bounded cache that gives up what was used least recently.

The entries are in a map, and their keys also in a list, in the order of their last uses.  A new
entry takes the room of as many entries at the front of the list as it needs.

* `LruCache.get`, `LruCache.insert` — the two uses of an entry;
* `LruCache.Valid` — what holds of the cache and of the uses it was made by;
* `LruCache.Valid.get`, `LruCache.Valid.insert` — both uses keep it.
-/
import Rewind.Lib.SortedMap
import Mathlib.Data.List.Dedup
import Mathlib.Algebra.BigOperators.Group.List.Basic
import Mathlib.Algebra.GroupWithZero.Nat

/-! ### Orders of use -/

section Recency

variable {κ : Type} [DecidableEq κ]

/-- A use moves its key to the end of the order of last uses. -/
theorem dedup_concat (uses : List κ) (k : κ) : (uses ++ [k]).dedup = uses.dedup.erase k ++ [k] := by
  induction uses with
  | nil => simp
  | cons first rest ih =>
    rw [List.cons_append]
    by_cases hlast : first = k
    · subst hlast
      rw [List.dedup_cons_of_mem (by simp), ih]
      by_cases hrest : first ∈ rest
      · rw [List.dedup_cons_of_mem hrest]
      · have hnone : first ∉ rest.dedup := fun hmem => hrest (List.mem_dedup.mp hmem)
        rw [List.dedup_cons_of_notMem hrest, List.erase_cons_head, List.erase_eq_self_iff.mpr hnone]
    · by_cases hrest : first ∈ rest
      · rw [List.dedup_cons_of_mem hrest, List.dedup_cons_of_mem (by simp [hrest]), ih]
      · rw [List.dedup_cons_of_notMem hrest, List.dedup_cons_of_notMem (by simp [hrest, hlast]), ih,
          List.erase_cons_tail (by simpa using hlast), List.cons_append]

/-- The keys that are kept stay the most recently used ones. -/
theorem suffix_dedup_concat {order uses : List κ} (h : order <:+ uses.dedup) (k : κ) :
    order.erase k ++ [k] <:+ (uses ++ [k]).dedup := by
  obtain ⟨older, holder⟩ := h
  have hnodup : (older ++ order).Nodup := by
    rw [holder]
    exact List.nodup_dedup uses
  rw [dedup_concat, ← holder]
  by_cases hmem : k ∈ older
  · have hnone : k ∉ order := fun horder => List.disjoint_of_nodup_append hnodup hmem horder
    rw [List.erase_append_left order hmem, List.erase_eq_self_iff.mpr hnone, List.append_assoc]
    exact List.suffix_append _ _
  · rw [List.erase_append_right order hmem, List.append_assoc]
    exact List.suffix_append _ _

end Recency

/-! ### The cache -/

/-- A cache of values up to a total size; `order` has the keys from the least to the most recently
used. -/
structure LruCache (κ ν : Type) [LinearOrder κ] where
  capacity : Nat
  used : Nat
  entries : SortedMap κ ν
  order : List κ

namespace LruCache

variable {κ ν : Type} [LinearOrder κ]

def new (capacity : Nat) : LruCache κ ν := ⟨capacity, 0, SortedMap.empty, []⟩

/-- A use of a key that the cache has. -/
def touch (cache : LruCache κ ν) (k : κ) : LruCache κ ν :=
  { cache with order := cache.order.erase k ++ [k] }

variable (size : ν → Nat)

/-- Entries are given up, from the front of the order, until there is room for `needed`. -/
def evict (needed capacity : Nat) : Nat → SortedMap κ ν → List κ → LruCache κ ν
  | used, entries, [] => ⟨capacity, used, entries, []⟩
  | used, entries, oldest :: rest =>
    if capacity < used + needed then
      match entries.get? oldest with
      | some removed => evict needed capacity (used - size removed) (entries.erase oldest) rest
      | none => evict needed capacity used entries rest
    else
      ⟨capacity, used, entries, oldest :: rest⟩

/-- A value that is too large is not kept, and a key keeps its value. -/
def insert (cache : LruCache κ ν) (k : κ) (v : ν) : LruCache κ ν :=
  if cache.capacity < size v then
    cache
  else if (cache.entries.get? k).isSome then
    cache.touch k
  else
    let cache := evict size (size v) cache.capacity cache.used cache.entries cache.order
    { cache with
      used := cache.used + size v
      order := cache.order ++ [k]
      entries := cache.entries.insert k v }

/-- The sizes of all values together. -/
def total (entries : SortedMap κ ν) : Nat := (entries.entries.map fun e => size e.2).sum

/-- The cache after the uses of these keys. -/
structure Valid (uses : List κ) (cache : LruCache κ ν) : Prop where
  used : cache.used = total size cache.entries
  fits : cache.used ≤ cache.capacity
  order : cache.order.Perm cache.entries.keys
  /-- The keys are those used most recently, in the order of their last uses. -/
  recent : cache.order <:+ uses.dedup

variable {size} {uses : List κ} {cache : LruCache κ ν} {k : κ} {v : ν}

theorem valid_new (capacity : Nat) : Valid size [] (new capacity : LruCache κ ν) where
  used := rfl
  fits := Nat.zero_le _
  order := List.Perm.refl _
  recent := List.suffix_refl _

/-- A hit. -/
theorem Valid.touch (h : Valid size uses cache) (hmem : k ∈ cache.entries.keys) :
    Valid size (uses ++ [k]) (cache.touch k) where
  used := h.used
  fits := h.fits
  order := by
    have horder : k ∈ cache.order := h.order.mem_iff.mpr hmem
    have hmoved : (cache.order.erase k ++ [k]).Perm cache.order :=
      (List.perm_append_singleton k _).trans (List.perm_cons_erase horder).symm
    exact hmoved.trans h.order
  recent := suffix_dedup_concat h.recent k

/-- After the eviction there is room, and the entries that are left are of those there were. -/
theorem Valid.evict {needed capacity used : Nat} {entries : SortedMap κ ν} {order : List κ}
    (h : Valid size uses ⟨capacity, used, entries, order⟩) (hneeded : needed ≤ capacity) :
    let left := evict size needed capacity used entries order
    Valid size uses left ∧ left.capacity = capacity ∧ left.used + needed ≤ capacity
      ∧ ∀ e ∈ left.entries.entries, e ∈ entries.entries := by
  induction order generalizing used entries with
  | nil =>
    have hnone : entries.entries = [] := by
      have hkeys : entries.entries.map Prod.fst = [] := h.order.symm.eq_nil
      exact List.map_eq_nil_iff.mp hkeys
    have hzero : used = 0 := by
      have hused : used = total size entries := h.used
      rw [hused, total, hnone]
      rfl
    refine ⟨h, rfl, ?_, fun _ he => he⟩
    show used + needed ≤ capacity
    omega
  | cons oldest rest ih =>
    rw [LruCache.evict]
    by_cases hroom : capacity < used + needed
    swap
    · rw [if_neg hroom]
      exact ⟨h, rfl, Nat.not_lt.mp hroom, fun _ he => he⟩
    rw [if_pos hroom]
    have holdest : oldest ∈ entries.keys := h.order.mem_iff.mp List.mem_cons_self
    obtain ⟨removed, hremoved⟩ : ∃ removed, entries.get? oldest = some removed := by
      rw [← Option.isSome_iff_exists, Option.isSome_iff_ne_none]
      exact fun hnone => SortedMap.get?_eq_none_iff.mp hnone holdest
    simp only [hremoved]
    -- The oldest entry goes, with its size and its place in the order.
    have hperm := SortedMap.entries_erase_perm hremoved
    have hused : used = size removed + total size (entries.erase oldest) := by
      have hsum := (hperm.map fun e => size e.2).sum_eq
      rw [List.map_cons, List.sum_cons] at hsum
      exact h.used.trans hsum
    have hvalid : Valid size uses ⟨capacity, used - size removed, entries.erase oldest, rest⟩ := by
      have hfits : used ≤ capacity := h.fits
      refine ⟨?_, ?_, ?_, (List.suffix_cons oldest rest).trans h.recent⟩
      · show used - size removed = total size (entries.erase oldest)
        omega
      · show used - size removed ≤ capacity
        omega
      · have hkeys : (oldest :: rest).Perm (oldest :: (entries.erase oldest).keys) :=
          h.order.trans (hperm.map Prod.fst)
        exact (List.perm_cons oldest).mp hkeys
    obtain ⟨hleft, hcapacity, hspace, hmem⟩ := ih hvalid
    exact ⟨hleft, hcapacity, hspace, fun e he => (List.mem_filter.mp (hmem e he)).1⟩

/-- A miss: the new entry is kept, and of the others those that there is room for. -/
theorem Valid.insert (h : Valid size uses cache) (hnew : cache.entries.get? k = none)
    (hsize : size v ≤ cache.capacity) :
    let cache' := cache.insert size k v
    Valid size (uses ++ [k]) cache' ∧ cache'.capacity = cache.capacity
      ∧ cache'.entries.get? k = some v
      ∧ ∀ e ∈ cache'.entries.entries, e = (k, v) ∨ e ∈ cache.entries.entries := by
  obtain ⟨hleft, hcapacity, hspace, hmem⟩ := h.evict hsize
  have hinsert : cache.insert size k v =
      let left := LruCache.evict size (size v) cache.capacity cache.used cache.entries cache.order
      { left with
        used := left.used + size v
        order := left.order ++ [k]
        entries := left.entries.insert k v } := by
    rw [LruCache.insert, if_neg (by omega), if_neg (by simp [hnew])]
  generalize LruCache.evict size (size v) cache.capacity cache.used cache.entries cache.order = left
    at hleft hcapacity hspace hmem hinsert
  have habsent : k ∉ left.entries.keys := by
    intro hkey
    obtain ⟨e, he, rfl⟩ := List.mem_map.mp hkey
    exact SortedMap.get?_eq_none_iff.mp hnew (List.mem_map_of_mem (hmem e he))
  have hperm := SortedMap.entries_insert_perm (v := v) habsent
  rw [hinsert]
  refine ⟨⟨?_, ?_, ?_, ?_⟩, hcapacity, SortedMap.get?_insert_self _ _ _, fun e he => ?_⟩
  · have hsum := (hperm.map fun e => size e.2).sum_eq
    have hused := hleft.used
    rw [List.map_cons, List.sum_cons] at hsum
    show left.used + size v = total size (left.entries.insert k v)
    rw [hused, Nat.add_comm]
    exact hsum.symm
  · show left.used + size v ≤ left.capacity
    omega
  · have hkeys : (left.entries.insert k v).keys.Perm (k :: left.entries.keys) := hperm.map Prod.fst
    exact ((List.perm_append_singleton k _).trans (hleft.order.cons k)).trans hkeys.symm
  · have horder : k ∉ left.order := fun hin => habsent (hleft.order.mem_iff.mp hin)
    have hsuffix := suffix_dedup_concat hleft.recent k
    rw [List.erase_eq_self_iff.mpr horder] at hsuffix
    exact hsuffix
  · rcases SortedMap.mem_insert.mp he with rfl | ⟨hold, -⟩
    · exact Or.inl rfl
    · exact Or.inr (hmem e hold)

end LruCache
