/-
Differences between snapshots.

Both manifests ascend by path, and one merge of them meets every path once.

* `diffSnapshots`, `SnapshotDiff.reversed` — the difference, and its view from the other side;
* `EntryChange.apply` — a change, made where it fits;
* **`diff_exact`** — the difference leads from the one manifest to the other.
-/
import Rewind.Domain.Snapshot
import Mathlib.Data.List.Sort

namespace Rewind

/-- One complete, reversible workspace-entry change. -/
inductive EntryChange where
  | added (entry : SnapshotEntry)
  | removed (entry : SnapshotEntry)
  | modified (before after : SnapshotEntry)
deriving DecidableEq

/-- The canonical path affected by a change. -/
def EntryChange.path : EntryChange → SnapshotPath
  | .added entry | .removed entry => entry.path
  | .modified before _ => before.path

/-- `EntryChange::reverse`. -/
def EntryChange.reverse : EntryChange → EntryChange
  | .added entry => .removed entry
  | .removed entry => .added entry
  | .modified before after => .modified after before

/-- Sorted, lossless differences between two canonical snapshots. -/
structure SnapshotDiff where
  before : SnapshotId
  after : SnapshotId
  changes : List EntryChange
deriving DecidableEq

/-- `SnapshotDiff::reversed`. -/
def SnapshotDiff.reversed (diff : SnapshotDiff) : SnapshotDiff where
  before := diff.after
  after := diff.before
  changes := diff.changes.map (·.reverse)

/-- The loop of `diff_snapshots`. -/
def diffEntries : List SnapshotEntry → List SnapshotEntry → List EntryChange
  | [], [] => []
  | before :: left, [] => .removed before :: diffEntries left []
  | [], after :: right => .added after :: diffEntries [] right
  | before :: left, after :: right =>
    if before.path < after.path then
      .removed before :: diffEntries left (after :: right)
    else if after.path < before.path then
      .added after :: diffEntries (before :: left) right
    else if before ≠ after then
      .modified before after :: diffEntries left right
    else
      diffEntries left right
termination_by left right => left.length + right.length

/-- `diff_snapshots`. -/
def diffSnapshots (before after : Snapshot) : SnapshotDiff where
  before := before.id
  after := after.id
  changes := diffEntries before.manifest.entries after.manifest.entries

/-! ### What a difference says -/

/-- The entry at a path. -/
def entryAt (entries : List SnapshotEntry) (path : SnapshotPath) : Option SnapshotEntry :=
  entries.find? (·.path = path)

/-- A change of entries, unless it does not fit them. -/
def EntryChange.apply (entries : List SnapshotEntry) : EntryChange → Option (List SnapshotEntry)
  | .added entry =>
    if entryAt entries entry.path = none then
      some (entries.orderedInsert (fun left right => left.path.text ≤ right.path.text) entry)
    else
      none
  | .removed entry => if entry ∈ entries then some (entries.erase entry) else none
  | .modified before after =>
    if before ∈ entries ∧ before.path = after.path then some
      (entries.replace before after) else none

/-- Entries that ascend by path. -/
def Ascending (entries : List SnapshotEntry) : Prop :=
  entries.Pairwise fun left right => left.path.text < right.path.text

variable {left right : List SnapshotEntry}

theorem entryAt_cons (entry : SnapshotEntry) (entries : List SnapshotEntry) (path : SnapshotPath) :
    entryAt (entry :: entries) path = if entry.path = path then some entry else entryAt entries
      path := by
  rw [entryAt, List.find?_cons]
  by_cases h : entry.path = path
  · simp [h]
  · simp [h, entryAt]

/-- Before the first of ascending entries there is none. -/
theorem entryAt_eq_none {entries : List SnapshotEntry} {path : SnapshotPath}
    (h : ∀ entry ∈ entries, path.text < entry.path.text) : entryAt entries path = none := by
  refine List.find?_eq_none.mpr fun entry hentry heq => ?_
  have hlt := h entry hentry
  rw [of_decide_eq_true heq] at hlt
  exact absurd hlt (lt_irrefl _)

theorem entryAt_eq_none_of_gt {entries : List SnapshotEntry} {path : SnapshotPath}
    (h : ∀ entry ∈ entries, entry.path.text < path.text) : entryAt entries path = none := by
  refine List.find?_eq_none.mpr fun entry hentry heq => ?_
  have hlt := h entry hentry
  rw [of_decide_eq_true heq] at hlt
  exact absurd hlt (lt_irrefl _)

theorem path_eq_of_not_lt {before after : SnapshotEntry} (hlt : ¬ before.path < after.path)
    (hgt : ¬ after.path < before.path) : before.path = after.path :=
  SnapshotPath.text_injective (le_antisymm (not_lt.mp hgt) (not_lt.mp hlt))

/-- What a change between these entries is made of. -/
def EntryChange.Between (left right : List SnapshotEntry) : EntryChange → Prop
  | .added entry => entry ∈ right
  | .removed entry => entry ∈ left
  | .modified before after =>
    before ∈ left ∧ after ∈ right ∧ before.path = after.path ∧ before ≠ after

theorem EntryChange.Between.mono {left' right' : List SnapshotEntry} {change : EntryChange}
    (h : change.Between left right) (hleft : left ⊆ left') (hright : right ⊆ right') :
    change.Between left' right' := by
  cases change with
  | added entry => exact hright h
  | removed entry => exact hleft h
  | modified before after => exact ⟨hleft h.1, hright h.2.1, h.2.2⟩

theorem between_of_mem_diffEntries {change : EntryChange} (h : change ∈ diffEntries left right) :
    change.Between left right := by
  fun_induction diffEntries left right with
  | case1 => exact absurd h List.not_mem_nil
  | case2 before left ih =>
    rcases List.mem_cons.mp h with rfl | h
    · exact List.mem_cons_self ..
    · exact (ih h).mono (List.subset_cons_self _ _) (List.Subset.refl _)
  | case3 after right ih =>
    rcases List.mem_cons.mp h with rfl | h
    · exact List.mem_cons_self ..
    · exact (ih h).mono (List.Subset.refl _) (List.subset_cons_self _ _)
  | case4 before left after right hlt ih =>
    rcases List.mem_cons.mp h with rfl | h
    · exact List.mem_cons_self ..
    · exact (ih h).mono (List.subset_cons_self _ _) (List.Subset.refl _)
  | case5 before left after right hlt hgt ih =>
    rcases List.mem_cons.mp h with rfl | h
    · exact List.mem_cons_self ..
    · exact (ih h).mono (List.Subset.refl _) (List.subset_cons_self _ _)
  | case6 before left after right hlt hgt hne ih =>
    rcases List.mem_cons.mp h with rfl | h
    · exact ⟨List.mem_cons_self .., List.mem_cons_self .., path_eq_of_not_lt hlt hgt, hne⟩
    · exact (ih h).mono (List.subset_cons_self _ _) (List.subset_cons_self _ _)
  | case7 before left after right hlt hgt hsame ih =>
    exact (ih h).mono (List.subset_cons_self _ _) (List.subset_cons_self _ _)

/-- A change is of an entry of one side. -/
theorem path_of_mem_diffEntries {change : EntryChange} (h : change ∈ diffEntries left right) :
    ∃ entry, (entry ∈ left ∨ entry ∈ right) ∧ entry.path = change.path := by
  have hbetween := between_of_mem_diffEntries h
  cases change with
  | added entry => exact ⟨entry, Or.inr hbetween, rfl⟩
  | removed entry => exact ⟨entry, Or.inl hbetween, rfl⟩
  | modified before after => exact ⟨before, Or.inl hbetween.1, rfl⟩

/-- The merge goes from each path to a later one. -/
theorem pairwise_diffEntries (hleft : Ascending left) (hright : Ascending right) :
    (diffEntries left right).Pairwise fun c c' => c.path.text < c'.path.text := by
  -- What comes before the rest of both sides comes before their difference.
  have hbefore : ∀ {path : SnapshotPath} {left right : List SnapshotEntry},
      (∀ entry ∈ left, path.text < entry.path.text)
        → (∀ entry ∈ right, path.text < entry.path.text) →
      ∀ change ∈ diffEntries left right, path.text < change.path.text := by
    intro path left right hleft hright change hchange
    obtain ⟨entry, hentry, hpath⟩ := path_of_mem_diffEntries hchange
    rw [← hpath]
    exact hentry.elim (hleft entry) (hright entry)
  fun_induction diffEntries left right with
  | case1 => exact List.Pairwise.nil
  | case2 before left ih =>
    obtain ⟨hfirst, hleft⟩ := List.pairwise_cons.mp hleft
    exact List.pairwise_cons.mpr ⟨hbefore hfirst (by simp), ih hleft hright⟩
  | case3 after right ih =>
    obtain ⟨hfirst, hright⟩ := List.pairwise_cons.mp hright
    exact List.pairwise_cons.mpr ⟨hbefore (by simp) hfirst, ih hleft hright⟩
  | case4 before left after right hlt ih =>
    obtain ⟨hfirst, hleft⟩ := List.pairwise_cons.mp hleft
    refine List.pairwise_cons.mpr ⟨hbefore hfirst ?_, ih hleft hright⟩
    refine List.forall_mem_cons.mpr ⟨hlt, fun entry hentry => lt_trans hlt ?_⟩
    exact (List.pairwise_cons.mp hright).1 entry hentry
  | case5 before left after right hlt hgt ih =>
    obtain ⟨hfirst, hright⟩ := List.pairwise_cons.mp hright
    refine List.pairwise_cons.mpr ⟨hbefore ?_ hfirst, ih hleft hright⟩
    refine List.forall_mem_cons.mpr ⟨hgt, fun entry hentry => lt_trans hgt ?_⟩
    exact (List.pairwise_cons.mp hleft).1 entry hentry
  | case6 before left after right hlt hgt hne ih =>
    obtain ⟨hfirst, hleft⟩ := List.pairwise_cons.mp hleft
    obtain ⟨hfirst', hright⟩ := List.pairwise_cons.mp hright
    have hpath : before.path.text = after.path.text := le_antisymm (not_lt.mp hgt) (not_lt.mp hlt)
    refine List.pairwise_cons.mpr ⟨hbefore hfirst fun entry hentry => ?_, ih hleft hright⟩
    show before.path.text < entry.path.text
    rw [hpath]
    exact hfirst' entry hentry
  | case7 before left after right hlt hgt hsame ih =>
    exact ih (List.pairwise_cons.mp hleft).2 (List.pairwise_cons.mp hright).2

/-- The changes name the paths at which the two sides differ. -/
theorem mem_paths_iff (hleft : Ascending left) (hright : Ascending right) (path : SnapshotPath) :
    path ∈ (diffEntries left right).map (·.path) ↔ entryAt left path ≠ entryAt right path := by
  fun_induction diffEntries left right with
  | case1 => simp
  | case2 before left ih =>
    obtain ⟨hfirst, hleft⟩ := List.pairwise_cons.mp hleft
    rw [List.map_cons, List.mem_cons, ih hleft hright, entryAt_cons]
    by_cases h : before.path = path
    · simp [h, EntryChange.path, entryAt]
    · simp [h, EntryChange.path, Ne.symm h]
  | case3 after right ih =>
    obtain ⟨hfirst, hright⟩ := List.pairwise_cons.mp hright
    rw [List.map_cons, List.mem_cons, ih hleft hright, entryAt_cons]
    by_cases h : after.path = path
    · simp [h, EntryChange.path, entryAt]
    · simp [h, EntryChange.path, Ne.symm h]
  | case4 before left after right hlt ih =>
    have hright' := hright
    obtain ⟨hfirst, hleft⟩ := List.pairwise_cons.mp hleft
    rw [List.map_cons, List.mem_cons, ih hleft hright, entryAt_cons before]
    by_cases h : before.path = path
    · subst h
      have hnone : entryAt (after :: right) before.path = none := by
        refine entryAt_eq_none (List.forall_mem_cons.mpr ⟨hlt, fun entry hentry => lt_trans hlt ?_⟩)
        exact (List.pairwise_cons.mp hright').1 entry hentry
      simp [EntryChange.path, hnone]
    · simp [h, EntryChange.path, Ne.symm h]
  | case5 before left after right hlt hgt ih =>
    have hleft' := hleft
    obtain ⟨hfirst, hright⟩ := List.pairwise_cons.mp hright
    rw [List.map_cons, List.mem_cons, ih hleft hright, entryAt_cons after]
    by_cases h : after.path = path
    · subst h
      have hnone : entryAt (before :: left) after.path = none := by
        refine entryAt_eq_none (List.forall_mem_cons.mpr ⟨hgt, fun entry hentry => lt_trans hgt ?_⟩)
        exact (List.pairwise_cons.mp hleft').1 entry hentry
      simp [EntryChange.path, hnone]
    · simp [h, EntryChange.path, Ne.symm h]
  | case6 before left after right hlt hgt hne ih =>
    obtain ⟨hfirst, hleft⟩ := List.pairwise_cons.mp hleft
    obtain ⟨hfirst', hright⟩ := List.pairwise_cons.mp hright
    have hpath := path_eq_of_not_lt hlt hgt
    rw [List.map_cons, List.mem_cons, ih hleft hright, entryAt_cons, entryAt_cons, ← hpath]
    by_cases h : before.path = path
    · simp [h, EntryChange.path, hne]
    · simp [h, EntryChange.path, Ne.symm h]
  | case7 before left after right hlt hgt hsame ih =>
    obtain ⟨hfirst, hleft₁⟩ := List.pairwise_cons.mp hleft
    obtain ⟨hfirst', hright₁⟩ := List.pairwise_cons.mp hright
    obtain rfl : before = after := not_not.mp hsame
    rw [ih hleft₁ hright₁, entryAt_cons, entryAt_cons]
    by_cases h : before.path = path
    · subst h
      simp [entryAt_eq_none hfirst, entryAt_eq_none hfirst']
    · simp [h]

/-- The difference the other way round. -/
theorem diffEntries_swap (left right : List SnapshotEntry) :
    diffEntries right left = (diffEntries left right).map (·.reverse) := by
  fun_induction diffEntries left right with
  | case1 => rw [diffEntries, List.map_nil]
  | case2 before left ih => rw [diffEntries, ih, List.map_cons, EntryChange.reverse]
  | case3 after right ih => rw [diffEntries, ih, List.map_cons, EntryChange.reverse]
  | case4 before left after right hlt ih =>
    have hgt : ¬ after.path < before.path := fun h =>
      lt_asymm (show before.path.text < after.path.text from hlt) h
    rw [diffEntries, if_neg hgt, if_pos hlt, ih, List.map_cons, EntryChange.reverse]
  | case5 before left after right hlt hgt ih =>
    rw [diffEntries, if_pos hgt, ih, List.map_cons, EntryChange.reverse]
  | case6 before left after right hlt hgt hne ih =>
    rw [diffEntries, if_neg hgt, if_neg hlt, if_pos (Ne.symm hne), ih, List.map_cons,
      EntryChange.reverse]
  | case7 before left after right hlt hgt hsame ih =>
    have hsame' : ¬ after ≠ before := fun hne => hsame (Ne.symm hne)
    rw [diffEntries, if_neg hgt, if_neg hlt, if_neg hsame', ih]

/-! ### Making the changes -/

/-- One after the other, where each fits what the ones before have left. -/
def applyChanges (entries : List SnapshotEntry) (changes : List EntryChange) :
    Option (List SnapshotEntry) := changes.foldlM EntryChange.apply entries

theorem orderedInsert_of_between {done rest : List SnapshotEntry} {entry : SnapshotEntry}
    (hdone : ∀ e ∈ done, e.path.text < entry.path.text)
    (hrest : ∀ e ∈ rest, entry.path.text < e.path.text) :
    (done ++ rest).orderedInsert (fun left right => left.path.text ≤ right.path.text) entry
      = done ++ entry :: rest := by
  induction done with
  | nil =>
    cases rest with
    | nil => rfl
    | cons e rest =>
      exact List.orderedInsert_cons_of_le _ _ (le_of_lt (hrest e (List.mem_cons_self ..)))
  | cons e done ih =>
    obtain ⟨hfirst, hdone⟩ := List.forall_mem_cons.mp hdone
    rw [List.cons_append, List.orderedInsert, if_neg (not_le.mpr hfirst), ih hdone,
      List.cons_append]

/-- The added entry is where it belongs. -/
theorem apply_added {done rest : List SnapshotEntry} {entry : SnapshotEntry}
    (hdone : ∀ e ∈ done, e.path.text < entry.path.text)
    (hrest : ∀ e ∈ rest, entry.path.text < e.path.text) :
    (EntryChange.added entry).apply (done ++ rest) = some (done ++ entry :: rest) := by
  have hnone : entryAt (done ++ rest) entry.path = none := by
    rw [entryAt, List.find?_append]
    have hbefore : done.find? (·.path = entry.path) = none := entryAt_eq_none_of_gt hdone
    have hafter : rest.find? (·.path = entry.path) = none := entryAt_eq_none hrest
    rw [hbefore, hafter]
    rfl
  rw [EntryChange.apply, if_pos hnone, orderedInsert_of_between hdone hrest]

theorem not_mem_of_lt {done : List SnapshotEntry} {entry : SnapshotEntry}
    (hdone : ∀ e ∈ done, e.path.text < entry.path.text) : entry ∉ done :=
  fun hmem => lt_irrefl _ (hdone entry hmem)

theorem apply_removed {done rest : List SnapshotEntry} {entry : SnapshotEntry}
    (hdone : ∀ e ∈ done, e.path.text < entry.path.text) :
    (EntryChange.removed entry).apply (done ++ entry :: rest) = some (done ++ rest) := by
  have hmem : entry ∈ done ++ entry :: rest := List.mem_append_right _ (List.mem_cons_self ..)
  rw [EntryChange.apply, if_pos hmem, List.erase_append_right _ (not_mem_of_lt hdone),
    List.erase_cons_head]

theorem apply_modified {done rest : List SnapshotEntry} {before after : SnapshotEntry}
    (hdone : ∀ e ∈ done, e.path.text < before.path.text) (hpath : before.path = after.path) :
    (EntryChange.modified before after).apply (done ++ before :: rest)
      = some (done ++ after :: rest) := by
  have hmem : before ∈ done ++ before :: rest := List.mem_append_right _ (List.mem_cons_self ..)
  rw [EntryChange.apply, if_pos ⟨hmem, hpath⟩, List.replace_append_right (not_mem_of_lt hdone)]
  simp

/-- What the two sides have in common already comes before the rest of both. -/
def Precedes (done left right : List SnapshotEntry) : Prop :=
  ∀ e ∈ done, ∀ entry, entry ∈ left ∨ entry ∈ right → e.path.text < entry.path.text

theorem Precedes.concat {done left' right' : List SnapshotEntry} {next : SnapshotEntry}
    (h : Precedes done left right) (hleft : left' ⊆ left) (hright : right' ⊆ right)
    (hnext : ∀ entry, entry ∈ left' ∨ entry ∈ right' → next.path.text < entry.path.text) :
    Precedes (done ++ [next]) left' right' := by
  intro e he entry hentry
  rcases List.mem_append.mp he with hold | hnew
  · exact h e hold entry (hentry.imp (@hleft entry) (@hright entry))
  · rw [List.mem_singleton.mp hnew]
    exact hnext entry hentry

/-- The changes from one side to the other, made after what the two have in common already. -/
theorem applyChanges_diffEntries {done : List SnapshotEntry} (hleft : Ascending left)
    (hright : Ascending right) (hbefore : Precedes done left right) :
    applyChanges (done ++ left) (diffEntries left right) = some (done ++ right) := by
  have happend : ∀ (done : List SnapshotEntry) (next : SnapshotEntry) (rest : List SnapshotEntry),
      done ++ next :: rest = (done ++ [next]) ++ rest := by simp
  fun_induction diffEntries left right generalizing done with
  | case1 => rfl
  | case2 before left ih =>
    obtain ⟨hfirst, hleft⟩ := List.pairwise_cons.mp hleft
    rw [applyChanges, List.foldlM_cons,
      apply_removed fun e he => hbefore e he before (Or.inl (List.mem_cons_self ..))]
    exact ih hleft hright fun e he entry hentry =>
      hbefore e he entry (hentry.imp_left (List.mem_cons_of_mem _))
  | case3 after right ih =>
    obtain ⟨hfirst, hright⟩ := List.pairwise_cons.mp hright
    rw [applyChanges, List.foldlM_cons,
      apply_added (fun e he => hbefore e he after (Or.inr (List.mem_cons_self ..))) (by simp)]
    show applyChanges (done ++ [after]) (diffEntries [] right) = some (done ++ after :: right)
    rw [happend done after right, ← List.append_nil (done ++ [after])]
    rw [ih hleft hright, List.append_nil]
    exact hbefore.concat (List.Subset.refl _) (List.subset_cons_self _ _) fun entry hentry =>
      hfirst entry (hentry.resolve_left List.not_mem_nil)
  | case4 before left after right hlt ih =>
    obtain ⟨hfirst, hleft⟩ := List.pairwise_cons.mp hleft
    rw [applyChanges, List.foldlM_cons,
      apply_removed fun e he => hbefore e he before (Or.inl (List.mem_cons_self ..))]
    exact ih hleft hright fun e he entry hentry =>
      hbefore e he entry (hentry.imp_left (List.mem_cons_of_mem _))
  | case5 before left after right hlt hgt ih =>
    obtain ⟨hfirst, hright⟩ := List.pairwise_cons.mp hright
    have hafter : ∀ entry ∈ before :: left, after.path.text < entry.path.text := by
      refine List.forall_mem_cons.mpr ⟨hgt, fun entry hentry => lt_trans hgt ?_⟩
      exact (List.pairwise_cons.mp hleft).1 entry hentry
    rw [applyChanges, List.foldlM_cons,
      apply_added (fun e he => hbefore e he after (Or.inr (List.mem_cons_self ..))) hafter]
    show applyChanges (done ++ after :: before :: left) (diffEntries (before :: left) right)
      = some (done ++ after :: right)
    rw [happend done after (before :: left), happend done after right]
    exact ih hleft hright (hbefore.concat (List.Subset.refl _) (List.subset_cons_self _ _)
      fun entry hentry => hentry.elim (hafter entry) (hfirst entry))
  | case6 before left after right hlt hgt hne ih =>
    obtain ⟨hfirst, hleft⟩ := List.pairwise_cons.mp hleft
    obtain ⟨hfirst', hright⟩ := List.pairwise_cons.mp hright
    have hpath := path_eq_of_not_lt hlt hgt
    rw [applyChanges, List.foldlM_cons,
      apply_modified (fun e he => hbefore e he before (Or.inl (List.mem_cons_self ..))) hpath]
    show applyChanges (done ++ after :: left) (diffEntries left right)
      = some (done ++ after :: right)
    rw [happend done after left, happend done after right]
    refine ih hleft hright (hbefore.concat (List.subset_cons_self _ _) (List.subset_cons_self _ _)
      fun entry hentry => hentry.elim (fun h => ?_) (hfirst' entry))
    rw [← hpath]
    exact hfirst entry h
  | case7 before left after right hlt hgt hsame ih =>
    obtain ⟨hfirst, hleft₁⟩ := List.pairwise_cons.mp hleft
    obtain ⟨hfirst', hright₁⟩ := List.pairwise_cons.mp hright
    obtain rfl : before = after := not_not.mp hsame
    rw [happend done before left, happend done before right]
    exact ih hleft₁ hright₁ (hbefore.concat (List.subset_cons_self _ _) (List.subset_cons_self _ _)
      fun entry hentry => hentry.elim (hfirst entry) (hfirst' entry))

/-- Equal sides have no difference. -/
theorem diffEntries_self (entries : List SnapshotEntry) : diffEntries entries entries = [] := by
  induction entries with
  | nil => rw [diffEntries]
  | cons entry rest ih =>
    have hirrefl : ¬ entry.path < entry.path := lt_irrefl entry.path.text
    rw [diffEntries, if_neg hirrefl, if_neg hirrefl, if_neg (not_not.mpr rfl), ih]

/-- The changes from one manifest to the other lead there; they ascend by path, name the paths at
which the two differ and no others, are those of the opposite direction reversed, and are none only
between equal manifests. -/
theorem diff_exact (before after : Snapshot) :
    applyChanges before.manifest.entries (diffSnapshots before after).changes
        = some after.manifest.entries
      ∧ (diffSnapshots before after).changes.Pairwise (fun c c' => c.path.text < c'.path.text)
      ∧ (∀ path, path ∈ (diffSnapshots before after).changes.map (·.path) ↔
        entryAt before.manifest.entries path ≠ entryAt after.manifest.entries path)
      ∧ diffSnapshots after before = (diffSnapshots before after).reversed
      ∧ ((diffSnapshots before after).changes = [] ↔
        before.manifest.entries = after.manifest.entries) := by
  have hleft : Ascending before.manifest.entries := before.manifest.ordered
  have hright : Ascending after.manifest.entries := after.manifest.ordered
  have happly : applyChanges before.manifest.entries (diffSnapshots before after).changes
      = some after.manifest.entries :=
    applyChanges_diffEntries hleft hright fun _ he => absurd he List.not_mem_nil
  refine ⟨happly, pairwise_diffEntries hleft hright, mem_paths_iff hleft hright, ?_, ?_⟩
  · rw [diffSnapshots, diffEntries_swap]
    rfl
  · constructor
    · intro hnone
      rw [hnone] at happly
      exact Option.some.inj happly
    · intro heq
      rw [diffSnapshots, heq]
      exact diffEntries_self _

end Rewind
