/-
What a materialization does to the work of other processes.

Other processes create entries between any two calls: at and beneath the destination, and
through a handle also in the directory that stood there, wherever it has been moved to.  Nothing
that was there at any moment is lost, and neither is a sibling of the destination, as long as
nothing but an empty directory is moved aside, and it is still empty when it is listed for its
removal.

* `Within` — where the others create entries;
* `Careful` — what is moved aside holds nothing, and when it is listed;
* `Preserved` — nothing has been lost at any moment;
* **`materialize_preserves`** — a careful materialization loses nothing, whatever fails in it.
-/
import Rewind.Snapshot.Staging
import Rewind.Store.Writer

namespace Rewind

open FileTree Call Restore

/-! ### Other processes -/

/-- A name that the destination can be moved aside to. -/
structure Aside (s : Surroundings) (dest : Name) (before : Directory) (name : Name) : Prop where
  unused : before.get? name = none
  isOld : ∃ n, name = privateName s "old" dest n

/-- The other processes create entries at and beneath `dest`, by its name or through a handle on
the directory that stands there, which may have been moved aside. -/
def Within (s : Surroundings) (dest : Name) (before : Directory) : Prop :=
  ∀ tick, ∀ created ∈ s.others tick, created.1.head? = some dest ∨
    ∃ b first rest, Aside s dest before b ∧ created.1 = b :: first :: rest

variable {s : Surroundings} {dest : Name} {before : Directory} {tick : Nat}

theorem Aside.ne {b : Name} (h : Aside s dest before b) : b ≠ dest := by
  obtain ⟨n, rfl⟩ := h.isOld
  exact privateName_ne "old" dest n

theorem get?_foldl_create {creations : List (List Name × Entry)} {n : Name}
    (hcreations : ∀ created ∈ creations, created.1.head? ≠ some n) (root : Directory) :
    (creations.foldl (fun root created => root.create created.2 created.1) root).get? n
      = root.get? n := by
  induction creations generalizing root with
  | nil => rfl
  | cons created creations ih =>
    obtain ⟨hhead, hrest⟩ := List.forall_mem_cons.mp hcreations
    rw [List.foldl_cons, ih hrest]
    rcases hpath : created.1 with _ | ⟨m, path⟩
    · rfl
    · rw [hpath] at hhead
      exact Dir.get?_create_of_ne _ _ _ fun hn => hhead (congrArg some hn.symm)

theorem get?_foldl_create_of_none {creations : List (List Name × Entry)} {n : Name}
    (hcreations : ∀ created ∈ creations, created.1 ≠ [n]) {root : Directory}
    (hget : root.get? n = none) :
    (creations.foldl (fun root created => root.create created.2 created.1) root).get? n = none := by
  induction creations generalizing root with
  | nil => exact hget
  | cons created creations ih =>
    obtain ⟨hpath, hrest⟩ := List.forall_mem_cons.mp hcreations
    exact ih hrest (Dir.get?_create_of_none _ hget hpath)

theorem extends_foldl_create (creations : List (List Name × Entry)) (root : Directory) (n : Name) :
    Extends (root.get? n)
      ((creations.foldl (fun root created => root.create created.2 created.1) root).get? n) := by
  induction creations generalizing root with
  | nil => exact Extends.refl _
  | cons created creations ih => exact (extends_create _ _ _ n).trans (ih _)

theorem Within.get?_turn (h : Within s dest before) (fs : FileSystem) (call : Syscall) {n : Name}
    (hn : n ≠ dest) (haside : ¬ Aside s dest before n) :
    (fs.turn s call).root.get? n = fs.root.get? n := by
  refine get?_foldl_create (fun created hcreated hhead => ?_) fs.root
  rcases h fs.tick created hcreated with hdest | ⟨b, first, rest, hb, hpath⟩
  · exact hn (Option.some.inj (hhead.symm.trans hdest))
  · rw [hpath] at hhead
    exact haside (Option.some.inj hhead ▸ hb)

/-- Nobody creates an entry at another name than the destination. -/
theorem Within.get?_turn_of_none (h : Within s dest before) {fs : FileSystem} (call : Syscall)
    {n : Name} (hn : n ≠ dest) (hget : fs.root.get? n = none) :
    (fs.turn s call).root.get? n = none := by
  refine get?_foldl_create_of_none (fun created hcreated hpath => ?_) hget
  rcases h fs.tick created hcreated with hdest | ⟨b, first, rest, -, hpath'⟩
  · rw [hpath] at hdest
    exact hn (Option.some.inj hdest)
  · rw [hpath] at hpath'
    exact absurd hpath' (by simp)

theorem extends_turn (fs : FileSystem) (call : Syscall) (n : Name) :
    Extends (fs.root.get? n) ((fs.turn s call).root.get? n) :=
  extends_foldl_create (s.others fs.tick) fs.root n

theorem IsDirectory.turn {fs : FileSystem} {name : Name} (h : IsDirectory fs name)
    (call : Syscall) : IsDirectory (fs.turn s call) name := by
  obtain ⟨mode, entries, hget⟩ := h
  have hkind := extends_turn (s := s) fs call name [] (.directory mode) (by rw [hget]; rfl)
  rcases hget' : (fs.turn s call).root.get? name with _ | (content | ⟨mode', entries'⟩)
  · rw [hget'] at hkind
    exact absurd hkind (by simp)
  · rw [hget'] at hkind
    exact absurd hkind (by simp [FileTree.Node.kind])
  · exact ⟨mode', entries', hget'⟩

/-! ### Careful calls -/

/-- The name the call moves the destination to. -/
def Syscall.movedTo? (dest : Name) : Syscall → Option Name
  | .rename [source] [target] => if source = dest then some target else none
  | _ => none

/-- The directory whose names the call lists. -/
def Syscall.listed? : Syscall → Option Name
  | .readDirectory [name] => some name
  | _ => none

/-- The calls that the device did not fail, the first having been made at `tick`. -/
def carriedOut (s : Surroundings) (tick : Nat) (calls : List (Syscall × Directory)) :
    List (Syscall × Directory) :=
  (calls.zipIdx tick).filterMap fun made => if s.fails made.2 then none else some made.1

/-- What is moved aside holds nothing, and it still does when it is listed for its removal. -/
def Careful (dest : Name) (calls : List (Syscall × Directory)) : Prop :=
  (∀ made ∈ calls, made.1.movedTo? dest ≠ none → HoldsNothing (made.2.get? dest)) ∧
    ∀ made ∈ calls, ∀ b ∈ made.1.listed?, (∃ moved ∈ calls, moved.1.movedTo? dest = some b) →
      HoldsNothing (made.2.get? b)

instance (dest : Name) (calls : List (Syscall × Directory)) : Decidable (Careful dest calls) :=
  inferInstanceAs (Decidable (_ ∧ _))

theorem Careful.mono {calls calls' : List (Syscall × Directory)} (h : Careful dest calls')
    (hsub : calls ⊆ calls') : Careful dest calls := by
  refine ⟨fun made hmade => h.1 made (hsub hmade), fun made hmade b hb hmoved => ?_⟩
  obtain ⟨moved, hmem, htarget⟩ := hmoved
  exact h.2 made (hsub hmade) b hb ⟨moved, hsub hmem, htarget⟩

/-! ### What is preserved -/

/-- The entries beside the destination are the ones there were. -/
def SiblingsKept (dest : Name) (before root : Directory) : Prop :=
  ∀ n ≠ dest, ∀ node, before.get? n = some node → root.get? n = some node

/-- Between two moments nothing is lost of the destination, nor of what has been moved aside: it
is where it was, or has been moved back. -/
structure Kept (s : Surroundings) (dest : Name) (before earlier later : Directory) : Prop where
  destination : Retains (earlier.get? dest) (later.get? dest)
  aside : ∀ b, Aside s dest before b →
    Retains (earlier.get? b) (later.get? b) ∨ Retains (earlier.get? b) (later.get? dest)

/-- The states of the directory: those the calls met, and the last one. -/
def FileSystem.moments (fs : FileSystem) : List Directory := fs.calls.map (·.2) ++ [fs.root]

/-- Nothing has been lost at any moment. -/
structure Preserved (s : Surroundings) (dest : Name) (before : Directory) (fs : FileSystem) :
    Prop where
  siblings : ∀ root ∈ fs.moments, SiblingsKept dest before root
  kept : (before :: fs.moments).Pairwise (Kept s dest before)

/-- What a call has met is not lost in the end. -/
theorem Preserved.last {fs : FileSystem} (h : Preserved s dest before fs)
    {made : Syscall × Directory} (hmade : made ∈ fs.calls) :
    Kept s dest before made.2 fs.root := by
  have hall := h.kept
  rw [FileSystem.moments, ← List.cons_append, List.pairwise_append] at hall
  exact hall.2.2 made.2 (List.mem_cons_of_mem _ (List.mem_map_of_mem hmade)) fs.root
    (List.mem_singleton_self _)

theorem Kept.refl (root : Directory) : Kept s dest before root root :=
  ⟨Retains.refl _, fun _ _ => Or.inl (Retains.refl _)⟩

theorem Kept.trans {root₁ root₂ root₃ : Directory} (h₁₂ : Kept s dest before root₁ root₂)
    (h₂₃ : Kept s dest before root₂ root₃) : Kept s dest before root₁ root₃ where
  destination := h₁₂.destination.trans h₂₃.destination
  aside b hb := by
    rcases h₁₂.aside b hb with h | h
    · exact (h₂₃.aside b hb).imp h.trans h.trans
    · exact Or.inr (h.trans h₂₃.destination)

/-- A change of names that no work of others is under. -/
theorem Kept.of_get? {root root' : Directory} (hdest : root'.get? dest = root.get? dest)
    (haside : ∀ b, Aside s dest before b → root'.get? b = root.get? b) :
    Kept s dest before root root' where
  destination := hdest ▸ Retains.refl _
  aside b hb := Or.inl (haside b hb ▸ Retains.refl _)

/-! ### The invariant -/

/-- Nothing has been lost by what has been done with care since `tick`. -/
structure Gentle (s : Surroundings) (dest : Name) (before : Directory) (tick : Nat)
    (fs : FileSystem) : Prop where
  clock : fs.tick = tick + fs.calls.length
  siblings : ∀ root ∈ fs.moments, SiblingsKept dest before root
  kept : Careful dest (carriedOut s tick fs.calls) →
    (before :: fs.moments).Pairwise (Kept s dest before)

theorem Gentle.siblingsKept {fs : FileSystem} (h : Gentle s dest before tick fs) :
    SiblingsKept dest before fs.root := h.siblings _ (by simp [FileSystem.moments])

/-- What is not there now was not there at first. -/
theorem Gentle.unused {fs : FileSystem} (h : Gentle s dest before tick fs) {n : Name}
    (hn : n ≠ dest) (hget : fs.root.get? n = none) : before.get? n = none := by
  rcases hnode : before.get? n with _ | node
  · rfl
  · rw [h.siblingsKept n hn node hnode] at hget
    exact absurd hget (by simp)

theorem carriedOut_turn {fs : FileSystem} (hclock : fs.tick = tick + fs.calls.length)
    (call : Syscall) : carriedOut s tick (fs.turn s call).calls
      = carriedOut s tick fs.calls
        ++ if s.fails fs.tick then [] else [(call, (fs.turn s call).root)] := by
  simp only [carriedOut, FileSystem.turn, List.zipIdx_append, List.filterMap_append, ← hclock]
  by_cases hfails : s.fails fs.tick <;> simp [hfails]

theorem carriedOut_subset_turn {fs : FileSystem} (hclock : fs.tick = tick + fs.calls.length)
    (call : Syscall) : carriedOut s tick fs.calls ⊆ carriedOut s tick (fs.turn s call).calls := by
  rw [carriedOut_turn hclock]
  exact List.subset_append_left _ _

theorem mem_carriedOut_turn {fs : FileSystem} (hclock : fs.tick = tick + fs.calls.length)
    (call : Syscall) (hfaultless : s.fails fs.tick = false) :
    (call, (fs.turn s call).root) ∈ carriedOut s tick (fs.turn s call).calls := by
  rw [carriedOut_turn hclock, hfaultless]
  exact List.mem_append_right _ (List.mem_singleton_self _)

theorem Gentle.turn (hothers : Within s dest before) {fs : FileSystem}
    (h : Gentle s dest before tick fs) (call : Syscall) :
    Gentle s dest before tick (fs.turn s call) where
  clock := by
    simp only [FileSystem.turn, List.length_append, List.length_singleton, h.clock]
    omega
  siblings := by
    have hnow : SiblingsKept dest before (fs.turn s call).root := by
      intro n hn node hnode
      rw [hothers.get?_turn fs call hn fun haside => absurd hnode (by simp [haside.unused])]
      exact h.siblingsKept n hn node hnode
    intro root hroot
    simp only [FileSystem.moments, FileSystem.turn, List.map_append, List.append_assoc,
      List.mem_append, List.map_cons, List.map_nil, List.mem_singleton] at hroot
    rcases hroot with hmet | rfl | rfl
    · exact h.siblings root (by simp only [FileSystem.moments, List.mem_append, hmet, true_or])
    · exact hnow
    · exact hnow
  kept hcareful := by
    have hbefore := h.kept (hcareful.mono (carriedOut_subset_turn h.clock call))
    have hstep : Kept s dest before fs.root (fs.turn s call).root :=
      ⟨Or.inr (extends_turn fs call dest), fun b _ => Or.inl (Or.inr (extends_turn fs call b))⟩
    rw [FileSystem.moments, ← List.cons_append, List.pairwise_append] at hbefore
    obtain ⟨hcalls, -, hlast⟩ := hbefore
    -- what was there at an earlier moment was there before this call, and others only add
    have hnow : ∀ root ∈ before :: fs.calls.map (·.2),
        Kept s dest before root (fs.turn s call).root := fun root hroot =>
      (hlast root hroot fs.root (List.mem_singleton_self _)).trans hstep
    show (before :: ((fs.calls ++ [(call, (fs.turn s call).root)]).map (·.2)
      ++ [(fs.turn s call).root])).Pairwise _
    rw [List.map_append, List.append_assoc, ← List.cons_append, List.pairwise_append]
    refine ⟨hcalls, ?_, fun root hroot root' hroot' => ?_⟩
    · exact List.pairwise_pair.mpr (Kept.refl _)
    · have hsame : root' = (fs.turn s call).root := by simpa using hroot'
      exact hsame ▸ hnow root hroot

theorem Gentle.count {fs : FileSystem} (sequence : Nat) (h : Gentle s dest before tick fs) :
    Gentle s dest before tick { fs with sequence } :=
  ⟨h.clock, h.siblings, h.kept⟩

/-- What a call does, after the turn of the others. -/
theorem Gentle.change {fs : FileSystem} {root : Directory} (h : Gentle s dest before tick fs)
    (hsiblings : ∀ n ≠ dest, ∀ node, before.get? n = some node → root.get? n = fs.root.get? n)
    (hkept : Careful dest (carriedOut s tick fs.calls) → Kept s dest before fs.root root) :
    Gentle s dest before tick { fs with root } where
  clock := h.clock
  siblings := by
    intro root' hroot n hn node hnode
    rcases List.mem_append.mp hroot with hmet | hlast
    · exact h.siblings root' (List.mem_append_left _ hmet) n hn node hnode
    · rw [List.mem_singleton.mp hlast]
      exact (hsiblings n hn node hnode).trans (h.siblingsKept n hn node hnode)
  kept hcareful := by
    have hbefore := h.kept hcareful
    rw [FileSystem.moments, ← List.cons_append, List.pairwise_append] at hbefore ⊢
    obtain ⟨hcalls, -, hlast⟩ := hbefore
    refine ⟨hcalls, List.pairwise_singleton _ _, fun earlier hearlier later hlater => ?_⟩
    rw [List.mem_singleton.mp hlater]
    exact (hlast earlier hearlier fs.root (List.mem_singleton_self _)).trans (hkept hcareful)

/-! ### Staging -/

/-- A name for the tree that is staged: nobody else has to do with it. -/
structure Spare (s : Surroundings) (dest : Name) (before : Directory) (name : Name) : Prop where
  unused : before.get? name = none
  ne : name ≠ dest
  notAside : ¬ Aside s dest before name

theorem Aside.ne_spare {b name : Name} (h : Aside s dest before b)
    (hname : Spare s dest before name) : b ≠ name := by
  rintro rfl
  exact hname.notAside h

theorem ne_of_unused {name n : Name} (h : before.get? name = none) {node : Entry}
    (hn : before.get? n = some node) : n ≠ name := by
  rintro rfl
  rw [h] at hn
  exact absurd hn (by simp)

theorem staging_gentle (hothers : Within s dest before) :
    Staging s dest (Gentle s dest before tick) (Spare s dest before) where
  turn call hfs := hfs.turn hothers call
  count sequence hfs := hfs.count sequence
  others fs call _ hname := hothers.get?_turn fs call hname.ne hname.notAside
  free := by
    rintro fs _ hfs hget ⟨n, rfl⟩
    have hne := privateName_ne (s := s) "tmp" dest n
    refine ⟨hfs.unused hne hget, hne, ?_⟩
    rintro ⟨-, m, heq⟩
    exact privateName_tmp_ne_old dest n m heq
  undisturbed := by
    intro name hname
    refine ⟨⟨fun call hfs => hfs.turn hothers call,
      fun sequence hfs => hfs.count sequence⟩, fun hfs hroot => ?_⟩
    refine hfs.change (fun n _ node hnode => hroot n (ne_of_unused hname.unused hnode))
      fun _ => ?_
    exact Kept.of_get? (hroot dest hname.ne.symm) fun b hb => hroot b (hb.ne_spare hname)

/-! ### Backups -/

/-- The destination has been moved to the name `b`, and it is a directory if that was done with
care. -/
structure SetAside (s : Surroundings) (dest : Name) (tick : Nat) (b : Name) (fs : FileSystem) :
    Prop where
  moved : ∃ made ∈ carriedOut s tick fs.calls, made.1.movedTo? dest = some b
  directory : Careful dest (carriedOut s tick fs.calls) → IsDirectory fs b

theorem SetAside.turn {b : Name} {fs : FileSystem} (h : SetAside s dest tick b fs)
    (hclock : fs.tick = tick + fs.calls.length) (call : Syscall) :
    SetAside s dest tick b (fs.turn s call) where
  moved := by
    obtain ⟨made, hmade, htarget⟩ := h.moved
    exact ⟨made, carriedOut_subset_turn hclock call hmade, htarget⟩
  directory hcareful := (h.directory (hcareful.mono (carriedOut_subset_turn hclock call))).turn call

/-- A backup, and what is kept beside it. -/
structure Backed (s : Surroundings) (dest : Name) (before : Directory) (tick : Nat) (b : Name)
    (fs : FileSystem) : Prop where
  gentle : Gentle s dest before tick fs
  setAside : SetAside s dest tick b fs

theorem Backed.turn (hothers : Within s dest before) {b : Name} {fs : FileSystem}
    (h : Backed s dest before tick b fs) (call : Syscall) :
    Backed s dest before tick b (fs.turn s call) :=
  ⟨h.gentle.turn hothers call, h.setAside.turn h.gentle.clock call⟩

/-- A directory that is renamed to the destination finds nothing there. -/
theorem Gentle.renameInto {fs : FileSystem} {source : Name} {entries : Directory}
    (h : Gentle s dest before tick fs) (hunused : before.get? source = none)
    (hne : source ≠ dest)
    (hdirectory : Careful dest (carriedOut s tick fs.calls) → IsDirectory fs source)
    (hrename : renameEntry source dest fs.root = .ok entries) :
    Gentle s dest before tick { fs with root := entries } := by
  obtain ⟨node, hnode, rfl, hreplaced⟩ := renameEntry_eq_ok hrename hne
  refine h.change (fun n hn node' hnode' => ?_) fun hcareful => ⟨?_, fun b hb => ?_⟩
  · rw [Dir.get?_insert_of_ne _ _ hn, Dir.get?_erase_of_ne _ (ne_of_unused hunused hnode')]
  · obtain ⟨mode, beneath, hget⟩ := hdirectory hcareful
    exact Or.inl (hreplaced mode beneath (Option.some.inj (hnode.symm.trans hget)))
  · by_cases hsource : b = source
    · subst hsource
      rw [Dir.get?_insert_self, hnode]
      exact Or.inr (Retains.refl _)
    · rw [Dir.get?_insert_of_ne _ _ hb.ne, Dir.get?_erase_of_ne _ hsource]
      exact Or.inl (Retains.refl _)

/-- How a careful installation ends: a backup it leaves is one of the destination. -/
def LeavesGentle (s : Surroundings) (dest : Name) (before : Directory) (tick : Nat) {α : Type}
    (backup : α → Option Name) : Except Restore.SnapshotError α → FileSystem → Prop
  | .ok a, fs => Gentle s dest before tick fs ∧ ∀ b, backup a = some b →
      Aside s dest before b ∧ SetAside s dest tick b fs
  | .error _, fs => Gentle s dest before tick fs

/-! ### The installation -/

section Install

variable (hothers : Within s dest before) {parent : DirectoryRoot} (hparent : parent.location = [])
include hothers hparent

omit hothers in
/-- The staged tree comes to the destination. -/
theorem spec_renameInto {name : Name} (hname : Spare s dest before name) {P : FileSystem → Prop}
    (hgentle : ∀ fs, P fs → Gentle s dest before tick fs)
    (hturn : ∀ fs call, P fs → P (fs.turn s call))
    (hmoved : ∀ fs root, P fs → Gentle s dest before tick { fs with root } →
      (∀ b, Aside s dest before b → root.get? b = fs.root.get? b) → P { fs with root }) :
    Spec (fun fs => P fs ∧ IsDirectory fs name) (parent.renameChild s name dest) (fun _ => P)
      P := by
  refine spec_renameChild hparent (fun _ hfs => hfs.1) (fun fs hfs => hturn fs _ hfs.1) ?_
  rintro fs entries ⟨hfs, hdirectory⟩ - hrename
  have hmet := hturn fs (.rename [name] [dest]) hfs
  have hstays : IsDirectory (fs.turn s (.rename [name] [dest])) name := hdirectory.turn _
  refine hmoved _ entries hmet ?_ fun b hb => ?_
  · exact (hgentle _ hmet).renameInto hname.unused hname.ne (fun _ => hstays) hrename
  · obtain ⟨node, -, rfl, -⟩ := renameEntry_eq_ok hrename hname.ne
    rw [Dir.get?_insert_of_ne _ _ hb.ne, Dir.get?_erase_of_ne _ (hb.ne_spare hname)]

/-- Moving the destination aside. -/
theorem spec_moveAside {b name : Name} (hb : Aside s dest before b)
    (hname : Spare s dest before name) :
    Spec (fun fs => (Gentle s dest before tick fs ∧ IsDirectory fs name) ∧ fs.root.get? b = none)
      (parent.renameChild s dest b)
      (fun _ fs => Backed s dest before tick b fs ∧ IsDirectory fs name)
      (Gentle s dest before tick) := by
  refine spec_renameChild hparent (fun _ hfs => hfs.1.1)
    (fun fs hfs => hfs.1.1.turn hothers _) ?_
  rintro fs entries ⟨⟨hfs, hdirectory⟩, hfree⟩ hfaultless hrename
  have hgentle := hfs.turn hothers (.rename [dest] [b])
  have hfree' := hothers.get?_turn_of_none (.rename [dest] [b]) hb.ne hfree
  have hcarried := mem_carriedOut_turn hfs.clock (.rename [dest] [b]) hfaultless
  have htarget : (Syscall.rename [dest] [b]).movedTo? dest = some b := by simp [Syscall.movedTo?]
  obtain ⟨node, hnode, rfl, -⟩ := renameEntry_eq_ok hrename hb.ne.symm
  -- a careful move is one of an empty directory
  have hmoved : Careful dest (carriedOut s tick (fs.turn s (.rename [dest] [b])).calls) →
      HoldsNothing ((fs.turn s (.rename [dest] [b])).root.get? dest) := fun hcareful =>
    hcareful.1 _ hcarried (by simp [htarget])
  refine ⟨⟨hgentle.change (fun n hn node' hnode' => ?_) fun hcareful => ⟨?_, fun b' hb' => ?_⟩,
    ⟨_, hcarried, htarget⟩, fun hcareful => ?_⟩, ?_⟩
  · rw [Dir.get?_insert_of_ne _ _ (ne_of_unused hb.unused hnode'), Dir.get?_erase_of_ne _ hn]
  · exact Or.inl (hmoved hcareful)
  · by_cases heq : b' = b
    · rw [heq, hfree']
      exact Or.inl (Or.inl nofun)
    · rw [Dir.get?_insert_of_ne _ _ heq, Dir.get?_erase_of_ne _ hb'.ne]
      exact Or.inl (Retains.refl _)
  · obtain ⟨mode, rfl⟩ := isEmptyDirectory_iff.mp (hmoved hcareful node hnode)
    exact ⟨mode, .nil, Dir.get?_insert_self _ _ _⟩
  · have hstays : IsDirectory (fs.turn s (.rename [dest] [b])) name := hdirectory.turn _
    obtain ⟨mode, beneath, hget⟩ := hstays
    refine ⟨mode, beneath, ?_⟩
    show Dir.get? _ name = _
    rw [Dir.get?_insert_of_ne _ _ (hb.ne_spare hname).symm, Dir.get?_erase_of_ne _ hname.ne]
    exact hget

/-- Moving the backup back. -/
theorem spec_moveBack {b : Name} (hb : Aside s dest before b) :
    Spec (Backed s dest before tick b) (parent.renameChild s b dest)
      (fun _ => Gentle s dest before tick) (Gentle s dest before tick) := by
  refine spec_renameChild hparent (fun _ hfs => hfs.gentle)
    (fun fs hfs => (hfs.turn hothers _).gentle) ?_
  rintro fs entries hfs - hrename
  have hmet := hfs.turn hothers (.rename [b] [dest])
  exact hmet.gentle.renameInto hb.unused hb.ne hmet.setAside.directory hrename

theorem spec_installOverExisting {temporary : TemporaryTree}
    (hname : Spare s dest before temporary.name) (destination : Bytes) :
    Spec (fun fs => Gentle s dest before tick fs ∧ IsDirectory fs temporary.name)
      (installOverExisting s parent temporary dest destination)
      (fun b fs => Backed s dest before tick b fs ∧ Aside s dest before b)
      (Gentle s dest before tick) := by
  have hstaging : Staging s dest (Gentle s dest before tick) (Spare s dest before) :=
    staging_gentle hothers
  refine spec_bind (Q := fun b fs => ((Gentle s dest before tick fs
    ∧ IsDirectory fs temporary.name) ∧ fs.root.get? b = none) ∧ Aside s dest before b) ?_
    fun b => ?_
  · -- the backup gets a name that is free, so no sibling is replaced by it
    refine ((hstaging.building hname).toSteady.uniqueAvailableName hparent dest destination
      64).imp (fun _ hfs => hfs) ?_ fun _ hfs => hfs.1
    rintro b fs ⟨⟨hfs, hget⟩, -, n, rfl⟩
    exact ⟨⟨hfs, hget⟩, hfs.1.unused (privateName_ne "old" dest n) hget, n, rfl⟩
  refine spec_and_right fun hb => ?_
  refine spec_bind (spec_mapError (spec_moveAside hothers hparent hb hname)) fun _ => ?_
  refine spec_bind (Q := fun _ => Backed s dest before tick b) (spec_outcome
    ((spec_renameInto hparent hname (P := Backed s dest before tick b)
      (fun _ hfs => hfs.gentle) (fun _ call hfs => hfs.turn hothers call) ?_).imp
      (fun _ hfs => hfs) (fun _ _ hfs => hfs) fun _ hfs _ => hfs)) fun installed => ?_
  · refine fun fs root hfs hgentle hroot => ⟨hgentle, hfs.setAside.moved, fun hcareful => ?_⟩
    obtain ⟨mode, beneath, hget⟩ := hfs.setAside.directory hcareful
    exact ⟨mode, beneath, (hroot b hb).trans hget⟩
  · rcases installed with error | _
    · -- the backup is moved back, if it can be
      refine spec_bind (Q := fun _ => Gentle s dest before tick)
        (spec_outcome ((spec_moveBack hothers hparent hb).imp (fun _ hfs => hfs)
          (fun _ _ hfs => hfs) fun _ hfs _ => hfs)) fun rolledBack => ?_
      rcases rolledBack with rollback | _
      · exact spec_throw fun _ hfs => hfs
      · exact spec_throw fun _ hfs => hfs
    · exact spec_pure fun _ hfs => ⟨hfs, hb⟩

theorem ends_install_gentle {temporary : TemporaryTree}
    (hname : Spare s dest before temporary.name) (destination : Bytes) :
    Ends (fun fs => Gentle s dest before tick fs ∧ IsDirectory fs temporary.name)
      (install s parent temporary dest destination) (LeavesGentle s dest before tick id) := by
  have hstaging : Staging s dest (Gentle s dest before tick) (Spare s dest before) :=
    staging_gentle hothers
  have hbuilding := hstaging.building hname
  refine ends_spec_bind (spec_mapError (hbuilding.toSteady.childState dest)) (fun state => ?_)
    fun _ _ hfs => hfs.1
  by_cases habsent : state = .absent
  · rw [if_pos habsent]
    refine ends_spec_bind (spec_mapError (spec_renameInto hparent hname
      (P := Gentle s dest before tick) (fun _ hfs => hfs) (fun _ call hfs => hfs.turn hothers call)
      fun _ _ _ hgentle _ => hgentle)) (fun _ => ?_) fun _ _ hfs => hfs
    exact ends_pure fun _ hfs => ⟨hfs, fun b hb => absurd hb (by simp)⟩
  · rw [if_neg habsent]
    refine ends_spec_bind (spec_installOverExisting hothers hparent hname destination)
      (fun backup => ?_) fun _ _ hfs => hfs
    refine ends_pure fun _ hfs => ⟨hfs.1.gentle, fun b hb => ?_⟩
    obtain rfl := Option.some.inj hb
    exact ⟨hfs.2, hfs.1.setAside⟩

end Install

theorem ends_installTree_gentle (hothers : Within s dest before) {codecs : Codecs} {store : Files}
    {lowercase : Char → List Char} (snapshot : Snapshot) {destination : Bytes}
    (hname : fileName? destination = some dest) (options : MaterializeOptions) :
    Ends (Gentle s dest before tick)
      (installTree s codecs store lowercase snapshot destination options)
      (LeavesGentle s dest before tick (·.2)) := by
  have hstaging : Staging s dest (Gentle s dest before tick) (Spare s dest before) :=
    staging_gentle hothers
  refine hstaging.ends_installTree snapshot hname options (fun _ _ hfs => hfs)
    (fun name hname _ => hstaging.undisturbed hname) ?_
  intro temporary report hspare _ fs hfs
  have hinstall : Ends _ (install s ⟨parentOf destination, []⟩ temporary dest destination)
      (LeavesGentle s dest before tick id) := ends_install_gentle hothers rfl hspare destination
  have hends := hinstall fs hfs
  rcases hexec : exec (install s ⟨parentOf destination, []⟩ temporary dest destination) fs
    with ⟨error | backup, fs'⟩
  · rw [hexec] at hends
    exact hends
  · rw [hexec] at hends
    exact hends

/-! ### The removal of the backup -/

section Settle

variable (hothers : Within s dest before) {b : Name} (hb : Aside s dest before b)
include hothers

theorem steady_backed : Steady s (Backed s dest before tick b) where
  turn call hfs := hfs.turn hothers call
  count sequence hfs := ⟨hfs.gentle.count sequence, hfs.setAside.moved, hfs.setAside.directory⟩

include hb

/-- Once something has been done without care, the backup is nobody's concern. -/
theorem undisturbed_careless : Undisturbed s b fun fs =>
    Gentle s dest before tick fs ∧ ¬ Careful dest (carriedOut s tick fs.calls) where
  turn call hfs := ⟨hfs.1.turn hothers call,
    fun hcareful => hfs.2 (hcareful.mono (carriedOut_subset_turn hfs.1.clock call))⟩
  count sequence hfs := ⟨hfs.1.count sequence, hfs.2⟩
  beneath hfs hroot := ⟨hfs.1.change (fun n _ _ hnode => hroot n (ne_of_unused hb.unused hnode))
    fun hcareful => absurd hcareful hfs.2, hfs.2⟩

omit hb in
/-- A backup that holds something is only listed without care. -/
theorem spec_listBackup : Spec (Backed s dest before tick b) (readDirectory s [b])
    (fun names fs => Backed s dest before tick b fs
      ∧ (Careful dest (carriedOut s tick fs.calls) → names = [])) (Gentle s dest before tick) := by
  refine spec_inspectAt (fun fs hfs => (hfs.turn hothers _).gentle)
    fun fs entries names hfs hfaultless henter hnames => ⟨hfs.turn hothers _, fun hcareful => ?_⟩
  obtain rfl := Except.ok.inj hnames
  have hmet := hfs.turn hothers (.readDirectory [b])
  have hnothing := hcareful.2 _
    (mem_carriedOut_turn hfs.gentle.clock (.readDirectory [b]) hfaultless) b rfl
    hmet.setAside.moved
  rcases hget : (fs.turn s (.readDirectory [b])).root.get? b with _ | (content | ⟨mode, beneath⟩)
  · simp [Dir.enter, hget] at henter
  · simp [Dir.enter, hget] at henter
  · obtain ⟨mode', heq⟩ := isEmptyDirectory_iff.mp (hnothing _ hget)
    obtain ⟨rfl, rfl⟩ := FileTree.Node.directory.inj heq
    have hentries : entries = .nil := by simpa [Dir.enter, hget] using henter.symm
    rw [hentries]
    rfl

/-- The removal of the emptied backup: what has been put there since it was listed stays. -/
theorem spec_rmdirBackup : Spec (Backed s dest before tick b) (rmdirAt s [] b)
    (fun _ => Gentle s dest before tick) (Gentle s dest before tick) := by
  refine spec_changeAt (fun fs hfs => (hfs.turn hothers _).gentle)
    fun fs entries entries' hfs _ henter hresult => ?_
  obtain rfl := Option.some.inj henter
  have hmet := hfs.turn hothers (.rmdir ([] ++ [b]))
  rcases hget : (fs.turn s (.rmdir ([] ++ [b]))).root.get? b with _ | (_ | ⟨mode, beneath⟩) <;>
    simp only [hget] at hresult
  · exact absurd hresult (by simp)
  · exact absurd hresult (by simp)
  · by_cases hempty : (FileTree.Node.directory mode beneath : Entry).isEmptyDirectory = true
    · rw [if_pos hempty] at hresult
      obtain rfl := Except.ok.inj hresult
      refine hmet.gentle.change (fun n _ node hnode =>
        Dir.get?_erase_of_ne _ (ne_of_unused hb.unused hnode)) fun _ => ⟨?_, fun b' hb' => ?_⟩
      · show Retains _ (Dir.get? (Dir.erase _ b) dest)
        rw [Dir.get?_erase_of_ne _ hb.ne.symm]
        exact Retains.refl _
      · by_cases heq : b' = b
        · rw [heq, hget]
          exact Or.inl (Or.inl fun node hnode => Option.some.inj hnode ▸ hempty)
        · show Retains _ (Dir.get? (Dir.erase _ b) b') ∨ _
          rw [Dir.get?_erase_of_ne _ heq]
          exact Or.inl (Retains.refl _)
    · rw [if_neg hempty] at hresult
      exact absurd hresult (by simp)

/-- A backup that is no directory has not been moved aside with care. -/
theorem spec_unlinkBackup : Spec (Backed s dest before tick b) (unlinkAt s [] b)
    (fun _ => Gentle s dest before tick) (Gentle s dest before tick) := by
  refine spec_changeAt (fun fs hfs => (hfs.turn hothers _).gentle)
    fun fs entries entries' hfs _ henter hresult => ?_
  obtain rfl := Option.some.inj henter
  have hmet := hfs.turn hothers (.unlink ([] ++ [b]))
  rcases hget : (fs.turn s (.unlink ([] ++ [b]))).root.get? b with _ | (_ | ⟨mode, beneath⟩) <;>
    simp only [hget] at hresult
  · exact absurd hresult (by simp)
  · obtain rfl := Except.ok.inj hresult
    refine hmet.gentle.change (fun n _ node hnode =>
      Dir.get?_erase_of_ne _ (ne_of_unused hb.unused hnode)) fun hcareful => ?_
    obtain ⟨mode, beneath, hdirectory⟩ := hmet.setAside.directory hcareful
    rw [hget] at hdirectory
    exact absurd hdirectory (by simp)
  · exact absurd hresult (by simp)

theorem spec_removeLeafBackup (display : Bytes) :
    Spec (Backed s dest before tick b) (removeLeafAt s [] b display)
      (fun _ => Gentle s dest before tick) (Gentle s dest before tick) := by
  refine spec_bind (Q := fun _ => Gentle s dest before tick) (spec_outcome
    ((spec_unlinkBackup hothers hb).imp (fun _ hfs => hfs) (fun _ _ hfs => hfs)
      fun _ hfs _ => hfs)) fun unlinked => ?_
  rcases unlinked with (_ | _) | _
  all_goals first | exact spec_pure fun _ hfs => hfs | exact spec_throw fun _ hfs => hfs

/-- **The removal of the backup.** -/
theorem spec_removeBackup (remaining : Nat) (display : Bytes) :
    Spec (Backed s dest before tick b) (removeEntryAt s remaining [] b display)
      (fun _ => Gentle s dest before tick) (Gentle s dest before tick) := by
  have hopen : Spec (Backed s dest before tick b) (openDirectoryAt s [] b)
      (fun _ => Backed s dest before tick b) (Backed s dest before tick b) :=
    (steady_backed hothers).inspectAt
  have hopened : Spec (Backed s dest before tick b)
      (outcome (openDirectoryAt s [] b) : PlatformCall (Except Errno Unit))
      (fun _ => Backed s dest before tick b) (Gentle s dest before tick) :=
    spec_outcome (hopen.imp (fun _ hfs => hfs) (fun _ _ hfs => hfs) fun _ hfs _ => hfs)
  cases remaining with
  | zero =>
    unfold removeEntryAt
    refine spec_bind hopened fun opened => ?_
    rcases opened with (_ | _) | _
    case error.ENOENT => exact spec_pure fun _ hfs => hfs.gentle
    case error.ENOTDIR => exact spec_removeLeafBackup hothers hb display
    all_goals exact spec_throw fun _ hfs => hfs.gentle
  | succ remaining =>
    unfold removeEntryAt
    refine spec_bind hopened fun opened => ?_
    rcases opened with (_ | _) | _
    case error.ENOENT => exact spec_pure fun _ hfs => hfs.gentle
    case error.ENOTDIR => exact spec_removeLeafBackup hothers hb display
    case ok =>
      refine spec_bind (spec_mapError (spec_listBackup hothers)) fun names => ?_
      rcases names with _ | ⟨child, names⟩
      · -- nothing is beneath the directory
        refine spec_bind (Q := fun _ => Backed s dest before tick b)
          (spec_pure fun _ hfs => hfs.1) fun _ => ?_
        refine spec_bind (Q := fun _ => Backed s dest before tick b)
          (spec_mapError (hopen.imp (fun _ hfs => hfs) (fun _ _ hfs => hfs)
            fun _ hfs => hfs.gentle)) fun _ => ?_
        exact spec_mapError (spec_rmdirBackup hothers hb)
      · -- something is, so it was listed without care
        have hcareless : Undisturbed s b fun fs => Gentle s dest before tick fs
            ∧ ¬ Careful dest (carriedOut s tick fs.calls) := undisturbed_careless hothers hb
        refine Spec.imp (E := fun fs => Gentle s dest before tick fs
          ∧ ¬ Careful dest (carriedOut s tick fs.calls)) (keeps_bind (keeps_forM (fun child =>
            hcareless.removeEntryAt remaining ?_) _) fun _ => keeps_bind
              (keeps_mapError hcareless.inspectAt) fun _ => keeps_mapError (hcareless.rmdirAt rfl))
          (fun fs hfs => ⟨hfs.1.gentle, fun hcareful => absurd (hfs.2 hcareful) (by simp)⟩)
          (fun _ _ hfs => hfs.1) fun _ hfs => hfs.1
        rfl
    all_goals exact spec_throw fun _ hfs => hfs.gentle

end Settle

theorem spec_settle_gentle (hothers : Within s dest before) {parent : DirectoryRoot}
    (hparent : parent.location = []) {backup : Option Name} :
    Spec (fun fs => Gentle s dest before tick fs ∧ ∀ b, backup = some b →
      Aside s dest before b ∧ SetAside s dest tick b fs) (settle s parent backup)
      (fun _ => Gentle s dest before tick) (Gentle s dest before tick) := by
  have hstaging : Staging s dest (Gentle s dest before tick) (Spare s dest before) :=
    staging_gentle hothers
  have hsync : Keeps (Gentle s dest before tick) (platform (parent.sync s)) :=
    keeps_mapError hstaging.sync
  cases backup with
  | none => exact hsync.imp (fun _ hfs => hfs.1) (fun _ _ hfs => hfs) fun _ hfs => hfs
  | some b =>
    refine spec_bind (Q := fun _ => Gentle s dest before tick) (spec_mapError ?_) fun _ => hsync
    rintro fs ⟨hfs, hbackup⟩
    obtain ⟨hb, haside⟩ := hbackup b rfl
    have hremove : Spec (Backed s dest before tick b) (parent.removeChild s b)
        (fun _ => Gentle s dest before tick) (Gentle s dest before tick) := by
      refine spec_singleComponent (fun _ hfs => hfs.gentle) ?_
      rw [hparent]
      exact spec_removeBackup hothers hb _ _
    exact hremove fs ⟨hfs, haside⟩

theorem keeps_materialize_gentle (hothers : Within s dest before) (codecs : Codecs) (store : Files)
    (lowercase : Char → List Char) (snapshot : Snapshot) {destination : Bytes}
    (hname : fileName? destination = some dest) (options : MaterializeOptions) :
    Keeps (Gentle s dest before tick)
      (materialize s codecs store lowercase snapshot destination options) := by
  refine spec_bind (Q := fun installed fs => Gentle s dest before tick fs
    ∧ ∀ b, installed.2 = some b → Aside s dest before b ∧ SetAside s dest tick b fs) ?_
    fun installed => ?_
  · intro fs hfs
    have htree : Ends (Gentle s dest before tick)
        (installTree s codecs store lowercase snapshot destination options)
        (LeavesGentle s dest before tick (·.2)) := ends_installTree_gentle hothers snapshot hname
          options
    have hends := htree fs hfs
    rcases hexec : exec (installTree s codecs store lowercase snapshot destination options) fs
      with ⟨error | installed, fs'⟩
    · rw [hexec] at hends
      exact hends
    · rw [hexec] at hends
      exact hends
  · exact spec_bind (spec_settle_gentle hothers rfl) fun _ => keeps_pure _

/-! ### The whole operation -/

/-- **Materialization loses nothing**, as long as what it moves aside holds nothing, and still
does when it is listed: whatever stood at or beneath the destination at any moment, what was put
into the directory moved aside from it, and every other entry beside it, is there at every later
moment. -/
theorem materialize_preserves (s : Surroundings) (codecs : Codecs) (store : Files)
    (lowercase : Char → List Char) (snapshot : Snapshot) (destination : Bytes) (dest : Name)
    (options : MaterializeOptions) (root : Directory) (tick sequence : Nat)
    (hname : fileName? destination = some dest) (hothers : Within s dest root)
    (hcareful : Careful dest (carriedOut s tick (exec (materialize s codecs store lowercase snapshot
      destination options) ⟨root, tick, sequence, []⟩).2.calls)) :
    Preserved s dest root (exec (materialize s codecs store lowercase snapshot destination options)
      ⟨root, tick, sequence, []⟩).2 := by
  have hfirst : Gentle s dest root tick ⟨root, tick, sequence, []⟩ := by
    refine ⟨rfl, fun root' hroot n _ node hnode => ?_, fun _ => ?_⟩
    · rw [List.mem_singleton.mp hroot]
      exact hnode
    · exact List.pairwise_pair.mpr (Kept.refl root)
  have hkeeps : Keeps (Gentle s dest root tick)
      (materialize s codecs store lowercase snapshot destination options) :=
    keeps_materialize_gentle hothers codecs store lowercase snapshot hname options
  have hlast := hkeeps.state hfirst
  exact ⟨hlast.siblings, hlast.kept hcareful⟩

namespace Sample

/-- An empty directory `out`. -/
def emptyWorkspace : Directory := .directory (utf8 "out") 0o755 .nil .nil

/-- Another process writes files, each before the call with its number. -/
def writing (creations : List (Nat × List Name)) : Surroundings where
  fails _ := false
  written _ := 0
  others tick := creations.filterMap fun created =>
    if created.1 = tick then some (created.2, .leaf (.file 0o644 [1])) else none
  processId := 7

theorem writing_within {creations : List (Nat × List Name)} {before : Directory}
    (h : ∀ created ∈ creations, created.2.head? = some (utf8 "out") ∨ ∃ b first rest,
      Aside (writing creations) (utf8 "out") before b ∧ created.2 = b :: first :: rest) :
    Within (writing creations) (utf8 "out") before := by
  intro tick made hmade
  obtain ⟨created, hcreated, hmade⟩ := List.mem_filterMap.mp hmade
  split at hmade
  · rw [← Option.some.inj hmade]
    exact h created hcreated
  · exact absurd hmade (by simp)

end Sample

/-- Two files are written once the tree is at the destination: the one there, and the other
through a handle into the directory moved aside, after that has been listed.  Its removal is
refused then. -/
theorem materialize_preserves_late :
    Preserved (Sample.writing [(11, [utf8 "out", utf8 "b"]),
      (13, [utf8 ".rewind-out.old-7-1", utf8 "c"])]) (utf8 "out") Sample.emptyWorkspace
      (exec (materialize (Sample.writing [(11, [utf8 "out", utf8 "b"]),
        (13, [utf8 ".rewind-out.old-7-1", utf8 "c"])]) Sample.codecs [] (fun c => [c.toLower])
        Sample.emptySnapshot (utf8 "/work/out") ⟨false, 100⟩)
        ⟨Sample.emptyWorkspace, 0, 0, []⟩).2 :=
  materialize_preserves (Sample.writing [(11, [utf8 "out", utf8 "b"]),
      (13, [utf8 ".rewind-out.old-7-1", utf8 "c"])]) Sample.codecs [] (fun c => [c.toLower])
    Sample.emptySnapshot (utf8 "/work/out") (utf8 "out") ⟨false, 100⟩ Sample.emptyWorkspace 0 0
    (by decide) (Sample.writing_within (List.forall_mem_cons.mpr ⟨Or.inl rfl,
      List.forall_mem_singleton.mpr (Or.inr ⟨utf8 ".rewind-out.old-7-1", utf8 "c", [],
        ⟨rfl, 1, by decide +kernel⟩, rfl⟩)⟩)) (by decide +kernel)

/-- The file is written between the second look at the destination and the move: it is removed
with the backup, without an error. -/
theorem materialize_not_always_preserves :
    ¬ ∀ (s : Surroundings) (codecs : Codecs) (store : Files) (lowercase : Char → List Char)
      (snapshot : Snapshot) (destination : Bytes) (dest : Name) (options : MaterializeOptions)
      (root : Directory) (tick sequence : Nat), options.force = false →
      fileName? destination = some dest → Within s dest root →
      Preserved s dest root (exec (materialize s codecs store lowercase snapshot destination
        options) ⟨root, tick, sequence, []⟩).2 := by
  intro hall
  have hpreserved := hall (Sample.writing [(8, [utf8 "out", utf8 "b"])]) Sample.codecs []
    (fun c => [c.toLower]) Sample.emptySnapshot (utf8 "/work/out") (utf8 "out") ⟨false, 100⟩
    Sample.emptyWorkspace 0 0 rfl (by decide)
    (Sample.writing_within (List.forall_mem_singleton.mpr (Or.inl rfl)))
  -- what the move has met is not there any more
  let written : Directory :=
    .directory (utf8 "out") 0o755 (.leaf (utf8 "b") (.file 0o644 [1]) .nil)
      (.directory (utf8 ".rewind-out.tmp-7-0") 0o700 .nil .nil)
  have hmoved : (Syscall.rename [utf8 "out"] [utf8 ".rewind-out.old-7-1"], written) ∈
      (exec (materialize (Sample.writing [(8, [utf8 "out", utf8 "b"])]) Sample.codecs []
        (fun c => [c.toLower]) Sample.emptySnapshot (utf8 "/work/out") ⟨false, 100⟩)
        ⟨Sample.emptyWorkspace, 0, 0, []⟩).2.calls := by decide +kernel
  have hnothing := (hpreserved.last hmoved).destination.holdsNothing (by decide +kernel)
  exact absurd hnothing (by decide)

end Rewind
