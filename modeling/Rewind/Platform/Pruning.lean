/-
What a removal takes away.

A removal that follows no link takes away entries at and beneath its path and nothing else, whatever
stands there and wherever it fails; and when it succeeds, nothing is left there.

* `Pruned` — entries have gone where a removal may take them, and nowhere else;
* `spec_removeEntryAt` — the recursive removal;
* **`spec_removeRelativeEntry`** — the removal of a path beneath a root.
-/
import Rewind.Platform.Filesystem

namespace Rewind

open FileTree Call

/-! ### The removal of a path -/

section Removal

variable (s : Surroundings)

/-- The directories above an entry, opened one in the other from `location`; `none` when one of them
is absent or no directory. -/
def openAncestors (display : Bytes) : List Name → List Name → PlatformCall (Option (List Name))
  | location, [] => return some location
  | location, component :: rest => do
    match ← outcome (openDirectoryAt s location component) with
    | .ok () => openAncestors display (location ++ [component]) rest
    | .error .ENOENT | .error .ENOTDIR | .error .ELOOP => return none
    | .error error =>
      throw (.io "open ancestor directory without following symlinks" display error)

/-- `remove_relative_entry`. -/
def removeRelativeEntry (root : DirectoryRoot) (relative : Bytes) : PlatformCall Unit := do
  let components ← ofResult (relativeComponents relative)
  ioError "duplicate workspace root descriptor" root.path (touch s .elsewhere)
  let display := joinPath root.path relative
  match ← openAncestors s display root.location components.dropLast with
  | none => return ()
  | some location =>
    removeEntryAt s MAX_REMOVAL_DEPTH location (components.getLastD []) display

/-- `DirectoryRoot::open`, of the entry `name` of the directory at `parent`. -/
def openWorkspace (path : Bytes) (parent : List Name) (name : Name) :
    PlatformCall DirectoryRoot := do
  ioError "open workspace root without following symlinks" path (openDirectoryAt s parent name)
  return ⟨path, parent ++ [name]⟩

end Removal

/-! ### Pruned trees -/

/-- The paths at which a call changes entries. -/
def Syscall.changed : Syscall → List (List Name)
  | .mkdir path | .createFile path | .write path | .chmod path | .symlink path | .unlink path
  | .rmdir path => [path]
  | .rename source target => [source, target]
  | .stat _ | .lstat _ | .openDirectory _ | .readDirectory _ | .sync _ | .elsewhere => []

/-- Entries have gone, and calls have changed anything, only at paths within `within`. -/
structure Pruned (within : List Name → Prop) (before after : FileSystem) : Prop where
  kinds : ∀ path, after.root.kindAt path = before.root.kindAt path
    ∨ (within path ∧ after.root.kindAt path = none)
  calls : ∃ more, after.calls = before.calls ++ more
    ∧ ∀ call ∈ more, ∀ path ∈ call.1.changed, within path

section Pruned

variable {within within' : List Name → Prop} {before middle after : FileSystem}

theorem Pruned.refl (fs : FileSystem) : Pruned within fs fs where
  kinds _ := Or.inl rfl
  calls := ⟨[], (List.append_nil _).symm, fun _ h => absurd h List.not_mem_nil⟩

theorem Pruned.trans (h : Pruned within before middle) (h' : Pruned within middle after) :
    Pruned within before after where
  kinds := by
    intro path
    rcases h'.kinds path with hsame | hgone
    · rw [hsame]
      exact h.kinds path
    · exact Or.inr hgone
  calls := by
    obtain ⟨more, hcalls, hmore⟩ := h.calls
    obtain ⟨later, hcalls', hlater⟩ := h'.calls
    refine ⟨more ++ later, by rw [hcalls', hcalls, List.append_assoc], fun call hcall => ?_⟩
    rcases List.mem_append.mp hcall with hcall | hcall
    · exact hmore call hcall
    · exact hlater call hcall

theorem Pruned.mono (h : Pruned within before after)
    (hwithin : ∀ path, within path → within' path) :
    Pruned within' before after where
  kinds path := (h.kinds path).imp_right fun hgone => ⟨hwithin path hgone.1, hgone.2⟩
  calls := by
    obtain ⟨more, hcalls, hmore⟩ := h.calls
    exact ⟨more, hcalls, fun call hcall path hpath => hwithin path (hmore call hcall path hpath)⟩

/-- What has gone does not come back. -/
theorem Pruned.kindAt_eq_none (h : Pruned within before after) {path : List Name}
    (hnone : before.root.kindAt path = none) : after.root.kindAt path = none := by
  rcases h.kinds path with hsame | hgone
  · rw [hsame, hnone]
  · exact hgone.2

/-- What is not within is as it was. -/
theorem Pruned.kindAt_eq (h : Pruned within before after) {path : List Name}
    (hpath : ¬ within path) :
    after.root.kindAt path = before.root.kindAt path := by
  rcases h.kinds path with hsame | hgone
  · exact hsame
  · exact absurd hgone.1 hpath

variable {s : Surroundings} (hstatic : ∀ tick, s.others tick = [])
include hstatic

theorem root_turn_of_static (fs : FileSystem) (call : Syscall) :
    (fs.turn s call).root = fs.root := by
  rw [FileSystem.turn, hstatic]
  rfl

theorem Pruned.turn (h : Pruned within before after) {call : Syscall}
    (hcall : ∀ path ∈ call.changed, within path) : Pruned within before (after.turn s call) := by
  refine h.trans ⟨fun path => Or.inl ?_, [_], rfl, fun made hmade => ?_⟩
  · rw [root_turn_of_static hstatic]
  · rw [List.mem_singleton.mp hmade]
    exact hcall

/-- One entry less. -/
theorem Pruned.erase (h : Pruned within before after) {call : Syscall} {location : List Name}
    {name : Name} {entries : Directory} (hcall : ∀ path ∈ call.changed, within path)
    (hwithin : ∀ rest, within (location ++ name :: rest))
    (henter : (after.turn s call).root.enter location = some entries) :
    Pruned within before { after.turn s call with
        root := (after.turn s call).root.modify (fun _ => entries.erase name) location }
      ∧ ∀ rest, ((after.turn s call).root.modify (fun _ => entries.erase name) location).kindAt
        (location ++ name :: rest) = none := by
  have hturn := h.turn hstatic hcall
  have hmodify : (after.turn s call).root.modify (fun _ => entries.erase name) location
      = (after.turn s call).root.modify (·.erase name) location := Dir.modify_congr henter rfl
  have hkind := Dir.kindAt_modify_erase (after.turn s call).root location name
  rw [hmodify]
  refine ⟨hturn.trans ⟨fun path => ?_, [], (List.append_nil _).symm, ?_⟩, fun rest => ?_⟩
  · show ((after.turn s call).root.modify _ location).kindAt path = _ ∨ _
    rw [hkind]
    by_cases hinitial : location ++ [name] <+: path
    · obtain ⟨rest, rfl⟩ := hinitial
      rw [if_pos (List.prefix_append _ _), List.append_assoc]
      exact Or.inr ⟨hwithin rest, rfl⟩
    · rw [if_neg hinitial]
      exact Or.inl rfl
  · exact fun _ hmem => absurd hmem List.not_mem_nil
  · rw [hkind, if_pos]
    exact ⟨rest, by rw [List.append_assoc]; rfl⟩

/-! ### Removals -/

section Removals

variable {E : FileSystem → Prop} {ε : Type} {location : List Name} {name : Name}

/-- What the opening of a directory says of the entry. -/
theorem spec_outcome_openDirectoryAt (location : List Name) (name : Name) :
    Spec (Pruned within before)
      (outcome (openDirectoryAt s location name) : Call FileSystem ε (Except Errno Unit))
      (fun result fs => Pruned within before fs
        ∧ (result = .error .ENOENT → fs.root.kindAt (location ++ [name]) = none)
        ∧ (result = .error .ENOTDIR ∨ result = .error .ELOOP →
          ∃ content, fs.root.kindAt (location ++ [name]) = some (.leaf content))) E := by
  intro fs hfs
  have hturn : Pruned within before (fs.turn s (.openDirectory (location ++ [name]))) :=
    hfs.turn hstatic fun _ h => absurd h List.not_mem_nil
  have hroot := root_turn_of_static hstatic fs (.openDirectory (location ++ [name]))
  have hkind := Dir.kindAt_append fs.root location name []
  rw [exec_outcome, openDirectoryAt, inspectAt, syscall, exec_ofFun]
  by_cases hfails : s.fails fs.tick
  · simp only [hfails, if_true]
    exact ⟨hturn, by simp, by simp⟩
  · simp only [hfails, Bool.false_eq_true, if_false, hroot]
    rcases henter : fs.root.enter location with _ | entries
    · rw [henter, Option.bind_none] at hkind
      exact ⟨hturn, fun _ => by rw [hroot]; exact hkind, by simp⟩
    · rw [henter, Option.bind_some, Dir.kindAt] at hkind
      rcases hget : entries.get? name with _ | (content | ⟨mode, beneath⟩) <;>
        rw [hget] at hkind <;> simp only [hget, Except.map]
      · exact ⟨hturn, fun _ => by rw [hroot]; exact hkind, by simp⟩
      · exact ⟨hturn, by simp, fun _ => ⟨content, by rw [hroot]; exact hkind⟩⟩
      · refine ⟨?_, by simp, by simp⟩
        rw [← hroot]
        exact hturn

/-- A call that reads a directory takes nothing away. -/
theorem keeps_inspectAt {α : Type} {call : Syscall} (hcall : call.changed = [])
    (location : List Name)
    (f : Directory → Except Errno α) : Keeps (Pruned within before)
      (inspectAt s call location f) := by
  have hnone : ∀ path ∈ call.changed, within path := by
    intro path hpath
    rw [hcall] at hpath
    exact absurd hpath List.not_mem_nil
  exact spec_inspectAt (fun _ hfs => hfs.turn hstatic hnone) fun _ _ _ hfs _ _ _ =>
    hfs.turn hstatic hnone

variable (hwithin : ∀ rest, within (location ++ name :: rest))
include hwithin

theorem spec_outcome_unlinkAt :
    Spec (Pruned within before)
      (outcome (unlinkAt s location name) : Call FileSystem ε (Except Errno Unit))
      (fun result fs => Pruned within before fs ∧ (result = .ok () ∨ result = .error .ENOENT →
        ∀ rest, fs.root.kindAt (location ++ name :: rest) = none)) E := by
  intro fs hfs
  have hcall : ∀ path ∈ (Syscall.unlink (location ++ [name])).changed, within path := by
    intro path hpath
    rw [List.mem_singleton.mp hpath]
    exact hwithin []
  have hturn := hfs.turn (s := s) hstatic hcall
  have herase : ∀ entries, (fs.turn s (.unlink (location ++ [name]))).root.enter location = some
    entries →
      _ ∧ _ := fun entries => hfs.erase hstatic hcall hwithin
  have hroot := root_turn_of_static hstatic fs (.unlink (location ++ [name]))
  have hkind := Dir.kindAt_append fs.root location name
  rw [exec_outcome, unlinkAt, changeAt, syscall, exec_ofFun]
  by_cases hfails : s.fails fs.tick
  · simp only [hfails, if_true]
    exact ⟨hturn, by simp⟩
  · simp only [hfails, Bool.false_eq_true, if_false]
    rw [hroot] at herase ⊢
    rcases henter : fs.root.enter location with _ | entries
    · refine ⟨hturn, fun _ rest => ?_⟩
      rw [hroot, hkind, henter, Option.bind_none]
    · rcases hget : entries.get? name with _ | (content | ⟨mode, beneath⟩) <;>
        simp only [hget, Except.map]
      · refine ⟨hturn, fun _ rest => ?_⟩
        rw [hroot, hkind, henter, Option.bind_some, Dir.kindAt, hget, Option.bind_none]
      · exact ⟨(herase entries henter).1, fun _ => (herase entries henter).2⟩
      · exact ⟨hturn, by simp⟩

theorem spec_rmdirAt :
    Spec (Pruned within before) (rmdirAt s location name)
      (fun _ fs => Pruned within before fs ∧
        ∀ rest, fs.root.kindAt (location ++ name :: rest) = none) (Pruned within before) := by
  have hcall : ∀ path ∈ (Syscall.rmdir (location ++ [name])).changed, within path := by
    intro path hpath
    rw [List.mem_singleton.mp hpath]
    exact hwithin []
  refine spec_changeAt (fun _ hfs => hfs.turn hstatic hcall)
    fun fs entries entries' hfs _ henter hf => ?_
  have herased : entries' = entries.erase name := by
    rcases hget : entries.get? name with _ | (content | ⟨mode, beneath⟩) <;> rw [hget] at hf
    · exact absurd hf (by simp)
    · exact absurd hf (by simp)
    · simp only at hf
      split at hf
      · exact (Except.ok.inj hf).symm
      · exact absurd hf (by simp)
  rw [herased]
  exact hfs.erase hstatic hcall hwithin henter

theorem spec_removeLeafAt (display : Bytes) :
    Spec (Pruned within before) (removeLeafAt s location name display)
      (fun _ fs => Pruned within before fs ∧
        ∀ rest, fs.root.kindAt (location ++ name :: rest) = none) (Pruned within before) := by
  refine spec_bind (spec_outcome_unlinkAt hstatic hwithin) fun result => ?_
  rcases result with error | _
  · cases error
    case ENOENT => exact spec_pure fun fs h => ⟨h.1, h.2 (Or.inr rfl)⟩
    all_goals exact spec_throw fun fs h => h.1
  · exact spec_pure fun fs h => ⟨h.1, h.2 (Or.inl rfl)⟩

omit hwithin in
/-- The recursive removal of an entry: what it takes away is at or beneath the entry, and where it
succeeds nothing is left. -/
theorem spec_removeEntryAt (remaining : Nat) (location : List Name) (name : Name) (display : Bytes)
    (hwithin : ∀ rest, within (location ++ name :: rest)) :
    Spec (Pruned within before) (removeEntryAt s remaining location name display)
      (fun _ fs => Pruned within before fs ∧
        ∀ rest, fs.root.kindAt (location ++ name :: rest) = none) (Pruned within before) := by
  have habsent : ∀ fs : FileSystem, fs.root.kindAt (location ++ [name]) = none →
      ∀ rest, fs.root.kindAt (location ++ name :: rest) = none := by
    intro fs hnone rest
    have hbeneath := Dir.kindAt_append_of_none (by simp) hnone rest
    rwa [List.append_assoc] at hbeneath
  induction remaining generalizing location name display with
  | zero =>
    unfold removeEntryAt
    refine spec_bind (spec_outcome_openDirectoryAt hstatic location name) fun result => ?_
    rcases result with error | _
    · cases error
      case ENOENT => exact spec_pure fun fs h => ⟨h.1, habsent fs (h.2.1 rfl)⟩
      case ENOTDIR =>
        exact (spec_removeLeafAt hstatic hwithin display).imp (fun _ h => h.1) (fun _ _ h => h)
          fun _ h => h
      all_goals exact spec_throw fun fs h => h.1
    · exact spec_throw fun fs h => h.1
  | succ remaining ih =>
    unfold removeEntryAt
    refine spec_bind (spec_outcome_openDirectoryAt hstatic location name) fun result => ?_
    rcases result with error | _
    · cases error
      case ENOENT => exact spec_pure fun fs h => ⟨h.1, habsent fs (h.2.1 rfl)⟩
      case ENOTDIR =>
        exact (spec_removeLeafAt hstatic hwithin display).imp (fun _ h => h.1) (fun _ _ h => h)
          fun _ h => h
      all_goals exact spec_throw fun fs h => h.1
    · -- The entries of the directory go first, each with what is beneath it.
      have hchild : ∀ child, Keeps (Pruned within before)
          (removeEntryAt s remaining (location ++ [name]) child (joinPath display child)) := by
        intro child
        have hbeneath : ∀ rest, within (location ++ [name] ++ child :: rest) := by
          intro rest
          rw [List.append_assoc]
          exact hwithin (child :: rest)
        refine (ih (location ++ [name]) child _ hbeneath ?_).imp (fun _ h => h) (fun _ _ h => h.1)
          fun _ h => h
        intro fs hnone rest
        have hnext := Dir.kindAt_append_of_none (by simp) hnone rest
        rwa [List.append_assoc] at hnext
      refine spec_bind (Q := fun _ => Pruned within before) ?_ fun names => ?_
      · exact (keeps_mapError (keeps_inspectAt hstatic rfl _ _)).imp (fun _ h => h.1)
          (fun _ _ h => h)
          fun _ h => h
      refine spec_bind (Q := fun _ => Pruned within before) (keeps_forM hchild names) fun _ => ?_
      refine spec_bind (Q := fun _ => Pruned within before) ?_ fun _ => ?_
      · exact keeps_mapError (keeps_inspectAt hstatic rfl _ _)
      · exact spec_mapError (spec_rmdirAt hstatic hwithin)

omit hwithin in
/-- The directories above an entry are where their names say, or there is nothing beneath them. -/
theorem spec_openAncestors (display : Bytes) (location components : List Name) :
    Spec (Pruned within before) (openAncestors s display location components)
      (fun found fs => Pruned within before fs ∧ (∀ opened, found = some opened →
          opened = location ++ components)
        ∧ (found = none → ∀ name rest,
          fs.root.kindAt (location ++ components ++ name :: rest) = none))
            (Pruned within before) := by
  induction components generalizing location with
  | nil =>
    refine spec_pure fun fs h => ⟨h, fun opened hopened => ?_, fun hnone => absurd hnone (by simp)⟩
    rw [← Option.some.inj hopened, List.append_nil]
  | cons component rest ih =>
    have hassoc : location ++ component :: rest = (location ++ [component]) ++ rest := by
      rw [List.append_assoc]
      rfl
    refine spec_bind (spec_outcome_openDirectoryAt hstatic location component) fun result => ?_
    rcases result with error | _
    · have hleaf : ∀ fs : FileSystem, (∃ content, fs.root.kindAt (location ++ [component])
          = some (.leaf content)) → ∀ name later,
          fs.root.kindAt (location ++ component :: rest ++ name :: later) = none := by
        rintro fs ⟨content, hcontent⟩ name later
        rw [hassoc, List.append_assoc]
        obtain ⟨next, beneath, hnext⟩ : ∃ next beneath, rest ++ name :: later = next :: beneath :=
          List.exists_cons_of_ne_nil (by simp)
        rw [hnext]
        exact Dir.kindAt_append_of_leaf hcontent next beneath
      cases error
      case ENOENT =>
        refine spec_pure fun fs h => ⟨h.1, fun _ hopened => absurd hopened (by simp),
          fun _ name later => ?_⟩
        rw [hassoc, List.append_assoc]
        exact Dir.kindAt_append_of_none (by simp) (h.2.1 rfl) _
      case ENOTDIR =>
        exact spec_pure fun fs h => ⟨h.1, fun _ hopened => absurd hopened (by simp),
          fun _ => hleaf fs (h.2.2 (Or.inl rfl))⟩
      case ELOOP =>
        exact spec_pure fun fs h => ⟨h.1, fun _ hopened => absurd hopened (by simp),
          fun _ => hleaf fs (h.2.2 (Or.inr rfl))⟩
      all_goals exact spec_throw fun fs h => h.1
    · rw [hassoc]
      exact (ih (location ++ [component])).imp (fun _ h => h.1) (fun _ _ h => h) fun _ h => h

end Removals

omit hstatic in
theorem relativeComponents_eq_splitSlash {relative : Bytes} {components : List Name}
    (h : relativeComponents relative = .ok components) : components = splitSlash relative := by
  unfold relativeComponents at h
  split at h
  · exact absurd h (by simp)
  · have hall := List.mapM_eq_ok_iff.mp h
    refine (List.forall₂_eq_eq_eq ▸ hall.imp fun component component' hcomponent => ?_ :
      splitSlash relative = components).symm
    split at hcomponent
    · exact absurd hcomponent (by simp)
    · split at hcomponent
      · exact absurd hcomponent (by simp)
      · exact Except.ok.inj hcomponent

/-- **The removal of a path beneath a root** takes away what is at and beneath it, and nothing else;
and where it succeeds, nothing is left there that can be reached without following a link. -/
theorem spec_removeRelativeEntry {root : DirectoryRoot} {relative : Bytes}
    (hwithin : ∀ rest, within (root.location ++ splitSlash relative ++ rest)) :
    Spec (Pruned within before) (removeRelativeEntry s root relative)
      (fun _ fs => Pruned within before fs
        ∧ ∀ rest, fs.root.kindAt (root.location ++ splitSlash relative ++ rest) = none)
      (Pruned within before) := by
  refine spec_bind (spec_ofResult (Q := fun components fs => Pruned within before fs
    ∧ relativeComponents relative = .ok components) (fun _ h => h) fun components hresult fs h =>
      ⟨h, hresult⟩) fun components => ?_
  refine spec_and_right fun hresult => ?_
  obtain rfl := relativeComponents_eq_splitSlash hresult
  -- The path without its last component is that of the directory, which has the last as a name.
  obtain ⟨parents, name, hsplit⟩ : ∃ parents name, splitSlash relative = parents ++ [name] :=
    ⟨_, _, (List.dropLast_append_getLast (splitSlash_ne_nil relative)).symm⟩
  have hpath : ∀ rest, root.location ++ splitSlash relative ++ rest
      = root.location ++ parents ++ name :: rest := by
    intro rest
    simp only [hsplit, List.append_assoc, List.cons_append, List.nil_append]
  have hdrop : (splitSlash relative).dropLast = parents := by
    rw [hsplit, List.dropLast_concat]
  have hlast : (splitSlash relative).getLastD [] = name := by
    rw [hsplit, List.getLastD_concat]
  rw [hdrop, hlast]
  simp only [hpath] at hwithin ⊢
  refine spec_bind (Q := fun _ => Pruned within before) ?_ fun _ => ?_
  · refine spec_mapError (spec_syscall (fun fs h => ?_) fun fs _ root h _ hok => ?_)
    · exact h.turn hstatic fun _ hmem => absurd hmem List.not_mem_nil
    · obtain ⟨-, rfl⟩ := Prod.mk.inj (Except.ok.inj hok)
      exact h.turn hstatic fun _ hmem => absurd hmem List.not_mem_nil
  refine spec_bind (spec_openAncestors hstatic _ root.location parents) fun found => ?_
  rcases found with _ | location
  · exact spec_pure fun fs h => ⟨h.1, h.2.2 rfl name⟩
  · refine Spec.imp (P := fun fs => Pruned within before fs ∧ location = root.location ++ parents)
      (spec_and_right fun hlocation => ?_) (fun _ h => ⟨h.1, h.2.1 location rfl⟩) (fun _ _ h => h)
      fun _ h => h
    rw [hlocation]
    exact spec_removeEntryAt hstatic MAX_REMOVAL_DEPTH _ name _ hwithin

end Pruned

end Rewind
