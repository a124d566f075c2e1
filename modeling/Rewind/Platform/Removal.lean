/-
When a removal succeeds.

Where no other process acts, the recursive removal of an entry makes a number of calls that
the tree alone decides.  It succeeds exactly if the tree is not too deep and none of these
calls fails (`completes_removeChild`).
-/
import Rewind.Platform.Filesystem

namespace Rewind

open FileTree Call

/-! ### Completion -/

/-- None of the `n` calls from `tick` on fails. -/
def Faultless (s : Surroundings) (tick n : Nat) : Prop := ∀ t, tick ≤ t → t < tick + n
    → s.fails t = false

theorem faultless_add {s : Surroundings} {tick m n : Nat} :
    Faultless s tick (m + n) ↔ Faultless s tick m ∧ Faultless s (tick + m) n := by
  constructor
  · intro h
    exact ⟨fun t hle hlt => h t hle (by omega), fun t hle hlt => h t (by omega) (by omega)⟩
  · rintro ⟨hfirst, hrest⟩ t hle hlt
    by_cases hm : t < tick + m
    · exact hfirst t hle hm
    · exact hrest t (by omega) (by omega)

theorem faultless_one {s : Surroundings} {tick : Nat} : Faultless s tick 1
    ↔ s.fails tick = false := by
  constructor
  · intro h
    exact h tick (Nat.le_refl tick) (by omega)
  · intro h t hle hlt
    obtain rfl : t = tick := by omega
    exact h

/-- The call returns `a` after `n` steps and leaves `root`, exactly if `p` holds and none of
the steps fails. -/
structure Completes {ε α : Type} (s : Surroundings) (m : Call FileSystem ε α) (fs : FileSystem)
    (n : Nat) (p : Prop) (root : Directory) (a : α) : Prop where
  of_faultless : p → Faultless s fs.tick n →
    ∃ calls, exec m fs = (.ok a, ⟨root, fs.tick + n, fs.sequence, calls⟩)
  faultless : ∀ b, (exec m fs).1 = .ok b → p ∧ Faultless s fs.tick n

section Completes

variable {s : Surroundings} {ε ε' α β : Type} {fs : FileSystem} {m n : Nat} {p q : Prop}
variable {root root' : Directory} {a : α} {b : β}

theorem completes_pure (a : α) :
    Completes s (pure a : Call FileSystem ε α) fs 0 True fs.root a where
  of_faultless _ _ := ⟨fs.calls, rfl⟩
  faultless _ _ := ⟨trivial, fun t hle hlt => by omega⟩

/-- What never returns. -/
theorem completes_false {x : Call FileSystem ε α} (h : ∀ b, (exec x fs).1 ≠ .ok b) :
    Completes s x fs n False root a where
  of_faultless hp := hp.elim
  faultless b hb := absurd hb (h b)

theorem Completes.congr {x : Call FileSystem ε α} (h : Completes s x fs n p root a) (hpq : p ↔ q) :
    Completes s x fs n q root a where
  of_faultless hq := h.of_faultless (hpq.mpr hq)
  faultless b hb := (h.faultless b hb).imp_left hpq.mp

theorem Completes.mapError {f : ε → ε'} {x : Call FileSystem ε α}
    (h : Completes s x fs n p root a) : Completes s (Call.mapError f x) fs n p root a where
  of_faultless hp hfaultless := by
    obtain ⟨calls, hexec⟩ := h.of_faultless hp hfaultless
    refine ⟨calls, ?_⟩
    rw [Call.mapError, exec_ofFun, hexec]
    rfl
  faultless b hb := by
    refine h.faultless b ?_
    rw [Call.mapError, exec_ofFun] at hb
    exact Except.mapError_eq_ok_iff.mp hb

theorem Completes.bind {x : Call FileSystem ε α} {f : α → Call FileSystem ε β}
    (hx : Completes s x fs m p root a)
    (hf : ∀ calls, Completes s (f a) ⟨root, fs.tick + m, fs.sequence, calls⟩ n q root' b) :
    Completes s (x >>= f) fs (m + n) (p ∧ q) root' b where
  of_faultless hpq hfaultless := by
    obtain ⟨hfirst, hrest⟩ := faultless_add.mp hfaultless
    obtain ⟨calls, hexec⟩ := hx.of_faultless hpq.1 hfirst
    obtain ⟨calls', hexec'⟩ := (hf calls).of_faultless hpq.2 hrest
    refine ⟨calls', ?_⟩
    rw [exec_bind_ok hexec, hexec', Nat.add_assoc]
  faultless c hc := by
    rw [exec_bind] at hc
    rcases hexec : exec x fs with ⟨e | a', t⟩
    · rw [hexec] at hc
      exact absurd hc (by simp)
    · obtain ⟨hp, hfirst⟩ := hx.faultless a' (by rw [hexec])
      obtain ⟨calls, hexec'⟩ := hx.of_faultless hp hfirst
      rw [hexec'] at hc
      obtain ⟨hq, hrest⟩ := (hf calls).faultless c hc
      exact ⟨⟨hp, hq⟩, faultless_add.mpr ⟨hfirst, hrest⟩⟩

theorem exec_syscall_alone (call : Syscall) (f : Directory → Except Errno (α × Directory)) :
    exec (syscall s.alone call f) fs =
      if s.fails fs.tick then
        (.error Errno.EIO, fs.turn s.alone call)
      else
        match f fs.root with
        | .ok (a, root) => (.ok a, { fs.turn s.alone call with root })
        | .error e => (.error e, fs.turn s.alone call) := rfl

theorem completes_syscall {call : Syscall} {f : Directory → Except Errno (α × Directory)}
    (hf : f fs.root = .ok (a, root)) : Completes s (syscall s.alone call f) fs 1 True root a where
  of_faultless _ hfaultless := by
    refine ⟨(fs.turn s.alone call).calls, ?_⟩
    rw [exec_syscall_alone, faultless_one.mp hfaultless, hf]
    rfl
  faultless b hb := by
    rw [exec_syscall_alone] at hb
    refine ⟨trivial, faultless_one.mpr ?_⟩
    by_cases hfails : s.fails fs.tick = true
    · rw [if_pos hfails] at hb
      exact absurd hb (by simp)
    · exact Bool.eq_false_iff.mpr hfails

/-- A `match` on the result of a step whose failure is an error of the whole. -/
theorem completes_outcome_bind {call : Syscall} {f : Directory → Except Errno (α × Directory)}
    {k : Except Errno α → Call FileSystem ε β}
    (hfail : ∀ fs b, (exec (k (.error Errno.EIO)) fs).1 ≠ .ok b)
    (hk : ∀ calls, Completes s (k ((f fs.root).map (·.1)))
      ⟨((f fs.root).map (·.2)).toOption.getD fs.root, fs.tick + 1, fs.sequence, calls⟩ n p root b) :
    Completes s (outcome (syscall s.alone call f) >>= k) fs (1 + n) p root b where
  of_faultless hp hfaultless := by
    obtain ⟨hfirst, hrest⟩ := faultless_add.mp hfaultless
    rw [exec_bind, exec_outcome, exec_syscall_alone, faultless_one.mp hfirst]
    have hnext := fun calls => (hk calls).of_faultless hp hrest
    rcases hf : f fs.root with e | ⟨a, root'⟩ <;> simp only [hf] at hnext ⊢ <;>
      obtain ⟨calls, hexec⟩ := hnext _ <;>
      exact ⟨calls, by rw [Nat.add_assoc] at hexec; exact hexec⟩
  faultless c hc := by
    rw [exec_bind, exec_outcome, exec_syscall_alone] at hc
    by_cases hfails : s.fails fs.tick = true
    · rw [if_pos hfails] at hc
      exact absurd hc (hfail _ c)
    · rw [if_neg hfails] at hc
      have hfirst := faultless_one.mpr (Bool.eq_false_iff.mpr hfails)
      have hnext := fun calls => (hk calls).faultless c
      rcases hf : f fs.root with e | ⟨a, root'⟩ <;> simp only [hf] at hnext hc <;>
        obtain ⟨hp, hrest⟩ := hnext _ hc <;> exact ⟨hp, faultless_add.mpr ⟨hfirst, hrest⟩⟩

end Completes

/-! ### Trees that can be removed -/

/-- The entry has at most `remaining` directories one in the other. -/
def Fits : Nat → Option Entry → Prop
  | _, none | _, some (.leaf _) => True
  | 0, some (.directory ..) => False
  | remaining + 1, some (.directory _ entries) => ∀ n ∈ entries.names,
      Fits remaining (entries.get? n)

/-- The calls a removal makes. -/
def removalSteps : Nat → Option Entry → Nat
  | _, none => 1
  | _, some (.leaf _) => 2
  | 0, some (.directory ..) => 1
  | remaining + 1, some (.directory _ entries) =>
    1 + (1 + ((entries.names.map fun n => removalSteps remaining (entries.get? n)).sum + (1 + 1)))

section Removal

variable {s : Surroundings} {fs : FileSystem} {location : List Name} {entries : Directory}

/-- What opening an entry as a directory gives. -/
def openResult : Option Entry → Except Errno Unit
  | none => .error .ENOENT
  | some (.leaf _) => .error .ENOTDIR
  | some (.directory ..) => .ok ()

theorem completes_openDirectoryAt_bind {ε β : Type} {name : Name}
    {k : Except Errno Unit → Call FileSystem ε β} {n : Nat} {p : Prop} {root : Directory} {b : β}
    (henter : fs.root.enter location = some entries)
    (hfail : ∀ fs b, (exec (k (.error Errno.EIO)) fs).1 ≠ .ok b)
    (hk : ∀ calls, Completes s (k (openResult (entries.get? name)))
      ⟨fs.root, fs.tick + 1, fs.sequence, calls⟩ n p root b) :
    Completes s (outcome (openDirectoryAt s.alone location name) >>= k) fs (1 + n) p root b := by
  refine completes_outcome_bind hfail fun calls => ?_
  have hnext := hk calls
  simp only [henter]
  rcases hget : entries.get? name with _ | (content | ⟨mode, beneath⟩)
  all_goals
    rw [hget] at hnext
    exact hnext

theorem completes_changeAt {call : Syscall} {f : Directory → Except Errno Directory}
    {g : Directory → Directory} (henter : fs.root.enter location = some entries)
    (hf : f entries = .ok (g entries)) :
    Completes s (changeAt s.alone call location f) fs 1 True (fs.root.modify g location) () := by
  have hroot : fs.root.modify (fun _ => g entries) location = fs.root.modify g location :=
    Dir.modify_congr henter rfl
  refine completes_syscall ?_
  simp only [henter, hf, Except.map, hroot]

theorem completes_removeLeafAt {name : Name} {display : Bytes} {content : Leaf}
    (henter : fs.root.enter location = some entries)
    (hget : entries.get? name = some (.leaf content)) :
    Completes s (removeLeafAt s.alone location name display) fs 1 True
      (fs.root.modify (·.erase name) location) () := by
  refine completes_outcome_bind (n := 0) (fun fs b => nofun) fun calls => ?_
  have hroot : fs.root.modify (fun _ => entries.erase name) location
      = fs.root.modify (·.erase name) location := Dir.modify_congr henter rfl
  simp only [henter, hget, Except.map, Except.toOption, Option.getD_some, hroot]
  exact completes_pure ()

/-- The children of a directory, one removal after the other. -/
theorem completes_removeChildren {remaining : Nat} {display : Name → Bytes}
    (hremove : ∀ fs child entries, fs.root.enter location = some entries →
      Completes s (removeEntryAt s.alone remaining location child (display child)) fs
        (removalSteps remaining (entries.get? child)) (Fits remaining (entries.get? child))
        (fs.root.modify (·.erase child) location) ())
    (names : List Name) (hnames : names.Nodup) (henter : fs.root.enter location = some entries) :
    Completes s
      (names.forM fun child => removeEntryAt s.alone remaining location child (display child)) fs
      (names.map fun n => removalSteps remaining (entries.get? n)).sum
      (∀ n ∈ names, Fits remaining (entries.get? n))
      (fs.root.modify (fun entries => names.foldl Dir.erase entries) location) () := by
  induction names generalizing fs entries with
  | nil =>
    refine Completes.congr ?_ (p := True) (by simp)
    rw [Dir.modify_eq_self henter rfl]
    exact completes_pure ()
  | cons child names ih =>
    obtain ⟨hchild, hrest⟩ := List.nodup_cons.mp hnames
    -- the removal of the first leaves the others as they are
    have hothers : ∀ n ∈ names, (entries.erase child).get? n = entries.get? n := by
      intro n hn
      exact Dir.get?_erase_of_ne _ fun heq => hchild (heq ▸ hn)
    rw [List.map_cons, List.sum_cons]
    refine (Completes.bind (hremove fs child entries henter) (q := ∀ n ∈ names,
      Fits remaining (entries.get? n)) fun calls => ?_).congr ?_
    · have hnext := @ih ⟨fs.root.modify (·.erase child) location,
        fs.tick + removalSteps remaining (entries.get? child), fs.sequence, calls⟩
        (entries.erase child) hrest (by rw [Dir.enter_modify, henter]; rfl)
      rw [Dir.modify_modify] at hnext
      have hsum : (names.map fun n => removalSteps remaining ((entries.erase child).get? n))
          = names.map fun n => removalSteps remaining (entries.get? n) :=
        List.map_congr_left fun n hn => by rw [hothers n hn]
      rw [hsum] at hnext
      refine hnext.congr (forall₂_congr fun n hn => ?_)
      rw [hothers n hn]
    · rw [List.forall_mem_cons]

theorem completes_inspectAt {α : Type} {call : Syscall} {f : Directory → Except Errno α} {a : α}
    (henter : fs.root.enter location = some entries) (hf : f entries = .ok a) :
    Completes s (inspectAt s.alone call location f) fs 1 True fs.root a := by
  refine completes_syscall ?_
  simp only [henter, hf, Except.map]

theorem completes_openDirectoryAt {name : Name} {mode : UInt32} {beneath : Directory}
    (henter : fs.root.enter location = some entries)
    (hget : entries.get? name = some (.directory mode beneath)) :
    Completes s (openDirectoryAt s.alone location name) fs 1 True fs.root () :=
  completes_inspectAt henter (by rw [hget])

theorem completes_readDirectory (henter : fs.root.enter location = some entries) :
    Completes s (readDirectory s.alone location) fs 1 True fs.root entries.names :=
  completes_inspectAt henter rfl

/-- The removal of a directory that has been emptied. -/
theorem completes_rmdirAt {name : Name} {mode : UInt32}
    (henter : fs.root.enter location = some entries)
    (hget : entries.get? name = some (.directory mode .nil)) :
    Completes s (rmdirAt s.alone location name) fs 1 True
      (fs.root.modify (·.erase name) location) () := by
  refine completes_changeAt henter ?_
  rw [hget]
  rfl

/-- **The removal of an entry**: the calls it makes, and what it leaves. -/
theorem completes_removeEntryAt (remaining : Nat) (name : Name) (display : Bytes)
    (henter : fs.root.enter location = some entries) :
    Completes s (removeEntryAt s.alone remaining location name display) fs
      (removalSteps remaining (entries.get? name)) (Fits remaining (entries.get? name))
      (fs.root.modify (·.erase name) location) () := by
  induction remaining generalizing fs location name display entries with
  | zero =>
    unfold removeEntryAt
    rcases hget : entries.get? name with _ | (content | ⟨mode, beneath⟩)
    · rw [Dir.modify_eq_self henter (Dir.erase_eq_self hget)]
      refine completes_openDirectoryAt_bind (n := 0) henter (fun _ _ => Except.error_ne_ok)
        fun calls => ?_
      rw [hget]
      exact completes_pure ()
    · refine completes_openDirectoryAt_bind (n := 1) henter (fun _ _ => Except.error_ne_ok)
        fun calls => ?_
      rw [hget]
      exact completes_removeLeafAt henter hget
    · refine completes_openDirectoryAt_bind (n := 0) henter (fun _ _ => Except.error_ne_ok)
        fun calls => ?_
      rw [hget]
      exact completes_false fun _ => Except.error_ne_ok
  | succ remaining ih =>
    unfold removeEntryAt
    rcases hget : entries.get? name with _ | (content | ⟨mode, beneath⟩)
    · rw [Dir.modify_eq_self henter (Dir.erase_eq_self hget)]
      refine completes_openDirectoryAt_bind (n := 0) henter (fun _ _ => Except.error_ne_ok)
        fun calls => ?_
      rw [hget]
      exact completes_pure ()
    · refine completes_openDirectoryAt_bind (n := 1) henter (fun _ _ => Except.error_ne_ok)
        fun calls => ?_
      rw [hget]
      exact completes_removeLeafAt henter hget
    · refine completes_openDirectoryAt_bind henter (fun _ _ => Except.error_ne_ok) fun calls => ?_
      rw [hget]
      have hbeneath : fs.root.enter (location ++ [name]) = some beneath := by
        rw [Dir.enter_append, henter]
        simp only [Option.bind_some, Dir.enter, hget]
      obtain ⟨emptied, hemptied, hget', hroot⟩ := Dir.modify_erase_names henter hget
      rw [← hroot]
      dsimp only [openResult]
      refine Completes.congr (p := True ∧ (∀ n ∈ beneath.names,
        Fits remaining (beneath.get? n)) ∧ True ∧ True) ?_
          (by rw [and_true, and_true, true_and]; rfl)
      refine Completes.bind (?_ : Completes s _ _ 1 True fs.root beneath.names) fun calls => ?_
      · refine Completes.mapError ?_
        exact completes_readDirectory hbeneath
      refine Completes.bind (?_ : Completes s _ _ _ _ (fs.root.modify
        (fun es => beneath.names.foldl Dir.erase es) (location ++ [name])) ()) fun calls => ?_
      · exact completes_removeChildren (fun _ child _ h => ih child _ h) beneath.names
          beneath.allNames.nodup_dedup hbeneath
      refine Completes.bind (?_ : Completes s _ _ 1 True (fs.root.modify
        (fun es => beneath.names.foldl Dir.erase es) (location ++ [name])) ()) fun calls => ?_
      · refine Completes.mapError ?_
        exact completes_openDirectoryAt hemptied hget'
      · refine Completes.mapError ?_
        exact completes_rmdirAt hemptied hget'

/-- The removal of a child of the open directory. -/
theorem completes_removeChild {root : DirectoryRoot} (hroot : root.location = []) {name : Name}
    (hname : singleComponent name = .ok name) :
    Completes s (root.removeChild s.alone name) fs
      (removalSteps MAX_REMOVAL_DEPTH (fs.root.get? name))
      (Fits MAX_REMOVAL_DEPTH (fs.root.get? name)) (fs.root.erase name) () := by
  have hroot' : fs.root.enter [] = some fs.root := rfl
  unfold DirectoryRoot.removeChild
  rw [hname, hroot]
  exact completes_removeEntryAt MAX_REMOVAL_DEPTH name (joinPath root.path name) hroot'

end Removal

end Rewind
