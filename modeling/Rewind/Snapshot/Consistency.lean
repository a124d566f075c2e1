/-
Whether a scan shows a state that the tree has had.

Others may write while the scan is going on.  Each inode is verified after it has been read, but not
again at the end: a write to a file that has been verified goes unnoticed, and so the scan may put
together two states of the tree.

* `scan_torn` — a report of a state that the tree has never had;
* **`scan_consistent`** — the report is of one moment, as long as no inode that is still to be
  verified changes after one that has been verified.
-/
import Rewind.Snapshot.Exactness

namespace Rewind

open Call

namespace Scan

namespace Sample

/-- A write to a file that has not been written before. -/
def write (i : Nat) (content : Bytes) (g : Graph Nat) : Graph Nat := fun j =>
  if j = i ∧ (g i).times = times 0 then ⟨.file content, (g i).mode, times 1⟩ else g j

theorem later_write (i : Nat) (content : Bytes) (g : Graph Nat) : g.Later (write i content g) := by
  intro j
  unfold write
  by_cases h : j = i ∧ (g i).times = times 0
  · obtain ⟨rfl, htimes⟩ := h
    rw [if_pos ⟨rfl, htimes⟩]
    refine Or.inr ?_
    have hless : (times 0).changedSeconds.toInt < (times 1).changedSeconds.toInt := by decide
    rw [Inode.Older, htimes]
    exact Prod.Lex.toLex_lt_toLex.mpr (Or.inl hless)
  · rw [if_neg h]
    exact Or.inl rfl

/-- After `a/x` has been verified and before `b` is read, others write `a/x` and then `b/y`. -/
def torn : Interference Nat :=
  { still with others := fun tick => if tick = 27 then [write 3 [98], write 4 [98]] else [] }

theorem torn_advancing : torn.Advancing := by
  intro tick change hchange g
  rw [show torn.others tick = if tick = 27 then [write 3 [98], write 4 [98]] else [] from rfl]
    at hchange
  by_cases htick : tick = 27
  · rw [if_pos htick] at hchange
    rcases List.mem_cons.mp hchange with rfl | hchange
    · exact later_write 3 [98] g
    · rw [List.mem_singleton.mp hchange]
      exact later_write 4 [98] g
  · rw [if_neg htick] at hchange
    exact absurd hchange List.not_mem_nil

theorem torn_enumerates : torn.Enumerates := ⟨nextName_complete, nextName_once⟩

/-- The scan of the workspace while it is written. -/
def tornScan : Except (Stop Restore.SnapshotError) ScanReport × Scanner Nat :=
  exec (scanWorkspace torn codecs (fun c => [c]) ⟨[], 64⟩ [] 20 0) (.start workspace)

/-- The content of a file. -/
def contentOf (g : Graph Nat) (i : Nat) : Option Bytes :=
  match (g i).data with
  | .file content => some content
  | _ => none

/-- The object of the file that a report has at a path. -/
def objectAt (report : ScanReport) (names : List FileName) : Option ObjectId :=
  match report.snapshot.manifest.entries.find? (·.path.text = pathText names) with
  | some ⟨_, .file objectId _ _, _⟩ => some objectId
  | _ => none

/-- The report has the first content of `a/x` and the second one of `b/y`. -/
theorem tornScan_report : (tornScan.1.toOption.bind (objectAt · [nameA, nameX])) = some ⟨digestA⟩
    ∧ (tornScan.1.toOption.bind (objectAt · [nameB, nameY])) = some ⟨digestB⟩ := by
  decide +kernel

/-- The two contents have never been there together. -/
theorem tornScan_history : ∀ m ∈ tornScan.2.fs.history,
    leadsTo m.graph 0 [nameA, nameX] = some 3 ∧ leadsTo m.graph 0 [nameB, nameY] = some 4
      ∧ (contentOf m.graph 3 = some [98] ∨ contentOf m.graph 4 = some [97]) := by
  decide +kernel

end Sample

theorem exists_of_objectAt {codecs : Codecs} {g : Graph Nat} {root : Nat}
    {leftOut : List FileName → Prop} {report : ScanReport} {names : List FileName} {id : ObjectId}
    (h : Shows codecs g root leftOut report.snapshot.manifest.entries)
    (hobject : Sample.objectAt report names = some id) :
    ∃ inode content, leadsTo g root names = some inode
      ∧ Sample.contentOf g inode = some content ∧ id = ObjectId.digestOf codecs content := by
  unfold Sample.objectAt at hobject
  split at hobject
  · rename_i path objectId size executable permissions hfind
    obtain rfl := Option.some.inj hobject
    have htext := List.find?_some hfind
    obtain ⟨names', inode, -, htext', -, hleads, -, content, hdata, hid, -⟩ :=
      h.sound _ (List.mem_of_find?_eq_some hfind)
    obtain rfl := pathText_injective ((of_decide_eq_true htext).symm.trans htext')
    exact ⟨inode, content, hleads, by rw [Sample.contentOf, hdata], hid⟩
  · exact absurd hobject (by simp)

/-- Others write a file that has been verified, and then one that has not been read yet: the report
is of a state that the tree has never had. -/
theorem scan_torn : Sample.torn.Advancing ∧ Sample.torn.Enumerates ∧ ∃ report t,
    exec (scanWorkspace Sample.torn Sample.codecs (fun c => [c]) ⟨[], 64⟩ [] 20 0)
      (.start Sample.workspace) = (.ok report, t)
    ∧ ∀ m ∈ t.fs.history, ¬ Shows Sample.codecs m.graph 0 (Omitted report.exclusions)
      report.snapshot.manifest.entries := by
  refine ⟨Sample.torn_advancing, Sample.torn_enumerates, ?_⟩
  obtain ⟨hx, hy⟩ := Sample.tornScan_report
  have hhistory := Sample.tornScan_history
  have hscan : Sample.tornScan = exec (scanWorkspace Sample.torn Sample.codecs (fun c => [c])
    ⟨[], 64⟩ [] 20 0) (.start Sample.workspace) := rfl
  rcases hexec : Sample.tornScan with ⟨error | report, t⟩ <;> rw [hexec] at hx hy hhistory
  · exact absurd hx (by simp [Except.toOption])
  · refine ⟨report, t, hscan.symm.trans hexec, fun m hm hshows => ?_⟩
    obtain ⟨hleadsX, hleadsY, hcontents⟩ := hhistory m hm
    obtain ⟨i, content, hi, hcontent, hid⟩ := exists_of_objectAt hshows hx
    obtain ⟨j, content', hj, hcontent', hid'⟩ := exists_of_objectAt hshows hy
    obtain rfl := Option.some.inj (hleadsX.symm.trans hi)
    obtain rfl := Option.some.inj (hleadsY.symm.trans hj)
    -- The digests tell the two contents apart.
    rcases hcontents with hlate | hearly
    · obtain rfl := Option.some.inj (hcontent.symm.trans hlate)
      exact absurd hid (by decide)
    · obtain rfl := Option.some.inj (hcontent'.symm.trans hearly)
      exact absurd hid' (by decide)

/-! ### Reports of one moment -/

section Scans

variable {ι : Type} [DecidableEq ι] {w : Interference ι} {codecs : Codecs}
  {lowercase : Char → List Char} {options : ScanOptions} {rootPath : Bytes} {fuel : Nat} {root : ι}
  {g₀ : Graph ι} {t : Scanner ι}

/-- Others may change the tree at any time of a scan.  If no inode that is still to be verified
changes after one that has been verified, then the report is of a state that the tree has had, but
for what it says it has left out. -/
theorem scan_consistent (hw : w.Advancing) (henumerates : w.Enumerates) {report : ScanReport}
    (h : exec (scanWorkspace w codecs lowercase options rootPath fuel root) (.start g₀)
      = (.ok report, t)) (huntorn : t.fs.Untorn) :
    ∃ m ∈ t.fs.history, Shows codecs m.graph root (Omitted report.exclusions)
      report.snapshot.manifest.entries := by
  obtain ⟨htree, hreport⟩ := exec_scanWorkspace_eq_ok_iff.mp h
  obtain ⟨hmanifest, hexclusions⟩ := exists_of_scanReport hreport
  obtain ⟨tree, visits, hpasses, hverified, -, hentries, hexcluded, hdepicts⟩ :=
    exists_findings hw henumerates htree
  have hstarted : t.fs.history ≠ [] := by
    intro hnil
    have hle := hpasses.follows.length_le
    rw [hnil] at hle
    exact absurd hle (by simp [InodeSystem.start])
  obtain ⟨k, g, call, hat, hvisits⟩ := exists_moment hstarted hverified huntorn
  have hshows : Shows codecs g root (Omitted (tree.collect exclusionsOf))
      (tree.collect (entriesOf codecs)) :=
    shows_of_depicts (hdepicts False g (fun hfalse => hfalse.elim) hvisits)
  have homitted : Omitted report.exclusions = Omitted (tree.collect exclusionsOf) := by
    funext names
    rw [hexclusions, hexcluded]
    exact propext ⟨fun ⟨x, hx, habove⟩ => ⟨x, (List.mem_insertionSort _).mp hx, habove⟩,
      fun ⟨x, hx, habove⟩ => ⟨x, (List.mem_insertionSort _).mpr hx, habove⟩⟩
  have hmem : ∀ entry, entry ∈ report.snapshot.manifest.entries
      ↔ entry ∈ tree.collect (entriesOf codecs) := by
    intro entry
    rw [SnapshotManifest.mem_entries_of_new hmanifest, hentries]
  refine ⟨_, hat.mem, ?_, ?_⟩
  · intro entry hentry
    rw [homitted]
    exact hshows.sound entry ((hmem entry).mp hentry)
  · intro names inode hne hleft hleads
    rw [homitted] at hleft
    obtain ⟨entry, hentry, hsays⟩ := hshows.complete names inode hne hleft hleads
    exact ⟨entry, (hmem entry).mpr hentry, hsays⟩

end Scans

namespace Sample

/-- Others write `b/y` before it is read, and `a/x` after everything but the root has been
verified. -/
def between : Interference Nat :=
  { still with others := fun tick =>
      if tick = 27 then [write 4 [98]] else if tick = 43 then [write 3 [98]] else [] }

theorem exists_write {tick : Nat} {change : Graph Nat → Graph Nat}
    (h : change ∈ between.others tick) : ∃ i, (i = 3 ∨ i = 4) ∧ change = write i [98] := by
  rw [show between.others tick = if tick = 27 then [write 4 [98]] else
    if tick = 43 then [write 3 [98]] else [] from rfl] at h
  split at h
  · exact ⟨4, Or.inr rfl, List.mem_singleton.mp h⟩
  · split at h
    · exact ⟨3, Or.inl rfl, List.mem_singleton.mp h⟩
    · exact absurd h List.not_mem_nil

theorem between_advancing : between.Advancing := by
  intro tick change hchange g
  obtain ⟨i, -, rfl⟩ := exists_write hchange
  exact later_write i [98] g

theorem between_enumerates : between.Enumerates := ⟨nextName_complete, nextName_once⟩

theorem between_spares {i : Nat} (h₃ : i ≠ 3) (h₄ : i ≠ 4) : between.Spares i := by
  intro tick change hchange g
  obtain ⟨j, hj, rfl⟩ := exists_write hchange
  refine if_neg fun h => ?_
  rcases hj with rfl | rfl
  · exact h₃ h.1
  · exact h₄ h.1

/-- The scan of the workspace while it is written. -/
def betweenScan : Except (Stop Restore.SnapshotError) ScanReport × Scanner Nat :=
  exec (scanWorkspace between codecs (fun c => [c]) ⟨[], 64⟩ [] 20 0) (.start workspace)

theorem betweenScan_isOk : betweenScan.1.isOk = true := by decide +kernel

/-- The two writes are at the moments 27 and 44. -/
theorem betweenScan_writes : ∀ k < 46,
    (k ≠ 44 → betweenScan.2.fs.history[k]?.map (·.graph 3)
        = betweenScan.2.fs.history[k + 1]?.map (·.graph 3))
      ∧ (k ≠ 27 → betweenScan.2.fs.history[k]?.map (·.graph 4)
        = betweenScan.2.fs.history[k + 1]?.map (·.graph 4)) := by
  decide +kernel

/-- `b/y` is verified after it has been written only, and `a/x` before that only. -/
theorem betweenScan_verifies : betweenScan.2.fs.history.length = 47
    ∧ (∀ m ∈ betweenScan.2.fs.history.take 28, ¬ Verifies m.graph 4 m.call)
    ∧ ∀ m ∈ betweenScan.2.fs.history.drop 45, ¬ Verifies m.graph 3 m.call := by
  decide +kernel

theorem betweenScan_passes : Passes between (.start workspace) betweenScan.2.fs := by
  have hok := betweenScan_isOk
  rcases hexec : betweenScan with ⟨error | report, t⟩
  · rw [hexec] at hok
    exact absurd hok (by simp [Except.isOk, Except.toBool])
  · obtain ⟨htree, -⟩ := exec_scanWorkspace_eq_ok_iff.mp hexec
    obtain ⟨tree, visits, hpasses, -⟩ := exists_findings between_advancing between_enumerates htree
    exact hpasses

/-- Nothing else changes. -/
theorem betweenScan_changed {k i : Nat} (h : betweenScan.2.fs.ChangedAt k i) :
    i = 3 ∧ k = 44 ∨ i = 4 ∧ k = 27 := by
  obtain ⟨g, call, g', call', hat, hat', hne⟩ := h
  have hk : k < 46 := by
    have hlt := hat'.lt
    have hlength := betweenScan_verifies.1
    omega
  obtain ⟨h₃, h₄⟩ := betweenScan_writes k hk
  rw [hat, hat'] at h₃ h₄
  by_cases hi₃ : i = 3
  · subst hi₃
    exact Or.inl ⟨rfl, by_contra fun hk => hne (Option.some.inj (h₃ hk)).symm⟩
  · by_cases hi₄ : i = 4
    · subst hi₄
      exact Or.inr ⟨rfl, by_contra fun hk => hne (Option.some.inj (h₄ hk)).symm⟩
    · obtain ⟨-, hspared⟩ := betweenScan_passes.spared i (between_spares hi₃ hi₄) (workspace i)
        ⟨rfl, fun m hm => by rw [List.mem_singleton.mp hm]⟩
      exact absurd ((hspared _ hat'.mem).trans (hspared _ hat.mem).symm) hne

theorem betweenScan_untorn : betweenScan.2.fs.Untorn := by
  rintro v₁ k₁ k₂ v₂ i₁ i₂ ⟨g₁, c₁, hat₁, hverifies₁⟩ hv₁ hchanged₁ hk hchanged₂ hv₂
    ⟨g₂, c₂, hat₂, hverifies₂⟩
  obtain ⟨-, hbefore, hafter⟩ := betweenScan_verifies
  rcases betweenScan_changed hchanged₁ with ⟨rfl, rfl⟩ | ⟨rfl, rfl⟩
  · -- only `a/x` changes after the moment 44, and it is not verified again
    rcases betweenScan_changed hchanged₂ with ⟨rfl, rfl⟩ | ⟨-, rfl⟩
    · refine hafter ⟨g₂, c₂⟩ (List.mem_of_getElem? (i := v₂ - 45) ?_) hverifies₂
      rw [List.getElem?_drop, Nat.add_sub_cancel' (by omega)]
      exact hat₂
    · omega
  · -- `b/y` has not been verified before it is written
    refine hbefore ⟨g₁, c₁⟩ (List.mem_of_getElem? (i := v₁) ?_) hverifies₁
    rw [List.getElem?_take, if_pos (by omega)]
    exact hat₁

end Sample

/-- Others write a file that has not been read yet, and one that has been verified after everything
else: the report is of the moment between the two. -/
theorem scan_consistent_between : ∃ report t,
    exec (scanWorkspace Sample.between Sample.codecs (fun c => [c]) ⟨[], 64⟩ [] 20 0)
      (.start Sample.workspace) = (.ok report, t)
    ∧ ∃ m ∈ t.fs.history, Shows Sample.codecs m.graph 0 (Omitted report.exclusions)
      report.snapshot.manifest.entries := by
  have huntorn := Sample.betweenScan_untorn
  rcases hexec : Sample.betweenScan with ⟨error | report, t⟩
  · have hok := Sample.betweenScan_isOk
    rw [hexec] at hok
    exact absurd hok (by simp [Except.isOk, Except.toBool])
  · rw [hexec] at huntorn
    exact ⟨report, t, hexec, scan_consistent Sample.between_advancing Sample.between_enumerates
      hexec huntorn⟩

end Scan

end Rewind
