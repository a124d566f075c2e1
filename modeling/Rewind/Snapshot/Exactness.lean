/-
What the report of a scan says of the tree.

The findings of a scan that succeeds are read back as statements about the paths of the tree: which
of them are in the manifest, which of them are excluded, and why.

* `Shows` — a manifest that has an entry for each path that is not left out, and no other;
* `shows_of_depicts` — the entries of the findings, but for what is beneath an exclusion;
* **`scan_exact`** — the scan of a tree that nobody changes.
-/
import Rewind.Snapshot.Exploration

namespace Rewind

open Call FileTree

namespace Scan

section Statements

variable {ι : Type}

/-- What the names lead to beneath a directory. -/
def leadsTo (g : Graph ι) (directory : ι) (names : List FileName) : Option ι :=
  g.walk directory (names.map (·.bytes))

/-- The pattern that leaves a path out. -/
def ScanOptions.patternOf? (options : ScanOptions) (names : List FileName) : Option IgnorePattern :=
  options.ignore.find? fun pattern => globMatches pattern.path.text (pathText names)

/-- What an entry says of the inode. -/
def Says (codecs : Codecs) (node : Inode ι) (entry : SnapshotEntry) : Prop :=
  entry.permissions = permissions node.mode ∧
    match entry.kind with
    | .directory => node.data.kind = .directory
    | .file objectId size executable => ∃ content, node.data = .file content
      ∧ objectId = ObjectId.digestOf codecs content ∧ size.toNat = content.length
      ∧ executable = (node.mode &&& 0o111 != 0)
    | .symlink target => node.data = .symlink (utf8 target)

/-- The entries are those of the tree beneath the root, but for the paths that are left out. -/
structure Shows (codecs : Codecs) (g : Graph ι) (root : ι) (leftOut : List FileName → Prop)
    (entries : List SnapshotEntry) : Prop where
  sound : ∀ entry ∈ entries, ∃ names inode, names ≠ [] ∧ entry.path.text = pathText names
    ∧ ¬ leftOut names ∧ leadsTo g root names = some inode ∧ Says codecs (g inode) entry
  complete : ∀ names inode, names ≠ [] → ¬ leftOut names → leadsTo g root names = some inode →
    ∃ entry ∈ entries, entry.path.text = pathText names ∧ Says codecs (g inode) entry

/-- The path is at or beneath an exclusion. -/
def Omitted (exclusions : List Exclusion) (names : List FileName) : Prop :=
  ∃ exclusion ∈ exclusions, ∃ above, above <+: names ∧ exclusion.path.text = pathText above

/-- The path is at or beneath a match of a pattern, or leads to a file that is too large. -/
def Omits (options : ScanOptions) (g : Graph ι) (root : ι) (names : List FileName) : Prop :=
  (∃ above, above ≠ [] ∧ above <+: names ∧ (options.patternOf? above).isSome)
    ∨ ∃ inode content, leadsTo g root names = some inode ∧ (g inode).data = .file content
      ∧ options.maxFileSize.toNat < content.length

/-- The path is the topmost match of a pattern, or leads to a file that is too large. -/
def Excludes (options : ScanOptions) (g : Graph ι) (root : ι) (names : List FileName)
    (reason : ExclusionReason) : Prop :=
  names ≠ [] ∧ (∀ above, above ≠ [] → above <+: names → above ≠ names →
    options.patternOf? above = none) ∧ ∃ inode, leadsTo g root names = some inode ∧
    match reason with
    | .ignored pattern => options.patternOf? names = some pattern
    | .fileTooLarge actual maximum => options.patternOf? names = none
      ∧ maximum = options.maxFileSize.toNat
      ∧ ∃ content, (g inode).data = .file content ∧ actual = content.length ∧ maximum < actual

theorem pattern?_eq_patternOf? (options : ScanOptions) {path : SnapshotPath}
    {names : List FileName} (h : path.text = pathText names) :
    options.pattern? path = options.patternOf? names := by
  rw [ScanOptions.pattern?, ScanOptions.patternOf?, ← h]
  rfl

variable {g : Graph ι} {directory : ι}

theorem leadsTo_cons (name : FileName) (rest : List FileName) :
    leadsTo g directory (name :: rest)
      = (g.child? directory name.bytes).bind fun child => leadsTo g child rest := by
  rw [leadsTo, List.map_cons, Graph.walk]
  rcases g.child? directory name.bytes with _ | child <;> rfl

theorem leadsTo_append (names rest : List FileName) :
    leadsTo g directory (names ++ rest)
      = (leadsTo g directory names).bind fun inode => leadsTo g inode rest := by
  induction names generalizing directory with
  | nil => rfl
  | cons name names ih =>
    rw [List.cons_append, leadsTo_cons, leadsTo_cons]
    rcases g.child? directory name.bytes with _ | child
    · rfl
    · exact ih

theorem leadsTo_singleton (name : FileName) :
    leadsTo g directory [name] = g.child? directory name.bytes := by
  rw [leadsTo_cons]
  rcases g.child? directory name.bytes with _ | child <;> rfl

/-- What is beneath an inode is so by the names that it has. -/
theorem leadsTo_concat {names : List FileName} {name : FileName} {inode : ι}
    (h : leadsTo g directory (names ++ [name]) = some inode) :
    ∃ above, leadsTo g directory names = some above ∧ g.child? above name.bytes = some inode := by
  rw [leadsTo_append] at h
  obtain ⟨above, habove, hentry⟩ := Option.bind_eq_some_iff.mp h
  exact ⟨above, habove, (leadsTo_singleton name).symm.trans hentry⟩

theorem exists_leadsTo_of_prefix {names above : List FileName} {inode : ι}
    (hinitial : above <+: names)
    (h : leadsTo g directory names = some inode) : ∃ i, leadsTo g directory above = some i := by
  obtain ⟨rest, rfl⟩ := hinitial
  rw [leadsTo_append] at h
  obtain ⟨i, hi, -⟩ := Option.bind_eq_some_iff.mp h
  exact ⟨i, hi⟩

theorem child?_eq_none_of_kind {i : ι} (h : (g i).data.kind ≠ .directory) (name : Bytes) :
    g.child? i name = none := by
  rw [Graph.child?]
  rcases hdata : (g i).data with ⟨size, entries⟩ | content | target | _ <;> rw [hdata] at h
  · exact absurd rfl h
  · rfl
  · rfl
  · rfl

theorem leadsTo_cons_of_kind (h : (g directory).data.kind ≠ .directory) (name : FileName)
    (rest : List FileName) : leadsTo g directory (name :: rest) = none := by
  rw [leadsTo_cons, child?_eq_none_of_kind h]
  rfl

/-- Only a directory has something beneath it. -/
theorem eq_of_leadsTo_of_kind {names above : List FileName} {inode i : ι}
    (hinitial : above <+: names)
    (h : leadsTo g directory names = some inode) (habove : leadsTo g directory above = some i)
    (hkind : (g i).data.kind ≠ .directory) : above = names := by
  obtain ⟨rest, rfl⟩ := hinitial
  cases rest with
  | nil => exact (List.append_nil above).symm
  | cons name rest =>
    rw [← List.singleton_append, ← List.append_assoc] at h
    obtain ⟨i', hi'⟩ := exists_leadsTo_of_prefix (List.prefix_append _ rest) h
    obtain ⟨i'', hi'', hentry⟩ := leadsTo_concat hi'
    obtain rfl := Option.some.inj (habove.symm.trans hi'')
    rw [child?_eq_none_of_kind hkind] at hentry
    exact absurd hentry (by simp)

end Statements

/-! ### From the findings to the tree -/

section Findings

variable {ι : Type} {codecs : Codecs} {options : ScanOptions} {still : Prop} {g : Graph ι}
  {root : ι}
  {tree : Findings ι}

/-- The findings of a whole tree. -/
structure DepictsRoot (options : ScanOptions) (still : Prop) (g : Graph ι) (root : ι)
    (tree : Findings ι) : Prop where
  depicts : Depicts options still g root [] tree
  listed : ∀ name, (tree.kindAt [name]).isSome ↔ name ∈ g.names root
  distinct : tree.Distinct

theorem DepictsRoot.leads (h : DepictsRoot options still g root tree) {names : List FileName}
    {kind : Found ι} (hkind : tree.kindAt names = some kind) :
    leadsTo g root names = some (notedOf kind).stat.inode := h.depicts.leads names kind hkind

theorem DepictsRoot.spelled (h : DepictsRoot options still g root tree) {names : List FileName}
    {kind : Found ι} (hkind : tree.kindAt names = some kind) :
    (notedOf kind).path.text = pathText names := h.depicts.spelled names kind hkind

theorem DepictsRoot.holds (h : DepictsRoot options still g root tree) {names : List FileName}
    {kind : Found ι} (hkind : tree.kindAt names = some kind) : Holds options still g kind :=
  h.depicts.holds names kind hkind

/-- What is noted of an entry names its path. -/
theorem path_of_mem_entriesOf {kind : Found ι} {entry : SnapshotEntry}
    (h : entry ∈ entriesOf codecs kind) : entry.path = (notedOf kind).path := by
  rcases kind with ⟨noted, _ | _ | _ | _⟩ | noted <;>
    simp only [entriesOf, List.mem_singleton, List.not_mem_nil] at h
  · rw [h, notedOf]
  · rw [h, notedOf]
  · rw [h, notedOf]

theorem path_of_mem_exclusionsOf {kind : Found ι} {exclusion : Exclusion}
    (h : exclusion ∈ exclusionsOf kind) : exclusion.path = (notedOf kind).path := by
  rcases kind with ⟨noted, _ | _ | _ | _⟩ | noted <;>
    simp only [exclusionsOf, List.mem_singleton, List.not_mem_nil] at h
  · rw [h, notedOf]
  · rw [h, notedOf]

/-- What has an exclusion is a leaf. -/
theorem leaf_of_mem_exclusionsOf {kind : Found ι} {exclusion : Exclusion}
    (h : exclusion ∈ exclusionsOf kind) : ∃ leaf, kind = .leaf leaf := by
  rcases kind with ⟨noted, _ | _ | _ | _⟩ | noted <;>
    simp only [exclusionsOf, List.not_mem_nil] at h
  · exact ⟨_, rfl⟩
  · exact ⟨_, rfl⟩

/-- What has an entry has no exclusion. -/
theorem exclusionsOf_of_mem_entriesOf {kind : Found ι} {entry : SnapshotEntry}
    (h : entry ∈ entriesOf codecs kind) : exclusionsOf kind = [] := by
  rcases kind with ⟨noted, _ | _ | _ | _⟩ | noted <;> simp only [entriesOf, List.not_mem_nil] at h
  · rfl
  · rfl
  · rfl

/-- What has been found without an exclusion is not beneath one. -/
theorem DepictsRoot.not_omitted (h : DepictsRoot options still g root tree) {names : List FileName}
    {kind : Found ι} (hkind : tree.kindAt names = some kind) (hnone : exclusionsOf kind = []) :
    ¬ Omitted (tree.collect exclusionsOf) names := by
  rintro ⟨exclusion, hexclusion, above, ⟨rest, rfl⟩, htext⟩
  obtain ⟨names', kind', hkind', hmem⟩ := (Dir.mem_collect_iff h.distinct).mp hexclusion
  obtain ⟨leaf, rfl⟩ := leaf_of_mem_exclusionsOf hmem
  rw [path_of_mem_exclusionsOf hmem, h.spelled hkind'] at htext
  obtain rfl := pathText_injective htext
  cases rest with
  | nil =>
    rw [List.append_nil, hkind'] at hkind
    obtain rfl := Option.some.inj hkind
    rw [hnone] at hmem
    exact absurd hmem List.not_mem_nil
  | cons name rest =>
    rw [Dir.kindAt_append_of_leaf hkind'] at hkind
    exact absurd hkind (by simp)

/-- What a name leads to has been found, or is beneath an exclusion. -/
theorem DepictsRoot.kindAt_or (h : DepictsRoot options still g root tree) {names : List FileName}
    {inode : ι} (hne : names ≠ []) (hleads : leadsTo g root names = some inode) :
    (∃ kind, tree.kindAt names = some kind) ∨ ∃ above kind exclusion, above <+: names
      ∧ above ≠ names ∧ tree.kindAt above = some kind ∧ exclusion ∈ exclusionsOf kind := by
  induction names using List.reverseRecOn generalizing inode with
  | nil => exact absurd rfl hne
  | append_singleton names name ih =>
    obtain ⟨above, habove, hentry⟩ := leadsTo_concat hleads
    have hname : name ∈ g.names above := Graph.mem_names_iff.mpr ⟨inode, hentry⟩
    by_cases hnil : names = []
    · subst hnil
      obtain rfl := Option.some.inj habove
      exact Or.inl (Option.isSome_iff_exists.mp ((h.listed name).mpr hname))
    · have hproper : names ≠ names ++ [name] := by simp
      rcases ih hnil habove with ⟨kind, hkind⟩ | ⟨p, kind, x, hinitial, hp, hkind, hx⟩
      · have hinode := Option.some.inj ((h.leads hkind).symm.trans habove)
        have hholds := h.holds hkind
        rcases kind with ⟨noted, pattern | ⟨actual, maximum⟩ | bytes | target⟩ | noted
        · exact Or.inr ⟨names, _, _, List.prefix_append _ _, hproper, hkind,
            List.mem_singleton_self _⟩
        · exact Or.inr ⟨names, _, _, List.prefix_append _ _, hproper, hkind,
            List.mem_singleton_self _⟩
        · -- A file has nothing beneath it.
          obtain ⟨-, hdata, -⟩ := hholds
          rw [← hinode, child?_eq_none_of_kind] at hentry
          · exact absurd hentry (by simp)
          · rw [notedOf, hdata]
            simp [InodeData.kind]
        · obtain ⟨-, hdata, -⟩ := hholds
          rw [← hinode, child?_eq_none_of_kind] at hentry
          · exact absurd hentry (by simp)
          · rw [notedOf, hdata]
            simp [InodeData.kind]
        · rw [← hinode] at hname
          exact Or.inl (Option.isSome_iff_exists.mp
            ((h.depicts.listed names noted hkind name).mpr hname))
      · refine Or.inr ⟨p, kind, x, hinitial.trans (List.prefix_append _ _), ?_, hkind, hx⟩
        intro heq
        have hle := hinitial.length_le
        rw [heq, List.length_append, List.length_singleton] at hle
        omega

/-- What is noted of an entry is what the inode says. -/
theorem says_of_mem_entriesOf {kind : Found ι} {entry : SnapshotEntry}
    (hholds : Holds options still g kind) (h : entry ∈ entriesOf codecs kind) :
    Says codecs (g (notedOf kind).stat.inode) entry := by
  rcases kind with ⟨noted, pattern | ⟨actual, maximum⟩ | bytes | target⟩ | noted <;>
    simp only [entriesOf, List.mem_singleton, List.not_mem_nil] at h
  · obtain ⟨-, hdata, hmode, hsize⟩ := hholds
    have hlt : bytes.length < 2 ^ 64 := Nat.lt_of_le_of_lt hsize options.maxFileSize.toNat_lt
    rw [h]
    refine ⟨by rw [notedOf, hmode], bytes, hdata, rfl, ?_, by rw [notedOf, hmode]⟩
    rw [UInt64.toNat_ofNat', Nat.mod_eq_of_lt hlt]
  · obtain ⟨-, hdata, hmode⟩ := hholds
    rw [h]
    exact ⟨by rw [notedOf, hmode], hdata⟩
  · obtain ⟨-, hkind, hmode⟩ := hholds
    rw [h]
    exact ⟨by rw [notedOf, hmode], hkind⟩

/-- The entries of the findings show the tree, but for what is beneath their exclusions. -/
theorem shows_of_depicts (h : DepictsRoot options still g root tree) :
    Shows codecs g root (Omitted (tree.collect exclusionsOf))
      (tree.collect (entriesOf codecs)) where
  sound := by
    intro entry hentry
    obtain ⟨names, kind, hkind, hmem⟩ := (Dir.mem_collect_iff h.distinct).mp hentry
    refine ⟨names, _, Dir.ne_nil_of_kindAt hkind, ?_, ?_, h.leads hkind,
      says_of_mem_entriesOf (h.holds hkind) hmem⟩
    · rw [path_of_mem_entriesOf hmem, h.spelled hkind]
    · exact h.not_omitted hkind (exclusionsOf_of_mem_entriesOf hmem)
  complete := by
    intro names inode hne homitted hleads
    have hexcluded : ∀ {above kind exclusion}, above <+: names → tree.kindAt above = some kind →
        exclusion ∈ exclusionsOf kind → False := by
      intro above kind exclusion hinitial hkind hmem
      refine homitted ⟨exclusion, ?_, above, hinitial, ?_⟩
      · exact (Dir.mem_collect_iff h.distinct).mpr ⟨above, kind, hkind, hmem⟩
      · rw [path_of_mem_exclusionsOf hmem, h.spelled hkind]
    rcases h.kindAt_or hne hleads with ⟨kind, hkind⟩ | ⟨above, kind, x, hinitial, -, hkind, hx⟩
    · have hinode := Option.some.inj ((h.leads hkind).symm.trans hleads)
      have hentry : ∃ entry, entry ∈ entriesOf codecs kind := by
        rcases kind with ⟨noted, pattern | ⟨actual, maximum⟩ | bytes | target⟩ | noted
        · exact (hexcluded List.prefix_rfl hkind (List.mem_singleton_self _)).elim
        · exact (hexcluded List.prefix_rfl hkind (List.mem_singleton_self _)).elim
        · exact ⟨_, List.mem_singleton_self _⟩
        · exact ⟨_, List.mem_singleton_self _⟩
        · exact ⟨_, List.mem_singleton_self _⟩
      obtain ⟨entry, hmem⟩ := hentry
      refine ⟨entry, (Dir.mem_collect_iff h.distinct).mpr ⟨names, kind, hkind, hmem⟩, ?_, ?_⟩
      · rw [path_of_mem_entriesOf hmem, h.spelled hkind]
      · rw [← hinode]
        exact says_of_mem_entriesOf (h.holds hkind) hmem
    · exact (hexcluded hinitial hkind hx).elim

/-! ### Exclusions -/

theorem patternOf?_eq_none {kind : Found ι} {names : List FileName}
    (h : DepictsRoot options still g root tree) (hkind : tree.kindAt names = some kind)
    (hnone : ∀ noted pattern, kind ≠ .leaf (noted, .ignored pattern)) :
    options.patternOf? names = none := by
  rw [← pattern?_eq_patternOf? options (h.spelled hkind)]
  have hholds := h.holds hkind
  rcases kind with ⟨noted, pattern | ⟨actual, maximum⟩ | bytes | target⟩ | noted
  · exact absurd rfl (hnone noted pattern)
  · exact hholds.1
  · exact hholds.1
  · exact hholds.1
  · exact hholds.1

/-- Above what has been found there are directories, which no pattern matches. -/
theorem patternOf?_eq_none_of_prefix (h : DepictsRoot options still g root tree)
    {names above : List FileName} {kind : Found ι} (hkind : tree.kindAt names = some kind)
    (hne : above ≠ []) (hinitial : above <+: names) (hproper : above ≠ names) :
    options.patternOf? above = none := by
  obtain ⟨rest, rfl⟩ := hinitial
  cases rest with
  | nil => exact absurd (List.append_nil above).symm hproper
  | cons name rest =>
    obtain ⟨noted, hdirectory⟩ := Dir.exists_directory_of_kindAt_append hne hkind
    exact patternOf?_eq_none h hdirectory (by simp)

/-- Each exclusion of the findings is the topmost match of a pattern, or a file that is too large.
-/
theorem excludes_of_mem (h : DepictsRoot options True g root tree) {exclusion : Exclusion}
    (hmem : exclusion ∈ tree.collect exclusionsOf) :
    ∃ names, exclusion.path.text = pathText names
      ∧ Excludes options g root names exclusion.reason := by
  obtain ⟨names, kind, hkind, hx⟩ := (Dir.mem_collect_iff h.distinct).mp hmem
  refine ⟨names, by rw [path_of_mem_exclusionsOf hx, h.spelled hkind], Dir.ne_nil_of_kindAt hkind,
    fun above => patternOf?_eq_none_of_prefix h hkind, _, h.leads hkind, ?_⟩
  have hspelled := h.spelled hkind
  have hholds := h.holds hkind
  rcases kind with ⟨noted, pattern | ⟨actual, maximum⟩ | bytes | target⟩ | noted <;>
    simp only [exclusionsOf, List.mem_singleton, List.not_mem_nil] at hx
  · rw [hx]
    exact (pattern?_eq_patternOf? options hspelled).symm.trans hholds
  · obtain ⟨hpattern, hmaximum, hlarge⟩ := hholds
    rw [hx]
    exact ⟨(pattern?_eq_patternOf? options hspelled).symm.trans hpattern, hmaximum, hlarge trivial⟩

/-- Each topmost match of a pattern and each file that is too large is an exclusion. -/
theorem exists_mem_of_excludes (h : DepictsRoot options True g root tree) {names : List FileName}
    {reason : ExclusionReason} (hexcludes : Excludes options g root names reason) :
    ∃ exclusion ∈ tree.collect exclusionsOf, exclusion.path.text = pathText names
      ∧ exclusion.reason = reason := by
  obtain ⟨hne, habove, inode, hleads, hreason⟩ := hexcludes
  rcases h.kindAt_or hne hleads with ⟨kind, hkind⟩ | ⟨p, kind, x, hinitial, hproper, hkind, hx⟩
  · have hmem : ∀ {x}, x ∈ exclusionsOf kind → x ∈ tree.collect exclusionsOf :=
      fun hx => (Dir.mem_collect_iff h.distinct).mpr ⟨names, kind, hkind, hx⟩
    have hinode := Option.some.inj ((h.leads hkind).symm.trans hleads)
    have hspelled := h.spelled hkind
    have hpattern := pattern?_eq_patternOf? options hspelled
    have hholds := h.holds hkind
    cases reason with
    | ignored pattern =>
      have hsome : options.pattern? (notedOf kind).path = some pattern := hpattern.trans hreason
      rcases kind with ⟨noted, pattern' | ⟨actual, maximum⟩ | bytes | target⟩ | noted
      · obtain rfl := Option.some.inj (hholds.symm.trans hsome)
        exact ⟨_, hmem (List.mem_singleton_self _), hspelled, rfl⟩
      all_goals exact absurd (hholds.1.symm.trans hsome) (by simp)
    | fileTooLarge actual maximum =>
      obtain ⟨hnone, rfl, content, hdata, rfl, hlt⟩ := hreason
      have hnone : options.pattern? (notedOf kind).path = none := hpattern.trans hnone
      rw [← hinode] at hdata
      rcases kind with ⟨noted, pattern' | ⟨actual, maximum⟩ | bytes | target⟩ | noted
      · exact absurd (hholds.symm.trans hnone) (by simp)
      · obtain ⟨-, rfl, hlarge⟩ := hholds
        obtain ⟨content', hdata', rfl, -⟩ := hlarge trivial
        obtain rfl := InodeData.file.inj (hdata'.symm.trans hdata)
        exact ⟨_, hmem (List.mem_singleton_self _), hspelled, rfl⟩
      · obtain ⟨-, hdata', -, hle⟩ := hholds
        obtain rfl := InodeData.file.inj (hdata'.symm.trans hdata)
        omega
      · exact absurd (hholds.2.1.symm.trans hdata) (by simp)
      · have hkind' := hholds.2.1
        rw [show (g noted.stat.inode).data = .file content from hdata] at hkind'
        exact absurd hkind' (by simp [InodeData.kind])
  · -- Something above it has been left out, which is no directory or matches a pattern.
    have hnone := habove p (Dir.ne_nil_of_kindAt hkind) hinitial hproper
    have hpattern := (pattern?_eq_patternOf? options (h.spelled hkind)).trans hnone
    have hholds := h.holds hkind
    have hfound := h.leads hkind
    rcases kind with ⟨noted, pattern' | ⟨actual, maximum⟩ | bytes | target⟩ | noted <;>
      simp only [exclusionsOf, List.not_mem_nil] at hx
    · exact absurd (hholds.symm.trans hpattern) (by simp)
    · obtain ⟨-, -, hlarge⟩ := hholds
      obtain ⟨content, hdata, -, -⟩ := hlarge trivial
      refine absurd (eq_of_leadsTo_of_kind hinitial hleads hfound ?_) hproper
      rw [notedOf, hdata]
      simp [InodeData.kind]

/-- The exclusions are of different paths. -/
theorem pairwise_exclusions (h : DepictsRoot options still g root tree) :
    (tree.collect exclusionsOf).Pairwise fun x y => x.path.text ≠ y.path.text := by
  refine Dir.pairwise_collect h.distinct ?_ ?_
  · intro path kind hkind
    rcases kind with ⟨noted, _ | _ | _ | _⟩ | noted <;> simp [exclusionsOf]
  · intro path path' kind kind' hne hkind hkind' x hx y hy heq
    rw [path_of_mem_exclusionsOf hx, path_of_mem_exclusionsOf hy, h.spelled hkind,
      h.spelled hkind'] at heq
    exact hne (pathText_injective heq)

/-- What is left out of a tree that nobody changes. -/
theorem omitted_iff_omits (h : DepictsRoot options True g root tree) {names : List FileName}
    {inode : ι} (hne : names ≠ []) (hleads : leadsTo g root names = some inode) :
    Omitted (tree.collect exclusionsOf) names ↔ Omits options g root names := by
  constructor
  · rintro ⟨exclusion, hmem, above, hinitial, htext⟩
    obtain ⟨names', htext', hexcludes⟩ := excludes_of_mem h hmem
    obtain rfl := pathText_injective (htext.symm.trans htext')
    obtain ⟨hne', -, i, hi, hreason⟩ := hexcludes
    rcases hcase : exclusion.reason with pattern | ⟨actual, maximum⟩ <;> rw [hcase] at hreason
    · exact Or.inl ⟨above, hne', hinitial, Option.isSome_iff_exists.mpr ⟨pattern, hreason⟩⟩
    · obtain ⟨-, rfl, content, hdata, rfl, hlt⟩ := hreason
      have hkind : (g i).data.kind ≠ .directory := by
        rw [hdata]
        simp [InodeData.kind]
      obtain rfl := eq_of_leadsTo_of_kind hinitial hleads hi hkind
      exact Or.inr ⟨i, content, hi, hdata, hlt⟩
  · intro homits
    have hexcluded : ∀ {above} reason, above <+: names → Excludes options g root above reason →
        Omitted (tree.collect exclusionsOf) names := by
      intro above reason hinitial hexcludes
      obtain ⟨exclusion, hmem, htext, -⟩ := exists_mem_of_excludes h hexcludes
      exact ⟨exclusion, hmem, above, hinitial, htext⟩
    by_cases hpattern : ∃ n, ∃ above, above ≠ [] ∧ above <+: names ∧ above.length = n
        ∧ (options.patternOf? above).isSome
    · -- The shortest match is the topmost one.
      classical
      obtain ⟨above, hne', hinitial, hlength, hsome⟩ := Nat.find_spec hpattern
      obtain ⟨pattern, hpattern'⟩ := Option.isSome_iff_exists.mp hsome
      obtain ⟨i, hi⟩ := exists_leadsTo_of_prefix hinitial hleads
      refine hexcluded (.ignored pattern) hinitial ⟨hne', ?_, i, hi, hpattern'⟩
      intro p hp hbelow hpne
      by_contra hmatch
      refine Nat.find_min hpattern (m := p.length) ?_ ⟨p, hp, hbelow.trans hinitial, rfl,
        Option.isSome_iff_ne_none.mpr hmatch⟩
      rw [← hlength]
      exact Nat.lt_of_le_of_ne hbelow.length_le fun heq => hpne (hbelow.eq_of_length heq)
    · rcases homits with ⟨above, hne', hinitial, hsome⟩ | ⟨i, content, hi, hdata, hlt⟩
      · exact absurd ⟨_, above, hne', hinitial, rfl, hsome⟩ hpattern
      · have hnone : ∀ above, above ≠ [] → above <+: names → options.patternOf? above = none := by
          intro above hne' hinitial
          by_contra hmatch
          exact hpattern ⟨_, above, hne', hinitial, rfl, Option.isSome_iff_ne_none.mpr hmatch⟩
        exact hexcluded (.fileTooLarge _ _) List.prefix_rfl
          ⟨hne, fun above hne' hinitial _ => hnone above hne' hinitial, i, hi,
            hnone names hne List.prefix_rfl, rfl, content, hdata, rfl, hlt⟩

/-- The entries of the findings show what is not left out. -/
theorem shows_omits (h : DepictsRoot options True g root tree) :
    Shows codecs g root (Omits options g root) (tree.collect (entriesOf codecs)) where
  sound := by
    intro entry hentry
    obtain ⟨names, i, hne, htext, homitted, hleads, hsays⟩ :=
      (shows_of_depicts h).sound entry hentry
    rw [omitted_iff_omits h hne hleads] at homitted
    exact ⟨names, i, hne, htext, homitted, hleads, hsays⟩
  complete := by
    intro names i hne homits hleads
    rw [← omitted_iff_omits h hne hleads] at homits
    exact (shows_of_depicts h).complete names i hne homits hleads

/-- The contents that the findings have stored. -/
theorem mem_contents_iff (h : DepictsRoot options True g root tree) {bytes : Bytes} :
    bytes ∈ tree.collect contentsOf ↔ ∃ names inode, names ≠ [] ∧ ¬ Omits options g root names
      ∧ leadsTo g root names = some inode ∧ (g inode).data = .file bytes := by
  rw [Dir.mem_collect_iff h.distinct]
  constructor
  · rintro ⟨names, kind, hkind, hmem⟩
    have hne := Dir.ne_nil_of_kindAt hkind
    rcases kind with ⟨noted, pattern | ⟨actual, maximum⟩ | content | target⟩ | noted <;>
      simp only [contentsOf, List.mem_singleton, List.not_mem_nil] at hmem
    refine ⟨names, _, hne, ?_, h.leads hkind, ?_⟩
    · rw [← omitted_iff_omits h hne (h.leads hkind)]
      exact h.not_omitted hkind rfl
    · rw [hmem]
      exact (h.holds hkind).2.1
  · rintro ⟨names, inode, hne, homits, hleads, hdata⟩
    rw [← omitted_iff_omits h hne hleads] at homits
    rcases h.kindAt_or hne hleads with ⟨kind, hkind⟩ | ⟨above, kind, x, hinitial, -, hkind, hx⟩
    · have hinode := Option.some.inj ((h.leads hkind).symm.trans hleads)
      have hholds := h.holds hkind
      have hexcluded : ∀ x ∈ exclusionsOf kind, False := fun x hx =>
        homits ⟨x, (Dir.mem_collect_iff h.distinct).mpr ⟨names, kind, hkind, hx⟩, names,
          List.prefix_rfl, by rw [path_of_mem_exclusionsOf hx, h.spelled hkind]⟩
      rw [← hinode] at hdata
      rcases kind with ⟨noted, pattern | ⟨actual, maximum⟩ | content | target⟩ | noted
      · exact (hexcluded _ (List.mem_singleton_self _)).elim
      · exact (hexcluded _ (List.mem_singleton_self _)).elim
      · obtain rfl := InodeData.file.inj (hholds.2.1.symm.trans hdata)
        exact ⟨names, _, hkind, List.mem_singleton_self _⟩
      · exact absurd (hholds.2.1.symm.trans hdata) (by simp)
      · have hkind' := hholds.2.1
        rw [show (g noted.stat.inode).data = .file bytes from hdata] at hkind'
        exact absurd hkind' (by simp [InodeData.kind])
    · exact (homits ⟨x, (Dir.mem_collect_iff h.distinct).mpr ⟨above, kind, hkind, hx⟩, above,
        hinitial, by rw [path_of_mem_exclusionsOf hx, h.spelled hkind]⟩).elim

end Findings

/-! ### A sample workspace -/

namespace Sample

def nameA : FileName := ⟨[97], by decide⟩

def nameB : FileName := ⟨[98], by decide⟩

def nameX : FileName := ⟨[120], by decide⟩

def nameY : FileName := ⟨[121], by decide⟩

def times (seconds : Int64) : InodeTimes := ⟨seconds, 0, seconds, 0⟩

/-- The files `a/x` and `b/y`, with the content `a`. -/
def workspace : Graph Nat
  | 0 => ⟨.directory 0 [(nameA, 1), (nameB, 2)], 0o40755, times 0⟩
  | 1 => ⟨.directory 0 [(nameX, 3)], 0o40755, times 0⟩
  | 2 => ⟨.directory 0 [(nameY, 4)], 0o40755, times 0⟩
  | _ => ⟨.file [97], 0o100644, times 0⟩

/-- The BLAKE3 digest of `a`. -/
def digestA : Digest where
  bytes := [23, 118, 47, 221, 217, 105, 164, 83, 146, 93, 101, 113, 122, 195, 238, 162,
    19, 32, 182, 107, 84, 52, 47, 222, 21, 18, 141, 108, 175, 33, 33, 95]
  length_eq := rfl

/-- The BLAKE3 digest of `b`. -/
def digestB : Digest where
  bytes := [16, 229, 207, 61, 60, 138, 79, 159, 52, 104, 200, 204, 88, 238, 168, 72,
    146, 162, 47, 218, 219, 193, 172, 178, 36, 16, 25, 0, 68, 193, 213, 83]
  length_eq := rfl

/-- The text of the manifest with `a/x` alone. -/
def lonelyJson : Bytes := utf8 ("\x7b\"schema_version\":1,\"entries\":["
  ++ "\x7b\"path\":\"a\",\"kind\":\x7b\"kind\":\"directory\"\x7d,\"permissions\":493\x7d,"
  ++ "\x7b\"path\":\"a/x\",\"kind\":\x7b\"kind\":\"file\",\"object_id\":"
  ++ "\"17762fddd969a453925d65717ac3eea21320b66b54342fde15128d6caf21215f\","
  ++ "\"size\":1,\"executable\":false\x7d,\"permissions\":420\x7d]\x7d")

/-- The text of the manifest with the content `a` in `a/x` and the content `b` in `b/y`. -/
def mixedJson : Bytes := utf8 ("\x7b\"schema_version\":1,\"entries\":["
  ++ "\x7b\"path\":\"a\",\"kind\":\x7b\"kind\":\"directory\"\x7d,\"permissions\":493\x7d,"
  ++ "\x7b\"path\":\"a/x\",\"kind\":\x7b\"kind\":\"file\",\"object_id\":"
  ++ "\"17762fddd969a453925d65717ac3eea21320b66b54342fde15128d6caf21215f\","
  ++ "\"size\":1,\"executable\":false\x7d,\"permissions\":420\x7d,"
  ++ "\x7b\"path\":\"b\",\"kind\":\x7b\"kind\":\"directory\"\x7d,\"permissions\":493\x7d,"
  ++ "\x7b\"path\":\"b/y\",\"kind\":\x7b\"kind\":\"file\",\"object_id\":"
  ++ "\"10e5cf3d3c8a4f9f3468c8cc58eea84892a22fdadbc1acb22410190044c1d553\","
  ++ "\"size\":1,\"executable\":false\x7d,\"permissions\":420\x7d]\x7d")

/-- The codecs on these contents and manifests. -/
def codecs : Codecs where
  blake3 bytes :=
    if bytes = [97] then digestA
    else if bytes = [98] then digestB
    else if bytes = lonelyJson then
      ⟨[69, 191, 95, 35, 113, 208, 34, 90, 32, 20, 179, 76, 171, 52, 65, 38,
        25, 13, 115, 191, 92, 50, 46, 81, 178, 71, 127, 15, 9, 153, 37, 3], rfl⟩
    else
      ⟨[116, 59, 34, 113, 237, 254, 41, 240, 217, 10, 164, 152, 76, 110, 136, 149,
        48, 16, 184, 219, 244, 251, 0, 137, 77, 89, 88, 56, 196, 218, 30, 66], rfl⟩
  manifestJson manifest := if manifest.entries.length = 2 then lonelyJson else mixedJson

/-- A stream that returns the names in the order of the directory. -/
def nextName (_ : Nat) (_ current returned : List FileName) : Option FileName :=
  current.find? (· ∉ returned)

/-- A world in which nobody changes anything. -/
def still : Interference Nat where
  others _ := []
  fails _ := false
  nextName := nextName
  readCount _ := 64
  storeFails _ := false

theorem validUtf8_b : validUtf8 [98] = true := by decide +kernel

theorem check_b : SnapshotPath.check [98] = .ok () := by decide +kernel

/-- The pattern `b`. -/
def patternB : IgnorePattern := ⟨⟨[98], validUtf8_b, check_b⟩⟩

theorem nextName_complete (tick : Nat) (opened current returned : List FileName)
    (h : nextName tick opened current returned = none) :
    ∀ name ∈ opened, name ∈ current → name ∈ returned := by
  intro name _ hcurrent
  have hfound := List.find?_eq_none.mp h name hcurrent
  simpa using hfound

theorem nextName_once (tick : Nat) (opened current returned : List FileName) (name : FileName)
    (h : nextName tick opened current returned = some name) : name ∉ returned := by
  simpa using List.find?_some h

theorem still_enumerates : still.Enumerates := ⟨nextName_complete, nextName_once⟩

theorem scan_succeeds : (exec (scanWorkspace still codecs (fun c => [c]) ⟨[patternB], 64⟩ [] 20 0)
    (.start workspace)).1.isOk = true := by decide +kernel

end Sample

/-! ### Scans -/

section Scans

variable {ι : Type} [DecidableEq ι] {w : Interference ι} {codecs : Codecs}
  {lowercase : Char → List Char} {options : ScanOptions} {rootPath : Bytes} {fuel : Nat} {root : ι}
  {g₀ : Graph ι} {t : Scanner ι}

/-- The findings of a walk through the whole tree. -/
theorem exists_findings (hw : w.Advancing) (henumerates : w.Enumerates)
    (h : exec (scanTree w codecs options rootPath fuel root) (.start g₀) = (.ok (), t)) :
    ∃ (tree : Findings ι) (visits : List (Visit ι)), Passes w (.start g₀) t.fs
      ∧ (∀ v ∈ visits, Verified t.fs v)
      ∧ t.stored = tree.collect contentsOf ∧ t.entries = tree.collect (entriesOf codecs)
      ∧ t.exclusions = tree.collect exclusionsOf
      ∧ ∀ still g, (still → w.Still ∧ g = g₀) → (∀ v ∈ visits, g v.inode = v.node) →
        DepictsRoot options still g root tree := by
  obtain ⟨metadata, s₁, hinspect, hrest⟩ := exec_bind_eq_ok_iff.mp h
  obtain ⟨_, s₂, hkind, hrest₁⟩ := exec_bind_eq_ok_iff.mp hrest
  obtain ⟨pinned, s₃, hopen, hscan⟩ := exec_bind_eq_ok_iff.mp hrest₁
  obtain ⟨-, rfl⟩ := exec_ofResult_eq_ok_iff.mp hkind
  obtain ⟨fs₃, hopened, rfl⟩ := exec_platform_eq_ok_iff.mp hopen
  have hpasses₁ : Passes w (.start g₀) s₂.fs ∧ s₂ = { Scanner.start g₀ with fs := s₂.fs } := by
    rw [system, exec_ofFun] at hinspect
    have hmoves := (moves_fstat (w := w) root false).passes (.start g₀)
    rw [← (Prod.mk.inj hinspect).2]
    exact ⟨hmoves, rfl⟩
  obtain ⟨hpasses₁, hs₂⟩ := hpasses₁
  obtain ⟨hpasses₂, hinode, hinode', o, hseen⟩ := openRoot_ok hopened
  have hpasses := hpasses₁.trans hpasses₂
  have htimely := hpasses.timely hw (timely_start g₀)
  obtain ⟨tree, visits, hfound⟩ := finds_scanDirectory hw henumerates fuel pinned [] _ t o htimely
    hseen (hinode'.trans hinode.symm) hscan
  have hadds := hfound.adds
  rw [hs₂] at hadds
  refine ⟨tree, visits, hpasses.trans hfound.passes, hfound.verified, hadds.stored, hadds.entries,
    hadds.exclusions, fun still g hstill hvisits => ?_⟩
  have hstill' : still → w.Still ∧ fs₃.Constant g := by
    intro hs
    obtain ⟨hw', rfl⟩ := hstill hs
    exact ⟨hw', hpasses.constant hw' g (constant_start g)⟩
  obtain ⟨hdepicts, hlisted, -⟩ := hfound.depicts still g hstill' hvisits
  rw [hinode] at hdepicts hlisted
  exact ⟨hdepicts, hlisted, hfound.distinct⟩

omit [DecidableEq ι] in
theorem Interference.Still.advancing (h : w.Still) : w.Advancing := by
  intro tick change hchange
  rw [h tick] at hchange
  exact absurd hchange List.not_mem_nil

/-- What the walk of a tree that nobody changes has found. -/
theorem exists_depicted (hstill : w.Still) (henumerates : w.Enumerates)
    (h : exec (scanTree w codecs options rootPath fuel root) (.start g₀) = (.ok (), t)) :
    ∃ tree : Findings ι, DepictsRoot options True g₀ root tree
      ∧ t.entries = tree.collect (entriesOf codecs)
      ∧ t.exclusions = tree.collect exclusionsOf ∧ t.stored = tree.collect contentsOf := by
  obtain ⟨tree, visits, hpasses, hverified, hstored, hentries, hexcluded, hdepicts⟩ :=
    exists_findings (Interference.Still.advancing hstill) henumerates h
  have hconstant := hpasses.constant hstill g₀ (constant_start g₀)
  refine ⟨tree, hdepicts True g₀ (fun _ => ⟨hstill, rfl⟩) fun v hv => ?_, hentries, hexcluded,
    hstored⟩
  obtain ⟨o, k, hok, ⟨g, call, hat, -⟩, hsame⟩ := hverified v hv
  rw [← hconstant.at hat]
  exact hsame k g call hok (le_refl k) hat

/-- The manifest of a scan shows what is not left out. -/
theorem shows_of_scan (hstill : w.Still) (henumerates : w.Enumerates) {report : ScanReport}
    (h : exec (scanWorkspace w codecs lowercase options rootPath fuel root) (.start g₀)
      = (.ok report, t)) :
    Shows codecs g₀ root (Omits options g₀ root) report.snapshot.manifest.entries := by
  obtain ⟨htree, hreport⟩ := exec_scanWorkspace_eq_ok_iff.mp h
  obtain ⟨hmanifest, -⟩ := exists_of_scanReport hreport
  obtain ⟨tree, hdepicts, hentries, -⟩ := exists_depicted hstill henumerates htree
  have hshows : Shows codecs g₀ root (Omits options g₀ root) (tree.collect (entriesOf codecs)) :=
    shows_omits hdepicts
  have hmem : ∀ entry, entry ∈ report.snapshot.manifest.entries
      ↔ entry ∈ tree.collect (entriesOf codecs) := by
    intro entry
    rw [SnapshotManifest.mem_entries_of_new hmanifest, hentries]
  refine ⟨fun entry hentry => hshows.sound entry ((hmem entry).mp hentry), ?_⟩
  intro names inode hne homits hleads
  obtain ⟨entry, hentry, hsays⟩ := hshows.complete names inode hne homits hleads
  exact ⟨entry, (hmem entry).mpr hentry, hsays⟩

/-- The scan of a tree that nobody changes notes exactly what is to be noted, whatever the order in
which the names of its directories are returned. -/
theorem scan_exact (hstill : w.Still) (henumerates : w.Enumerates) {report : ScanReport}
    (h : exec (scanWorkspace w codecs lowercase options rootPath fuel root) (.start g₀)
      = (.ok report, t)) :
    Shows codecs g₀ root (Omits options g₀ root) report.snapshot.manifest.entries
      ∧ (∀ exclusion ∈ report.exclusions, ∃ names, exclusion.path.text = pathText names
        ∧ Excludes options g₀ root names exclusion.reason)
      ∧ (∀ names reason, Excludes options g₀ root names reason →
        ∃ exclusion ∈ report.exclusions, exclusion.path.text = pathText names
          ∧ exclusion.reason = reason)
      ∧ report.exclusions.Pairwise (fun left right => left.path.text < right.path.text)
      ∧ ∀ bytes, bytes ∈ t.stored ↔ ∃ names inode, names ≠ [] ∧ ¬ Omits options g₀ root names
        ∧ leadsTo g₀ root names = some inode ∧ (g₀ inode).data = .file bytes := by
  obtain ⟨htree, hreport⟩ := exec_scanWorkspace_eq_ok_iff.mp h
  obtain ⟨hmanifest, hexclusions⟩ := exists_of_scanReport hreport
  obtain ⟨tree, visits, hpasses, hverified, hstored, hentries, hexcluded, hdepicts⟩ :=
    exists_findings (Interference.Still.advancing hstill) henumerates htree
  have hconstant := hpasses.constant hstill g₀ (constant_start g₀)
  -- Whatever has been verified is as it has been all the time.
  have hroot : DepictsRoot options True g₀ root tree := by
    refine hdepicts True g₀ (fun _ => ⟨hstill, rfl⟩) fun v hv => ?_
    obtain ⟨o, k, hok, ⟨g, call, hat, -⟩, hsame⟩ := hverified v hv
    rw [← hconstant.at hat]
    exact hsame k g call hok (le_refl k) hat
  have hshows : Shows codecs g₀ root (Omitted (tree.collect exclusionsOf))
      (tree.collect (entriesOf codecs)) := shows_of_depicts hroot
  have hmem : ∀ {x}, x ∈ report.exclusions ↔ x ∈ tree.collect exclusionsOf := by
    intro x
    rw [hexclusions, hexcluded]
    exact List.mem_insertionSort _
  have hmemEntry : ∀ entry, entry ∈ report.snapshot.manifest.entries
      ↔ entry ∈ tree.collect (entriesOf codecs) := by
    intro entry
    rw [SnapshotManifest.mem_entries_of_new hmanifest, hentries]
  refine ⟨⟨?_, ?_⟩, ?_, ?_, ?_, ?_⟩
  · intro entry hentry
    obtain ⟨names, inode, hne, htext, homitted, hleads, hsays⟩ :=
      hshows.sound entry ((hmemEntry entry).mp hentry)
    rw [omitted_iff_omits hroot hne hleads] at homitted
    exact ⟨names, inode, hne, htext, homitted, hleads, hsays⟩
  · intro names inode hne homits hleads
    rw [← omitted_iff_omits hroot hne hleads] at homits
    obtain ⟨entry, hentry, hsays⟩ := hshows.complete names inode hne homits hleads
    exact ⟨entry, (hmemEntry entry).mpr hentry, hsays⟩
  · intro exclusion hexclusion
    exact excludes_of_mem hroot (hmem.mp hexclusion)
  · intro names reason hexcludes
    obtain ⟨exclusion, hexclusion, hsame⟩ := exists_mem_of_excludes hroot hexcludes
    exact ⟨exclusion, hmem.mpr hexclusion, hsame⟩
  · have hsorted : report.exclusions.Pairwise fun left right =>
      left.path.text ≤ right.path.text := by
      rw [hexclusions]
      exact List.pairwise_insertionSort _ _
    have hapart : report.exclusions.Pairwise fun left right =>
      left.path.text ≠ right.path.text := by
      rw [hexclusions, hexcluded]
      exact ((List.perm_insertionSort _ _).pairwise_iff fun h => Ne.symm h).mpr
        (pairwise_exclusions hroot)
    exact (hsorted.and hapart).imp fun hboth => lt_of_le_of_ne hboth.1 hboth.2
  · intro bytes
    rw [hstored]
    exact mem_contents_iff hroot

end Scans

theorem scan_exact_sample : ∃ report t,
    exec (scanWorkspace Sample.still Sample.codecs (fun c => [c]) ⟨[Sample.patternB], 64⟩ [] 20 0)
      (.start Sample.workspace) = (.ok report, t)
    ∧ Shows Sample.codecs Sample.workspace 0 (Omits ⟨[Sample.patternB], 64⟩ Sample.workspace 0)
      report.snapshot.manifest.entries := by
  rcases hexec : exec (scanWorkspace Sample.still Sample.codecs (fun c => [c])
    ⟨[Sample.patternB], 64⟩ [] 20 0) (.start Sample.workspace) with ⟨error | report, t⟩
  · have hok := Sample.scan_succeeds
    rw [hexec] at hok
    exact absurd hok (by simp [Except.isOk, Except.toBool])
  · exact ⟨report, t, rfl, (scan_exact (fun _ => rfl) Sample.still_enumerates hexec).1⟩

end Scan

end Rewind
