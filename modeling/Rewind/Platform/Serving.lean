/-
A file system that nobody changes and that answers every call.

There the traversal of a pinned directory finds the tree as it is, and its operations fail for no
other reason than the limit on the entries of a directory.

* `Serves`, `Answers` — such a file system, and what a call answers in it;
* `answers_openDirectory`, `answers_readSymlink`, `answers_verifyEntry` — the operations on one
  entry;
* `answers_entriesBounded` — a directory is listed exactly when it has no more names than the limit.
-/
import Rewind.Platform.Pinned
import Mathlib.Data.Finset.Card

namespace Rewind

open Call

section Serving

variable {ι ε ε' α β : Type}

/-- Nobody else changes anything, no call fails, and a directory stream returns the names of its
directory, each once. -/
structure Serves (w : Interference ι) : Prop where
  still : w.Still
  answers : ∀ tick, w.fails tick = false
  enumerates : w.Enumerates
  offers : ∀ tick opened current returned name,
    w.nextName tick opened current returned = some name → name ∈ opened ∨ name ∈ current

/-- On the file system `g`, the call ends with a result that has `Q`, and leaves `g` as it is. -/
def Answers (g : Graph ι) (m : Call (InodeSystem ι) ε α) (Q : Except ε α → Prop) : Prop :=
  Ends (fun fs => fs.graph = g) m fun result fs => Q result ∧ fs.graph = g

/-- On the file system `g`, the call succeeds with `a`. -/
def Gives (g : Graph ι) (m : Call (InodeSystem ι) ε α) (a : α) : Prop := Answers g m (· = .ok a)

variable {g : Graph ι} {w : Interference ι}

theorem gives_pure (a : α) : Gives g (pure a : Call (InodeSystem ι) ε α) a :=
  fun _ hfs => ⟨rfl, hfs⟩

theorem Answers.imp {m : Call (InodeSystem ι) ε α} {Q Q' : Except ε α → Prop} (h : Answers g m Q)
    (hQ : ∀ result, Q result → Q' result) : Answers g m Q' :=
  fun fs hfs => ⟨hQ _ (h fs hfs).1, (h fs hfs).2⟩

theorem Answers.bind {m : Call (InodeSystem ι) ε α} {f : α → Call (InodeSystem ι) ε β}
    {Q : Except ε α → Prop} {Q' : Except ε β → Prop} (hm : Answers g m Q)
    (hok : ∀ a, Q (.ok a) → Answers g (f a) Q') (herror : ∀ e, Q (.error e) → Q' (.error e)) :
    Answers g (m >>= f) Q' := by
  refine ends_bind hm (fun a fs hfs => ?_) fun e fs hfs => ⟨herror e hfs.1, hfs.2⟩
  exact hok a hfs.1 fs hfs.2

/-- The rest after a call that succeeds. -/
theorem Gives.bind {m : Call (InodeSystem ι) ε α} {f : α → Call (InodeSystem ι) ε β} {a : α}
    {Q : Except ε β → Prop} (hm : Gives g m a) (hf : Answers g (f a) Q) :
    Answers g (m >>= f) Q := by
  refine Answers.bind hm (fun a' ha' => ?_) fun e he => absurd he (by simp)
  obtain rfl := Except.ok.inj ha'
  exact hf

theorem Answers.mapError {m : Call (InodeSystem ι) ε α} {Q : Except ε α → Prop}
    {Q' : Except ε' α → Prop} {f : ε → ε'} (h : Answers g m Q)
    (hQ : ∀ result, Q result → Q' (result.mapError f)) : Answers g (mapError f m) Q' :=
  fun fs hfs => ⟨hQ _ (h fs hfs).1, (h fs hfs).2⟩

theorem Gives.mapError {m : Call (InodeSystem ι) ε α} {a : α} (h : Gives g m a) (f : ε → ε') :
    Gives g (mapError f m) a := by
  refine Answers.mapError h ?_
  rintro _ rfl
  rfl

theorem answers_ofResult (result : Except ε α) : Answers g (ofResult result) (· = result) :=
  fun _ hfs => ⟨rfl, hfs⟩

theorem gives_ofResult {result : Except ε α} {a : α} (h : result = .ok a) :
    Gives g (ofResult result) a := fun _ hfs => ⟨h, hfs⟩

theorem gives_ensure {p : Prop} [Decidable p] {error : ε} (h : p) :
    Gives g (ofResult (ensure p error)) () := gives_ofResult (ensure_eq_ok_iff.mpr h)

/-- A call finds the file system as it is. -/
theorem Serves.answers_look (hw : Serves w) (call : InodeCall ι)
    (f : Nat → Graph ι → Except Errno α) :
    Answers g (look w call f) fun result => ∃ tick, result = f tick g := by
  intro fs hfs
  have hgraph : (fs.turn w call).graph = g := by
    rw [InodeSystem.turn, hw.still fs.tick]
    exact hfs
  refine ⟨⟨fs.tick, ?_⟩, hgraph⟩
  show (if w.fails fs.tick then .error Errno.EIO else f fs.tick (fs.turn w call).graph) = _
  rw [hw.answers, hgraph]
  rfl

theorem Serves.gives_look (hw : Serves w) (call : InodeCall ι) {f : Nat → Graph ι → Except Errno α}
    {a : α} (h : ∀ tick, f tick g = .ok a) : Gives g (look w call f) a :=
  (hw.answers_look call f).imp fun _ ⟨tick, hresult⟩ => hresult.trans (h tick)

theorem Serves.gives_fstat (hw : Serves w) (i : ι) (verifies : Bool) :
    Gives g (fstat w i verifies) (g.stat i) := hw.gives_look _ fun _ => rfl

theorem Serves.gives_fstatatEntry (hw : Serves w) {directory i : ι} {name : FileName}
    (h : g.child? directory name.bytes = some i) (verifies : Bool) :
    Gives g (fstatatEntry w directory name verifies) (g.stat i) :=
  hw.gives_look _ fun _ => by rw [h]

/-- What a symbolic link leads to. -/
def InodeData.linkTarget : InodeData ι → Option Bytes
  | .symlink target => some target
  | .directory .. | .file _ | .other => none

theorem kind_eq_symlink_iff {data : InodeData ι} :
    data.kind = .symlink ↔ ∃ target, data = .symlink target := by
  cases data with
  | symlink target => exact ⟨fun _ => ⟨target, rfl⟩, fun _ => rfl⟩
  | directory size entries => simp [InodeData.kind]
  | file content => simp [InodeData.kind]
  | other => simp [InodeData.kind]

end Serving

/-! ### Listings -/

section Listings

variable {ι : Type}

/-- What has been read of a directory: some of its names, each once, as they are. -/
structure Partial (g : Graph ι) (directory : ι) (es : List (DirectoryEntry ι)) : Prop where
  nodup : (es.map (·.name)).Nodup
  names : ∀ e ∈ es, e.name ∈ g.names directory
  found : ∀ e ∈ es, g.child? directory e.name.bytes = some e.stat.inode
    ∧ e.stat = g.stat e.stat.inode

/-- All the entries of a directory. -/
structure Listing (g : Graph ι) (directory : ι) (es : List (DirectoryEntry ι)) : Prop extends
    Partial g directory es where
  complete : ∀ name ∈ g.names directory, name ∈ es.map (·.name)

variable {g : Graph ι} {directory : ι} {es : List (DirectoryEntry ι)}

theorem partial_nil : Partial g directory [] where
  nodup := List.nodup_nil
  names := by simp
  found := by simp

theorem Partial.append (h : Partial g directory es) {name : FileName} {i : ι}
    (hnew : name ∉ es.map (·.name)) (hi : g.child? directory name.bytes = some i) :
    Partial g directory (es ++ [⟨name, g.stat i⟩]) where
  nodup := by
    rw [List.map_append, List.nodup_append]
    refine ⟨h.nodup, List.nodup_singleton _, ?_⟩
    intro name' hold name'' hname'' heq
    obtain rfl : name'' = name := List.mem_singleton.mp hname''
    exact hnew (heq ▸ hold)
  names := by
    intro e he
    rcases List.mem_append.mp he with hold | hlast
    · exact h.names e hold
    · rw [List.mem_singleton.mp hlast]
      exact Graph.mem_names_iff.mpr ⟨i, hi⟩
  found := by
    intro e he
    rcases List.mem_append.mp he with hold | hlast
    · exact h.found e hold
    · rw [List.mem_singleton.mp hlast]
      exact ⟨hi, rfl⟩

/-- No more entries than the directory has names. -/
theorem Partial.length_le (h : Partial g directory es) :
    es.length ≤ (g.names directory).toFinset.card := by
  have hsubset : (es.map (·.name)).toFinset ⊆ (g.names directory).toFinset := by
    intro name hname
    obtain ⟨e, he, rfl⟩ := List.mem_map.mp (List.mem_toFinset.mp hname)
    exact List.mem_toFinset.mpr (h.names e he)
  have hcard := Finset.card_le_card hsubset
  rwa [List.toFinset_card_of_nodup h.nodup, List.length_map] at hcard

/-- A name that has not been read is one more. -/
theorem Partial.length_lt (h : Partial g directory es) {name : FileName}
    (hname : name ∈ g.names directory) (hnew : name ∉ es.map (·.name)) :
    es.length < (g.names directory).toFinset.card := by
  obtain ⟨i, hi⟩ := Graph.mem_names_iff.mp hname
  have hle := (h.append hnew hi).length_le
  rw [List.length_append, List.length_singleton] at hle
  omega

theorem Listing.perm (h : Listing g directory es) {es' : List (DirectoryEntry ι)}
    (hperm : es'.Perm es) : Listing g directory es' where
  nodup := ((hperm.map _).nodup_iff).mpr h.nodup
  names := fun e he => h.names e (hperm.mem_iff.mp he)
  found := fun e he => h.found e (hperm.mem_iff.mp he)
  complete := fun name hname => (hperm.map _).mem_iff.mpr (h.complete name hname)

/-- The listing of a directory that has at most `maximum` names, or the error that it has more. -/
def Listed (g : Graph ι) (directory : ι) (maximum : Nat)
    (result : Except (Stop FileSystemError) (List (DirectoryEntry ι))) : Prop :=
  (∃ es, result = .ok es ∧ Listing g directory es ∧ es.length ≤ maximum)
    ∨ (∃ path, result = .error (.error (.directoryEntryLimit path maximum)))
      ∧ maximum < (g.names directory).toFinset.card

end Listings

/-! ### Operations -/

section Operations

variable {ι : Type} [DecidableEq ι] {g : Graph ι} {w : Interference ι} {i : ι}
  {directory : PinnedDirectory ι} {name : FileName}

open Pinned

omit [DecidableEq ι] in
theorem gives_unchanged {path : Bytes} {p : Prop} [Decidable p] (h : p) :
    Gives g (unchanged (ι := ι) path p) () := gives_ofResult (ensure_eq_ok_iff.mpr h)

namespace PinnedDirectory

/-- The directory is pinned as it is. -/
def Opened (g : Graph ι) (directory : PinnedDirectory ι) : Prop :=
  directory.before = g.stat directory.inode ∧ (g directory.inode).data.kind = .directory

theorem gives_verifyUnchanged (hw : Serves w) (h : directory.Opened g) :
    Gives g (directory.verifyUnchanged w) () := by
  refine ((hw.gives_fstat directory.inode true).mapError _).bind ?_
  exact gives_unchanged ⟨h.2, h.1⟩

theorem gives_verifyEntry (hw : Serves w) (hi : g.child? directory.inode name.bytes = some i) :
    Gives g (directory.verifyEntry w ⟨name, g.stat i⟩) () := by
  refine ((hw.gives_fstatatEntry hi true).mapError _).bind ?_
  exact gives_unchanged rfl

theorem gives_openDirectory (hw : Serves w) (hi : g.child? directory.inode name.bytes = some i)
    (hkind : (g i).data.kind = .directory) :
    Gives g (directory.openDirectory w ⟨name, g.stat i⟩)
      ⟨i, directory.childPath name, g.stat i⟩ := by
  refine (gives_unchanged hkind).bind ?_
  have hopen : Gives g (openDirectoryInode w directory.inode name) i :=
    hw.gives_look _ fun _ => by rw [hi]; exact if_pos hkind
  refine (hopen.mapError _).bind ?_
  refine ((hw.gives_fstat i false).mapError _).bind ?_
  exact (gives_unchanged rfl).bind (gives_pure _)

/-- A target that fits its buffer is read at once. -/
theorem gives_readSymlink (hw : Serves w) (hi : g.child? directory.inode name.bytes = some i)
    {target : Bytes} (hdata : (g i).data = .symlink target)
    (hlength : target.length < MAX_SYMLINK_TARGET_BYTES) {fuel : Nat} (hfuel : 0 < fuel) :
    Gives g (directory.readSymlink w fuel ⟨name, g.stat i⟩) target := by
  have hkind : (g.stat i).kind = .symlink := by rw [Graph.stat, hdata]; rfl
  have hsize : (g.stat i).size = target.length := by rw [Graph.stat, hdata]; rfl
  refine (gives_unchanged hkind).bind ?_
  obtain ⟨fuel, rfl⟩ := Nat.exists_eq_succ_of_ne_zero hfuel.ne'
  rw [Pinned.readLinkAt, hsize, Pinned.readLink]
  have hcapacity : target.length < min (max (target.length + 1) 256) MAX_SYMLINK_TARGET_BYTES := by
    omega
  have hread : Gives g (readlinkat w directory.inode name
      (min (max (target.length + 1) 256) MAX_SYMLINK_TARGET_BYTES)) target := by
    refine hw.gives_look _ fun _ => ?_
    rw [hi]
    dsimp only
    rw [hdata]
    dsimp only
    rw [List.take_of_length_le hcapacity.le]
  refine (hread.mapError _).bind ?_
  rw [if_pos hcapacity]
  refine ((hw.gives_fstatatEntry hi true).mapError _).bind ?_
  exact (gives_unchanged rfl).bind (gives_pure _)

omit [DecidableEq ι] in
/-- A file is read to its end, however little a read returns.

By induction on the rounds, each of which reads at least one byte. -/
theorem gives_readChunks (hw : Serves w) {content : Bytes} (hdata : (g i).data = .file content)
    (path : Bytes) {fuel offset remaining : Nat} (hoffset : offset ≤ content.length)
    (hremaining : content.length ≤ offset + remaining) (hfuel : content.length < fuel + offset) :
    Gives g (readChunks w i path fuel remaining (content.take offset)) content := by
  induction fuel generalizing offset remaining with
  | zero => omega
  | succ fuel ih =>
    have hlength : (content.take offset).length = offset := List.length_take_of_le hoffset
    have hall : offset = content.length → content.take offset = content := by
      rintro rfl
      exact List.take_length
    rw [readChunks]
    by_cases hdone : remaining = 0
    · rw [if_pos hdone, hall (by omega)]
      exact gives_pure content
    · rw [if_neg hdone, hlength]
      have hread : Answers g (inodeError "read file" path
          (readFile w i offset (min remaining (64 * 1024)))) fun result => ∃ tick,
            result = .ok ((content.drop offset).take
              (min (min remaining (64 * 1024)) (max 1 (w.readCount tick)))) := by
        refine Answers.mapError (hw.answers_look _ _) ?_
        rintro _ ⟨tick, rfl⟩
        refine ⟨tick, ?_⟩
        rw [hdata]
        rfl
      refine hread.bind ?_ ?_
      swap
      · rintro e ⟨_, he⟩
        exact absurd he (by simp)
      rintro chunk ⟨tick, hchunk⟩
      have hsize := congrArg List.length (Except.ok.inj hchunk)
      rw [List.length_take, List.length_drop] at hsize
      by_cases hempty : chunk = []
      · -- the file ends here
        rw [if_pos hempty, hall]
        · exact gives_pure content
        · rw [hempty, List.length_nil] at hsize
          omega
      · have hpositive := List.length_pos_iff.mpr hempty
        have hnext : content.take offset ++ chunk = content.take (offset + chunk.length) := by
          have hinitial : chunk = (content.drop offset).take chunk.length := by
            conv_lhs => rw [Except.ok.inj hchunk]
            rw [hsize, ← List.length_drop, List.take_eq_take_min, Nat.min_comm]
          rw [List.take_add, ← hinitial]
        rw [if_neg hempty, hnext]
        exact ih (by omega) (by omega) (by omega)

/-- A regular file is read, if it is not too large. -/
theorem answers_readRegularFile (hw : Serves w)
    (hi : g.child? directory.inode name.bytes = some i) {content : Bytes}
    (hdata : (g i).data = .file content) {maximum : UInt64} {fuel : Nat}
    (hfuel : content.length < fuel) :
    Answers g (directory.readRegularFile w fuel ⟨name, g.stat i⟩ maximum) fun result =>
      content.length ≤ maximum.toNat ∧ result = .ok ⟨content, (g i).mode⟩
        ∨ maximum.toNat < content.length
          ∧ ∃ path, result = .error (.error (.fileTooLarge path content.length maximum.toNat)) := by
  have hkind : (g.stat i).kind = .file := by rw [Graph.stat, hdata]; rfl
  have hsize : (g.stat i).size = content.length := by rw [Graph.stat, hdata]; rfl
  have hopen : Gives g (openFileInode w directory.inode name) i := by
    refine hw.gives_look _ fun _ => ?_
    rw [hi]
    refine if_neg ?_
    rw [hdata]
    simp [InodeData.kind]
  refine (gives_ensure hkind).bind ((hopen.mapError _).bind ?_)
  refine ((hw.gives_fstat i false).mapError _).bind ((gives_unchanged rfl).bind ?_)
  by_cases hsmall : content.length ≤ maximum.toNat
  · have hbound := maximum.toNat_lt
    have hchunks : Gives g (readChunks w i (directory.childPath name) fuel
        (min (maximum.toNat + 1) (2 ^ 64 - 1)) (content.take 0)) content :=
      gives_readChunks hw hdata _ (Nat.zero_le _) (by omega) (by omega)
    rw [List.take_zero] at hchunks
    have hread : Gives g (readOpenRegularFile w fuel i (g.stat i) maximum
        (directory.childPath name)) content := by
      refine (gives_ensure hkind).bind ((gives_ensure (by rwa [hsize])).bind ?_)
      refine hchunks.bind ((gives_ensure hsmall).bind ?_)
      refine ((hw.gives_fstat i false).mapError _).bind ?_
      exact (gives_unchanged ⟨rfl, hsize⟩).bind (gives_pure _)
    have hverify : Gives g (verifyNamedEntry w directory.inode name (g.stat i)
        (directory.childPath name)) () :=
      ((hw.gives_fstatatEntry hi true).mapError _).bind (gives_unchanged rfl)
    refine hread.bind (hverify.bind ?_)
    exact Answers.imp (gives_pure _) fun _ hresult => Or.inl ⟨hsmall, hresult⟩
  · have hlarge : Answers g (readOpenRegularFile w fuel i (g.stat i) maximum
        (directory.childPath name)) fun result => result
          = .error (.error (.fileTooLarge (directory.childPath name) content.length
            maximum.toNat)) := by
      refine (gives_ensure hkind).bind ?_
      refine (answers_ofResult _).bind (fun _ hok => ?_) fun e he => ?_
      · rw [hsize] at hok
        exact absurd (ensure_eq_ok_iff.mp hok.symm) hsmall
      · rw [hsize, ensure, if_neg hsmall] at he
        exact congrArg Except.error (Except.error.inj he)
    refine hlarge.bind (fun _ hok => absurd hok (by simp)) fun e he => ?_
    exact Or.inr ⟨Nat.lt_of_not_le hsmall, _, congrArg Except.error (Except.error.inj he)⟩

omit [DecidableEq ι] in
/-- The stream is read to its end, unless the directory has too many names.

Each round reads one more name of the directory, so the fuel need not exceed their number. -/
theorem answers_classify (hw : Serves w) {maximum fuel : Nat} {es : List (DirectoryEntry ι)}
    (hread : Partial g directory.inode es) (hlength : es.length ≤ maximum)
    (hfuel : (g.names directory.inode).toFinset.card < fuel + es.length) :
    Answers g (directory.classify w (g.names directory.inode) maximum fuel es)
      (Listed g directory.inode maximum) := by
  induction fuel generalizing es with
  | zero =>
    have hle := hread.length_le
    omega
  | succ fuel ih =>
    have hnext : Answers g (inodeError "read directory entry" directory.path
        (nextName w directory.inode (g.names directory.inode) (es.map (·.name))))
        fun result => ∃ tick, result = .ok (w.nextName tick
          (g.names directory.inode) (g.names directory.inode) (es.map (·.name))) := by
      refine Answers.mapError (hw.answers_look _ _) ?_
      rintro _ ⟨tick, rfl⟩
      exact ⟨tick, rfl⟩
    refine hnext.bind ?_ fun e ⟨_, he⟩ => absurd he (by simp)
    rintro next ⟨tick, hnext⟩
    obtain rfl := Except.ok.inj hnext
    rcases hname : w.nextName tick (g.names directory.inode) (g.names directory.inode)
      (es.map (·.name)) with _ | name
    · -- the stream ends after the last name
      rw [hname]
      refine fun fs hfs => ⟨Or.inl ⟨es, rfl, ?_, hlength⟩, hfs⟩
      exact { hread with
        complete := fun name hmem => hw.enumerates.complete _ _ _ _ hname name hmem hmem }
    · have hmem : name ∈ g.names directory.inode :=
        (hw.offers _ _ _ _ _ hname).elim id id
      have hnew : name ∉ es.map (·.name) := hw.enumerates.once _ _ _ _ _ hname
      have hlt := hread.length_lt hmem hnew
      rw [hname]
      dsimp only
      by_cases hlimit : es.length = maximum
      · rw [if_pos hlimit]
        exact fun fs hfs => ⟨Or.inr ⟨⟨directory.path, rfl⟩, by omega⟩, hfs⟩
      · rw [if_neg hlimit]
        obtain ⟨i, hi⟩ := Graph.mem_names_iff.mp hmem
        refine ((hw.gives_fstatatEntry hi false).mapError _).bind ?_
        refine ih (hread.append hnew hi) ?_ ?_
        · rw [List.length_append, List.length_singleton]
          omega
        · rw [List.length_append, List.length_singleton]
          omega

/-- A directory is listed exactly when it has no more names than the limit. -/
theorem answers_entriesBounded (hw : Serves w) (hopened : directory.Opened g) {maximum fuel : Nat}
    (hfuel : (g.names directory.inode).toFinset.card < fuel) :
    Answers g (directory.entriesBounded w fuel maximum) (Listed g directory.inode maximum) := by
  refine (gives_verifyUnchanged hw hopened).bind ?_
  have hopen : Gives g (openStream w directory.inode) (g.names directory.inode) :=
    hw.gives_look _ fun _ => rfl
  refine (hopen.mapError _).bind ?_
  refine (answers_classify hw partial_nil (Nat.zero_le _) hfuel).bind ?_ ?_
  · rintro classified (⟨es, hes, hlisting, hlength⟩ | ⟨⟨path, hpath⟩, -⟩)
    · obtain rfl := Except.ok.inj hes
      refine (gives_verifyUnchanged hw hopened).bind ?_
      have hperm := List.perm_insertionSort
        (fun left right : DirectoryEntry ι => left.name.bytes ≤ right.name.bytes) classified
      refine fun fs hfs => ⟨Or.inl ⟨_, rfl, hlisting.perm hperm, ?_⟩, hfs⟩
      rw [hperm.length_eq]
      exact hlength
    · exact absurd hpath (by simp)
  · rintro error (⟨es, hes, -⟩ | ⟨⟨path, hpath⟩, hcard⟩)
    · exact absurd hes (by simp)
    · obtain rfl := Except.error.inj hpath
      exact Or.inr ⟨⟨path, rfl⟩, hcard⟩

end PinnedDirectory

omit [DecidableEq ι] in
/-- The root is opened as it is. -/
theorem gives_openRoot (hw : Serves w) {root : ι} (path : Bytes)
    (hkind : (g root).data.kind = .directory) :
    Gives g (openRoot w root path) ⟨root, path, g.stat root⟩ := by
  have hlook : Gives g (look w .elsewhere fun _ g =>
      ensure ((g root).data.kind = .directory) Errno.ENOTDIR) () :=
    hw.gives_look _ fun _ => ensure_eq_ok_iff.mpr hkind
  refine (hlook.mapError _).bind ?_
  exact ((hw.gives_fstat root false).mapError _).bind (gives_pure _)

end Operations

end Rewind
