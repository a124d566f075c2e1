/-
Files that have any number of names.

A name leads to a file, and a link gives a file a second name.  A new file takes a number that no
name has had before, so that what one party does to its own names can be told from outside:

* `create`, `append`, `link`, `unlink` — the four changes;
* **`Undisturbed`** — what a change leaves as it is for those who have other names.
-/
import Mathlib.Data.List.Basic

/-- Names, and the contents of the files they lead to. -/
structure LinkedFiles (Path Byte : Type*) where
  names : Path → Option Nat
  contents : List (List Byte)
  /-- Every name leads to a file. -/
  valid : ∀ path file, names path = some file → file < contents.length

namespace LinkedFiles

variable {Path Byte : Type*}

/-- No files. -/
def empty : LinkedFiles Path Byte where
  names _ := none
  contents := []
  valid _ _ h := nomatch h

/-- The content of the file with a name. -/
def content? (files : LinkedFiles Path Byte) (path : Path) : Option (List Byte) :=
  (files.names path).bind fun file => files.contents[file]?

theorem content?_of_names {files : LinkedFiles Path Byte} {path : Path} {file : Nat}
    (h : files.names path = some file) : files.content? path = files.contents[file]? := by
  rw [content?, h]
  rfl

theorem content?_isSome (files : LinkedFiles Path Byte) (path : Path) :
    (files.content? path).isSome = (files.names path).isSome := by
  cases h : files.names path with
  | none =>
    rw [content?, h]
    rfl
  | some file =>
    have hlt := files.valid path file h
    rw [content?_of_names h, List.getElem?_eq_getElem hlt]
    rfl

/-- What those who have other names than `mine` see of a change: their names lead to the same files
with the same contents, and no new name leads to one of their files. -/
structure Undisturbed (mine : Path → Prop) (files files' : LinkedFiles Path Byte) : Prop where
  names : ∀ {path file}, ¬ mine path → files.names path = some file →
    files'.names path = some file
  contents : ∀ {path file}, ¬ mine path → files.names path = some file →
    files'.contents[file]? = files.contents[file]?
  origin : ∀ {path file}, files'.names path = some file → files.names path = some file
    ∨ (∃ old, mine old ∧ files.names old = some file) ∨ files.contents.length ≤ file

namespace Undisturbed

variable {mine : Path → Prop} {files files' : LinkedFiles Path Byte} {path : Path}

theorem refl (mine : Path → Prop) (files : LinkedFiles Path Byte) :
    Undisturbed mine files files where
  names _ h := h
  contents _ _ := rfl
  origin h := Or.inl h

theorem content? (h : Undisturbed mine files files') (hpath : ¬ mine path) {content : List Byte}
    (hcontent : files.content? path = some content) : files'.content? path = some content := by
  obtain ⟨file, hnames, hfile⟩ := Option.bind_eq_some_iff.mp hcontent
  rw [content?_of_names (h.names hpath hnames), h.contents hpath hnames]
  exact hfile

/-- Those who are alone with a file stay alone. -/
theorem alone (h : Undisturbed mine files files') (hpath : ¬ mine path) {file : Nat}
    (hnames : files.names path = some file)
    (halone : ∀ other, files.names other = some file → other = path) (other : Path)
    (hother : files'.names other = some file) : other = path := by
  rcases h.origin hother with hold | ⟨old, hmine, hold⟩ | hnew
  · exact halone other hold
  · rw [halone old hold] at hmine
    exact absurd hmine hpath
  · have hlt := files.valid path file hnames
    omega

end Undisturbed

section Changes

variable [DecidableEq Path]

/-- A new, empty file with a new name. -/
def create (files : LinkedFiles Path Byte) (path : Path) : LinkedFiles Path Byte where
  names p := if p = path then some files.contents.length else files.names p
  contents := files.contents ++ [[]]
  valid p file h := by
    rw [List.length_append, List.length_singleton]
    split at h
    · have hfile := Option.some.inj h
      omega
    · have hlt := files.valid p file h
      omega

/-- A write at the end of a file. -/
def append (files : LinkedFiles Path Byte) (file : Nat) (bytes : List Byte) :
    LinkedFiles Path Byte where
  names := files.names
  contents := files.contents.modify file (· ++ bytes)
  valid p file' h := by
    rw [List.length_modify]
    exact files.valid p file' h

/-- A second name of the file that `old` names. -/
def link (files : LinkedFiles Path Byte) (old new : Path) : LinkedFiles Path Byte where
  names p := if p = new then files.names old else files.names p
  contents := files.contents
  valid p file h := by
    split at h
    · exact files.valid old file h
    · exact files.valid p file h

def unlink (files : LinkedFiles Path Byte) (path : Path) : LinkedFiles Path Byte where
  names p := if p = path then none else files.names p
  contents := files.contents
  valid p file h := by
    split at h
    · exact nomatch h
    · exact files.valid p file h

namespace Undisturbed

variable {mine : Path → Prop} {files : LinkedFiles Path Byte} {path : Path}

theorem create (hfree : files.names path = none) : Undisturbed mine files (files.create path) where
  names {p file} _ h := by
    have hne : p ≠ path := by
      rintro rfl
      rw [hfree] at h
      exact nomatch h
    show (if p = path then _ else _) = _
    rw [if_neg hne]
    exact h
  contents _ h := List.getElem?_append_left (files.valid _ _ h)
  origin {p file} h := by
    have hnames : (if p = path then some files.contents.length else files.names p) = some file := h
    split at hnames
    · have hfile := Option.some.inj hnames
      exact Or.inr (Or.inr (by omega))
    · exact Or.inl hnames

omit [DecidableEq Path] in
/-- A write to a file with no name but one of `mine`. -/
theorem append {file : Nat} (bytes : List Byte)
    (halone : ∀ other, files.names other = some file → mine other) :
    Undisturbed mine files (files.append file bytes) where
  names _ h := h
  contents {p file'} hp h := by
    have hne : file ≠ file' := by
      rintro rfl
      exact hp (halone p h)
    exact List.getElem?_modify_ne _ _ hne
  origin h := Or.inl h

theorem link {new : Path} (hmine : mine path) (hfree : files.names new = none) :
    Undisturbed mine files (files.link path new) where
  names {p file} _ h := by
    have hne : p ≠ new := by
      rintro rfl
      rw [hfree] at h
      exact nomatch h
    show (if p = new then _ else _) = _
    rw [if_neg hne]
    exact h
  contents _ _ := rfl
  origin {p file} h := by
    have hnames : (if p = new then files.names path else files.names p) = some file := h
    split at hnames
    · exact Or.inr (Or.inl ⟨path, hmine, hnames⟩)
    · exact Or.inl hnames

theorem unlink (hmine : mine path) : Undisturbed mine files (files.unlink path) where
  names {p file} hp h := by
    have hne : p ≠ path := by
      rintro rfl
      exact hp hmine
    show (if p = path then _ else _) = _
    rw [if_neg hne]
    exact h
  contents _ _ := rfl
  origin {p file} h := by
    have hnames : (if p = path then none else files.names p) = some file := h
    split at hnames
    · exact nomatch hnames
    · exact Or.inl hnames

end Undisturbed

end Changes

end LinkedFiles
