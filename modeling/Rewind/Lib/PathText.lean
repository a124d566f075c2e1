/-
Paths and messages as texts.

`Path::strip_prefix`, `parent` and `file_name` see a path by its components, so that repeated and
trailing slashes and `.` components make no difference; `str::replace` compares texts.
-/
import Rewind.Lib.Bytes

/-! ### Components -/

/-- A piece between slashes that is no component of its own. -/
def isTrivialPiece (piece : Bytes) : Bool := piece = [] ∨ piece = [46]

/-- What a path begins with. -/
inductive PathStart where
  | root
  | current
  | relative
deriving DecidableEq

/-- The start of a path, and the pieces behind it. -/
structure PathPieces where
  start : PathStart
  pieces : List Bytes
deriving DecidableEq

def pathPieces (path : Bytes) : PathPieces :=
  match splitSlash path with
  | [] :: [] => ⟨.relative, []⟩
  | [] :: pieces => ⟨.root, pieces⟩
  | [46] :: pieces => ⟨.current, pieces⟩
  | pieces => ⟨.relative, pieces⟩

/-- The components behind the start. -/
def PathPieces.components (p : PathPieces) : List Bytes := p.pieces.filter (!isTrivialPiece ·)

/-- The pieces behind `components`, if these are the first components of `pieces`. -/
def stripComponents : List Bytes → List Bytes → Option (List Bytes)
  | [], pieces => some pieces
  | _ :: _, [] => none
  | component :: components, piece :: pieces =>
    if isTrivialPiece piece then stripComponents (component :: components) pieces
    else if piece = component then stripComponents components pieces
    else none

/-- Without the pieces at the end that are no components. -/
def trimRight (pieces : List Bytes) : List Bytes :=
    (pieces.reverse.dropWhile isTrivialPiece).reverse

/-- `Components::as_path` in front of the first component. -/
def PathPieces.text (p : PathPieces) : Bytes :=
  match p.start, trimRight p.pieces with
  | .root, pieces => slash :: [slash].intercalate pieces
  | .current, [] => [46]
  | .current, pieces => 46 :: slash :: [slash].intercalate pieces
  | .relative, pieces => [slash].intercalate pieces

/-- `Path::strip_prefix`. -/
def stripPrefix (base path : Bytes) : Option Bytes :=
  let base := pathPieces base
  let path := pathPieces path
  if base.start = .relative ∧ base.components = [] then
    some path.text
  else if base.start = path.start then
    (stripComponents base.components path.pieces).map fun pieces =>
      [slash].intercalate (trimRight (pieces.dropWhile isTrivialPiece))
  else
    none

example : stripPrefix (utf8 "/work/") (utf8 "/work//bin/./tool/") = some (utf8 "bin/./tool") := by
  decide

example : stripPrefix (utf8 "/work") (utf8 "/workshop/tool") = none := by decide

/-- `Path::file_name`: the last component, unless it is `..`. -/
def fileName? (path : Bytes) : Option Bytes :=
  match (trimRight (pathPieces path).pieces).getLast? with
  | none => none
  | some component => if component = [46, 46] then none else some component

theorem mem_splitSlash_of_pathPieces {path piece : Bytes} (h : piece ∈ (pathPieces path).pieces) :
    piece ∈ splitSlash path := by
  unfold pathPieces at h
  split at h
  · exact absurd h List.not_mem_nil
  · rename_i hpieces
    rw [hpieces]
    exact List.mem_cons_of_mem _ h
  · rename_i hpieces
    rw [hpieces]
    exact List.mem_cons_of_mem _ h
  · exact h

/-- A file name is one of the pieces, and none of those that are no name. -/
theorem of_fileName?_eq_some {path name : Bytes} (h : fileName? path = some name) :
    name ∈ splitSlash path ∧ name ≠ [] ∧ name ≠ [46] ∧ name ≠ [46, 46] := by
  unfold fileName? at h
  rcases hlast : (trimRight (pathPieces path).pieces).getLast? with _ | last <;> rw [hlast] at h
  · exact absurd h (by simp)
  · by_cases hparent : last = [46, 46]
    · simp [hparent] at h
    · dsimp only at h
      rw [if_neg hparent] at h
      obtain rfl := Option.some.inj h
      have htrimmed := List.mem_of_getLast? hlast
      have hkept := List.head?_dropWhile_not isTrivialPiece (pathPieces path).pieces.reverse
      rw [trimRight, List.getLast?_reverse] at hlast
      rw [hlast] at hkept
      have hmem := List.mem_reverse.mp ((List.dropWhile_sublist _).subset
        (List.mem_reverse.mp htrimmed))
      have hproper : ¬ (last = [] ∨ last = [46]) := of_decide_eq_false hkept
      exact ⟨mem_splitSlash_of_pathPieces hmem, fun hnil => hproper (Or.inl hnil),
        fun hdot => hproper (Or.inr hdot), hparent⟩

/-- `Path::parent`: the path without its last component, where there is one. -/
def parentPath? (path : Bytes) : Option Bytes :=
  match (pathPieces path).start, trimRight (pathPieces path).pieces with
  | .root, [] => none
  | .relative, [] => none
  | .current, [] => some []
  | start, pieces => some (PathPieces.text ⟨start, pieces.dropLast⟩)

example : parentPath? (utf8 "out//page.html/") = some (utf8 "out") := by decide

example : parentPath? (utf8 "page.html") = some [] ∧ fileName? (utf8 "./..") = none := by decide

/-! ### Replacement -/

/-- The pieces of a text between the occurrences of a pattern that is not empty. -/
def replaceFrom (pattern replacement : Bytes) : Nat → Bytes → Bytes
  | _, [] => []
  | skip + 1, _ :: rest => replaceFrom pattern replacement skip rest
  | 0, b :: rest =>
    if pattern <+: b :: rest then
      replacement ++ replaceFrom pattern replacement (pattern.length - 1) rest
    else
      b :: replaceFrom pattern replacement 0 rest

/-- `str::replace`; an empty pattern is found in front of every character and at the end. -/
def replaceAll (pattern replacement text : Bytes) : Bytes :=
  if pattern = [] then
    (text.flatMap fun b => if isContinuation b then [b] else replacement ++ [b]) ++ replacement
  else
    replaceFrom pattern replacement 0 text

example : replaceAll (utf8 "/work") (utf8 "<workspace>") (utf8 "no /work/a in /work")
    = utf8 "no <workspace>/a in <workspace>" := by decide
