/-
Listings that are read page by page.

A page holds the items after a cursor up to a limit, and whether there are more.  A reader that
goes on from the last item it was given visits every row of the table once, in the order of the
keys.

* `Pager.fold` — the loop over the pages, up to the first one without more;
* `Pager.Visits` — the items of the pages from a cursor on;
* **`Pager.Reads.rows`** — over a table with distinct keys, these are its rows after the cursor.
-/
import Rewind.Lib.Fallible
import Mathlib.Data.List.Sort

/-- A part of a listing. -/
structure Page (α : Type) where
  items : List α
  hasMore : Bool

/-- The cursor from which the page after this one is read. -/
def Page.next {α κ : Type} (page : Page α) (key : α → κ) (cursor : κ) : κ :=
  (page.items.getLast?.map key).getD cursor

/-! ### The loop over the pages -/

/-- A listing by pages, in which a page with more after it comes nearer to the end. -/
structure Pager (α κ ε : Type) where
  load : κ → Except ε (Page α)
  key : α → κ
  remaining : κ → Nat
  advances : ∀ {cursor : κ} {page : Page α}, load cursor = .ok page → page.hasMore = true →
    remaining (page.next key cursor) < remaining cursor

namespace Pager

variable {α β κ ε ε' σ τ : Type}

/-- Feeds the items to `f`, page after page. -/
def fold (P : Pager α κ ε) (lift : ε → ε') (f : σ → α → Except ε' σ) (cursor : κ) (s : σ) :
    Except ε' σ :=
  match hload : P.load cursor with
  | .error error => .error (lift error)
  | .ok page =>
    match page.items.foldlM f s with
    | .error error => .error error
    | .ok s =>
      if hmore : page.hasMore = true then
        have := P.advances hload hmore
        fold P lift f (page.next P.key cursor) s
      else
        .ok s
termination_by P.remaining cursor

/-- The loop reads a page, and goes on behind it if there is more. -/
theorem fold_eq (P : Pager α κ ε) (lift : ε → ε') (f : σ → α → Except ε' σ) (cursor : κ) (s : σ) :
    P.fold lift f cursor s = (P.load cursor).mapError lift >>= fun page =>
      page.items.foldlM f s >>= fun s =>
        if page.hasMore = true then P.fold lift f (page.next P.key cursor) s else .ok s := by
  rw [fold]
  split
  case h_1 error hload =>
    have herror : (P.load cursor).mapError lift = .error (lift error) := by rw [hload]; rfl
    rw [herror]
    rfl
  case h_2 page hload =>
    have hpage : (P.load cursor).mapError lift = .ok page := by rw [hload]; rfl
    rw [hpage]
    show _ = page.items.foldlM f s >>= _
    split
    case h_1 error hitems =>
      rw [hitems]
      rfl
    case h_2 s' hitems =>
      rw [hitems]
      rfl

/-- The items of the pages from a cursor on. -/
inductive Visits (P : Pager α κ ε) : κ → List α → Prop where
  | last {cursor : κ} {items : List α} (h : P.load cursor = .ok ⟨items, false⟩) :
    Visits P cursor items
  | more {cursor : κ} {items rest : List α} (h : P.load cursor = .ok ⟨items, true⟩)
    (hrest : Visits P (Page.next ⟨items, true⟩ P.key cursor) rest) :
    Visits P cursor (items ++ rest)

/-- A loop that succeeds has been fed the items of all pages. -/
theorem fold_ok {P : Pager α κ ε} {lift : ε → ε'} {f : σ → α → Except ε' σ} {cursor : κ} {s s' : σ}
    (h : P.fold lift f cursor s = .ok s') :
    ∃ items, P.Visits cursor items ∧ items.foldlM f s = .ok s' := by
  generalize hn : P.remaining cursor = n
  induction n using Nat.strong_induction_on generalizing cursor s with
  | _ n ih =>
    rw [fold_eq] at h
    obtain ⟨⟨items, hasMore⟩, hload, h⟩ := Except.bind_eq_ok_iff.mp h
    replace hload := Except.mapError_eq_ok_iff.mp hload
    obtain ⟨s₁, hitems, h⟩ := Except.bind_eq_ok_iff.mp h
    cases hasMore with
    | false =>
      obtain rfl := Except.ok.inj h
      exact ⟨items, .last hload, hitems⟩
    | true =>
      rw [if_pos rfl] at h
      have hless := P.advances hload rfl
      obtain ⟨rest, hvisits, hrest⟩ := ih _ (hn ▸ hless) h rfl
      refine ⟨items ++ rest, .more hload hvisits, ?_⟩
      rw [List.foldlM_append, hitems]
      exact hrest

/-- Pages that can always be read come to an end. -/
theorem exists_visits {P : Pager α κ ε} (htotal : ∀ cursor, ∃ page, P.load cursor = .ok page)
    (cursor : κ) : ∃ items, P.Visits cursor items := by
  generalize hn : P.remaining cursor = n
  induction n using Nat.strong_induction_on generalizing cursor with
  | _ n ih =>
    obtain ⟨⟨items, hasMore⟩, hload⟩ := htotal cursor
    cases hasMore with
    | false => exact ⟨items, .last hload⟩
    | true =>
      have hless := P.advances hload rfl
      obtain ⟨rest, hrest⟩ := ih _ (hn ▸ hless) _ rfl
      exact ⟨items ++ rest, .more hload hrest⟩

/-- Pages that hold related items. -/
def SamePage (R : α → β → Prop) (page : Page α) (page' : Page β) : Prop :=
  List.Forall₂ R page.items page'.items ∧ page.hasMore = page'.hasMore

theorem next_eq {R : α → β → Prop} {key : α → κ} {key' : β → κ}
    (hkey : ∀ a b, R a b → key a = key' b) {page : Page α} {page' : Page β}
    (h : List.Forall₂ R page.items page'.items) (cursor : κ) :
    page.next key cursor = page'.next key' cursor := by
  have hlast : page.items.getLast?.map key = page'.items.getLast?.map key' := by
    rw [← List.getLast?_map, ← List.getLast?_map]
    have hmap : page.items.map key = page'.items.map key' := by
      rw [← List.forall₂_eq_eq_eq, List.forall₂_map_left_iff, List.forall₂_map_right_iff]
      exact h.imp hkey
    rw [hmap]
  rw [Page.next, Page.next, hlast]

/-- Loops over related pages agree. -/
theorem fold_agree {P : Pager α κ ε} {Q : Pager β κ ε} {R : α → β → Prop} {S : σ → τ → Prop}
    {lift : ε → ε'} {f : σ → α → Except ε' σ} {g : τ → β → Except ε' τ}
    (hload : ∀ cursor, Except.Agree (SamePage R) (P.load cursor) (Q.load cursor))
    (hkey : ∀ a b, R a b → P.key a = Q.key b)
    (hfg : ∀ s t a b, S s t → R a b → Except.Agree S (f s a) (g t b))
    {cursor : κ} {s : σ} {t : τ} (hst : S s t) :
    Except.Agree S (P.fold lift f cursor s) (Q.fold lift g cursor t) := by
  generalize hn : P.remaining cursor = n
  induction n using Nat.strong_induction_on generalizing cursor s t with
  | _ n ih =>
    rw [fold_eq, fold_eq]
    have hagree := hload cursor
    rcases hP : P.load cursor with error | page
    · rw [hP] at hagree
      generalize Q.load cursor = loaded at hagree
      cases hagree
      exact .error _
    · rw [hP] at hagree
      generalize Q.load cursor = loaded at hagree
      cases hagree with
      | @ok _ page' hpage =>
        obtain ⟨hitems, hmore⟩ := hpage
        refine (Except.Agree.foldlM hitems hst hfg).bind fun s₁ t₁ hst₁ => ?_
        -- there is more after both pages or after none
        rw [← hmore, ← next_eq hkey hitems]
        by_cases hhas : page.hasMore = true
        · rw [if_pos hhas, if_pos hhas]
          exact ih _ (hn ▸ P.advances hP hhas) hst₁ rfl
        · rw [if_neg hhas, if_neg hhas]
          exact .ok hst₁

end Pager

/-! ### Pages read by a call -/

section Calls

variable {α κ σ τ ε : Type}

/-- The page of a listing of which `items` are left. -/
def Page.front (limit : Nat) (items : List α) : Page α :=
  ⟨items.take limit, decide (limit < items.length)⟩

/-- One item more than fits on the page tells whether there is more. -/
theorem Page.front_take (limit : Nat) (items : List α) :
    Page.front limit (items.take (limit + 1)) = Page.front limit items := by
  rw [Page.front, Page.front, List.take_take, min_eq_left (Nat.le_succ limit), List.length_take]
  congr 1
  rw [decide_eq_decide]
  omega

/-- The loop over the pages of a listing, at most `fuel` of them: the items of a page are fed to
`body` before the next page is read. -/
def Call.pages (spent : ε) (load : κ → Call σ ε (Page α)) (key : α → κ)
    (body : τ → α → Call σ ε τ) : Nat → κ → τ → Call σ ε τ
  | 0, _, _ => throw spent
  | fuel + 1, cursor, t => do
    let page ← load cursor
    let t ← page.items.foldlM body t
    if page.hasMore then Call.pages spent load key body fuel (page.next key cursor) t else return t

variable {load : κ → Call σ ε (Page α)} {key : α → κ} {body : τ → α → Call σ ε τ}
  {I : κ → List α → τ → σ → Prop} {F : ε → σ → Prop}

/-- The items of a page, one after the other: `I` holds of the cursor, of what is left of the
listing, and of the state. -/
theorem Call.ends_items
    (hbody : ∀ cursor item back t, Call.Ends (I cursor (item :: back) t) (body t item)
      (Call.Either (fun t' => I (key item) back t') F)) (items back : List α) (cursor : κ) (t : τ) :
    Call.Ends (I cursor (items ++ back) t) (items.foldlM body t)
      (Call.Either (fun t' => I ((items.getLast?.map key).getD cursor) back t') F) := by
  induction items generalizing cursor t with
  | nil => exact Call.ends_pure fun _ hs => hs
  | cons item rest ih =>
    rw [List.foldlM_cons]
    refine Call.ends_either_bind (hbody cursor item (rest ++ back) t) fun t' => ?_
    have hlast : ((item :: rest).getLast?.map key).getD cursor
        = (rest.getLast?.map key).getD (key item) := by
      rw [List.getLast?_cons]
      rcases rest.getLast? with _ | last
      · rfl
      · rfl
    rw [hlast]
    exact ih (key item) t'

/-- **The loop over the pages** ends with nothing left of the listing, if a load returns the page
at the cursor. -/
theorem Call.ends_pages {spent : ε} {limit : Nat} (hlimit : 0 < limit)
    (hload : ∀ cursor back t, Call.Ends (I cursor back t) (load cursor)
      (Call.Either (fun page s => page = Page.front limit back ∧ I cursor back t s) F))
    (hbody : ∀ cursor item back t, Call.Ends (I cursor (item :: back) t) (body t item)
      (Call.Either (fun t' => I (key item) back t') F))
    {fuel : Nat} {cursor : κ} {back : List α} {t : τ} (hfuel : back.length < fuel) :
    Call.Ends (I cursor back t) (Call.pages spent load key body fuel cursor t)
      (Call.Either (fun t' s => ∃ cursor', I cursor' [] t' s) F) := by
  induction fuel generalizing cursor back t with
  | zero => exact absurd hfuel (Nat.not_lt_zero _)
  | succ fuel ih =>
    unfold Call.pages
    refine Call.ends_either_bind (hload cursor back t) fun page => ?_
    rintro s ⟨rfl, hs⟩
    have hsplit : back = (Page.front limit back).items ++ back.drop limit :=
      (List.take_append_drop limit back).symm
    have hitems := Call.ends_items hbody (Page.front limit back).items (back.drop limit) cursor t
    refine Call.ends_either_bind hitems (fun t' => ?_) s (hsplit ▸ hs)
    by_cases hmore : limit < back.length
    · have hhas : (Page.front limit back).hasMore = true := decide_eq_true hmore
      rw [if_pos hhas]
      refine ih ?_
      rw [List.length_drop]
      omega
    · have hhas : ¬ (Page.front limit back).hasMore = true := by
        intro h
        exact hmore (of_decide_eq_true h)
      rw [if_neg hhas, List.drop_eq_nil_of_le (by omega)]
      exact Call.ends_pure fun _ hs => ⟨_, hs⟩

end Calls

/-! ### Pages of a table -/

section Table

variable {ρ κ α ε : Type} [LinearOrder κ] (key : ρ → κ)

/-- `WHERE key > after ORDER BY key`. -/
def rowsAfter (rows : List ρ) (after : κ) : List ρ :=
  (rows.filter fun row => after < key row).insertionSort fun r r' => key r ≤ key r'

/-- The rows after a cursor, read up to one more than fit on the page. -/
def loadPage (decode : ρ → Except ε α) (rows : List ρ) (after : κ) (limit : Nat) :
    Except ε (Page α) := do
  let items ← ((rowsAfter key rows after).take (limit + 1)).mapM decode
  return ⟨items.take limit, decide (limit < items.length)⟩

variable {key}

theorem mem_rowsAfter {rows : List ρ} {after : κ} {row : ρ} :
    row ∈ rowsAfter key rows after ↔ row ∈ rows ∧ after < key row := by
  rw [rowsAfter, List.mem_insertionSort, List.mem_filter, decide_eq_true_iff]

/-- Distinct keys ascend strictly. -/
theorem rowsAfter_pairwise {rows : List ρ} (hdistinct : (rows.map key).Nodup) (after : κ) :
    (rowsAfter key rows after).Pairwise fun r r' => key r < key r' := by
  have hsorted : (rowsAfter key rows after).Pairwise fun r r' => key r ≤ key r' :=
    List.pairwise_insertionSort _ _
  have hnodup : ((rowsAfter key rows after).map key).Nodup :=
    ((List.perm_insertionSort _ _).map key).nodup_iff.mpr
      (hdistinct.sublist (List.Sublist.map key List.filter_sublist))
  rw [List.Nodup, List.pairwise_map] at hnodup
  exact (hsorted.and hnodup).imp fun h => lt_of_le_of_ne h.1 h.2

/-- Lists of rows with ascending keys are equal if they have the same members. -/
theorem eq_of_pairwise_key {rows rows' : List ρ} (h : rows.Pairwise fun r r' => key r < key r')
    (h' : rows'.Pairwise fun r r' => key r < key r') (hmem : ∀ row, row ∈ rows ↔ row ∈ rows') :
    rows = rows' := by
  have hnodup : ∀ {l : List ρ}, (l.Pairwise fun r r' => key r < key r') → l.Nodup := by
    intro l hl
    exact hl.imp fun hlt heq => absurd (heq ▸ hlt) (lt_irrefl _)
  have hperm : rows.Perm rows' := (List.perm_ext_iff_of_nodup (hnodup h) (hnodup h')).mpr hmem
  exact hperm.eq_of_pairwise (fun _ _ _ _ hlt hlt' => absurd hlt (lt_asymm hlt')) h h'

/-- After the key of one of its rows, a listing goes on with the rows behind it. -/
theorem rowsAfter_key {rows : List ρ} (hdistinct : (rows.map key).Nodup) {after : κ}
    {front back : List ρ} {row : ρ} (h : rowsAfter key rows after = front ++ row :: back) :
    rowsAfter key rows (key row) = back := by
  have hsorted := rowsAfter_pairwise hdistinct after
  rw [h, List.pairwise_append, List.pairwise_cons] at hsorted
  obtain ⟨-, ⟨hback, hsortedBack⟩, hfront⟩ := hsorted
  refine eq_of_pairwise_key (rowsAfter_pairwise hdistinct _) hsortedBack ?_
  intro other
  rw [mem_rowsAfter]
  have hrow : row ∈ rowsAfter key rows after := by
    rw [h]
    exact List.mem_append_right _ List.mem_cons_self
  constructor
  · rintro ⟨hmem, hlt⟩
    have hother : other ∈ front ++ row :: back := by
      rw [← h, mem_rowsAfter]
      exact ⟨hmem, (mem_rowsAfter.mp hrow).2.trans hlt⟩
    rcases List.mem_append.mp hother with hin | hin
    · exact absurd (hfront other hin row List.mem_cons_self) (lt_asymm hlt)
    · rcases List.mem_cons.mp hin with rfl | hin
      · exact absurd hlt (lt_irrefl _)
      · exact hin
  · intro hin
    have hother : other ∈ rowsAfter key rows after := by
      rw [h]
      exact List.mem_append_right _ (List.mem_cons_of_mem _ hin)
    exact ⟨(mem_rowsAfter.mp hother).1, hback other hin⟩

/-- After the last of its first rows, a listing goes on with the others. -/
theorem rowsAfter_split {rows : List ρ} (hdistinct : (rows.map key).Nodup) {after : κ}
    {front back : List ρ} (h : rowsAfter key rows after = front ++ back) :
    rowsAfter key rows ((front.getLast?.map key).getD after) = back := by
  rcases List.eq_nil_or_concat front with rfl | ⟨init, last, rfl⟩
  · exact h
  · rw [List.concat_eq_append] at h ⊢
    rw [List.getLast?_concat]
    have hsplit : rowsAfter key rows after = init ++ last :: back := by
      rw [h, List.append_assoc, List.singleton_append]
    exact rowsAfter_key hdistinct hsplit

/-- A listing depends on the rows after its cursor only. -/
theorem rowsAfter_congr {rows rows' : List ρ} (hdistinct : (rows.map key).Nodup)
    (hdistinct' : (rows'.map key).Nodup) {after : κ}
    (h : ∀ row, after < key row → (row ∈ rows' ↔ row ∈ rows)) :
    rowsAfter key rows' after = rowsAfter key rows after := by
  refine eq_of_pairwise_key (rowsAfter_pairwise hdistinct' after)
    (rowsAfter_pairwise hdistinct after) fun row => ?_
  rw [mem_rowsAfter, mem_rowsAfter]
  constructor
  · rintro ⟨hmem, hlt⟩
    exact ⟨(h row hlt).mp hmem, hlt⟩
  · rintro ⟨hmem, hlt⟩
    exact ⟨(h row hlt).mpr hmem, hlt⟩

/-- What stands before none of the keys passed over is still ahead. -/
theorem mem_dropWhile_lt {rows : List κ} {target row : κ} (h : row ∈ rows) (hle : target ≤ row) :
    row ∈ rows.dropWhile (· < target) := by
  induction rows with
  | nil => exact absurd h List.not_mem_nil
  | cons first rest ih =>
    by_cases hfirst : first < target
    · rw [List.dropWhile_cons_of_pos (by simpa using hfirst)]
      rcases List.mem_cons.mp h with rfl | hrest
      · exact absurd hfirst (not_lt.mpr hle)
      · exact ih hrest
    · rwa [List.dropWhile_cons_of_neg (by simpa using hfirst)]

/-- In ascending order, a search for a key ends at it. -/
theorem head?_dropWhile_lt {rows : List κ} (hsorted : rows.Pairwise (· < ·)) {target : κ}
    (h : target ∈ rows) : (rows.dropWhile (· < target)).head? = some target := by
  induction rows with
  | nil => exact absurd h List.not_mem_nil
  | cons first rest ih =>
    obtain ⟨hfirst, hrest⟩ := List.pairwise_cons.mp hsorted
    rcases List.mem_cons.mp h with rfl | hmem
    · rw [List.dropWhile_cons_of_neg (by simp)]
      rfl
    · rw [List.dropWhile_cons_of_pos (by simpa using hfirst target hmem)]
      exact ih hrest hmem

/-- Rows that are numbered from one on: behind the cursor `n` are all but the first `n`. -/
theorem rowsAfter_numbered {key : ρ → Nat} {rows : List ρ}
    (h : rows.map key = List.range' 1 rows.length) (n : Nat) :
    rowsAfter key rows n = rows.drop n := by
  have hkey : ∀ (i : Nat) (hi : i < rows.length), key rows[i] = i + 1 := by
    intro i hi
    have hnumber : (rows.map key)[i]? = (List.range' 1 rows.length)[i]? := by rw [h]
    rw [List.getElem?_map, List.getElem?_eq_getElem hi, List.getElem?_range' hi] at hnumber
    simp only [Option.map_some, Option.some.injEq] at hnumber
    omega
  have hascending : rows.Pairwise fun r r' => key r < key r' := by
    refine List.pairwise_map.mp ?_
    rw [h]
    exact List.pairwise_lt_range' 1 (by omega)
  have hdistinct : (rows.map key).Nodup := by
    rw [h]
    exact List.nodup_range'
  refine eq_of_pairwise_key (rowsAfter_pairwise hdistinct n)
    (hascending.sublist (List.drop_sublist n rows)) fun row => ?_
  rw [mem_rowsAfter]
  constructor
  · rintro ⟨hrow, hlt⟩
    obtain ⟨i, hi, rfl⟩ := List.mem_iff_getElem.mp hrow
    rw [hkey i hi] at hlt
    refine List.mem_iff_getElem.mpr ⟨i - n, by rw [List.length_drop]; omega, ?_⟩
    rw [List.getElem_drop]
    congr 1
    omega
  · intro hrow
    obtain ⟨i, hi, rfl⟩ := List.mem_iff_getElem.mp hrow
    rw [List.length_drop] at hi
    rw [List.getElem_drop, hkey _ (by omega)]
    exact ⟨List.getElem_mem _, by omega⟩

/-- A page has the front of the listing, and all of it unless it says that there is more. -/
theorem loadPage_ok {decode : ρ → Except ε α} {rows : List ρ} {after : κ} {limit : Nat}
    {page : Page α} (h : loadPage key decode rows after limit = .ok page) :
    List.Forall₂ (fun row a => decode row = .ok a) ((rowsAfter key rows after).take limit)
      page.items
      ∧ (page.hasMore = true ↔ limit < (rowsAfter key rows after).length) := by
  obtain ⟨items, hitems, h⟩ := Except.bind_eq_ok_iff.mp h
  obtain rfl := Except.ok.inj h
  have hdecoded := List.mapM_eq_ok_iff.mp hitems
  have hlength := hdecoded.length_eq
  rw [List.length_take] at hlength
  constructor
  · have htake := List.forall₂_take limit hdecoded
    rwa [List.take_take, min_eq_left (Nat.le_succ limit)] at htake
  · rw [decide_eq_true_iff]
    omega

/-- Rows that decode are loaded as the front of what they decode to. -/
theorem loadPage_of_mapM {decode : ρ → Except ε α} {rows : List ρ} {after : κ} {items : List α}
    (h : (rowsAfter key rows after).mapM decode = .ok items) (limit : Nat) :
    loadPage key decode rows after limit = .ok (Page.front limit items) := by
  have hitems := List.forall₂_take (limit + 1) (List.mapM_eq_ok_iff.mp h)
  rw [← Page.front_take]
  exact Except.bind_eq_ok_iff.mpr ⟨_, List.mapM_eq_ok_iff.mpr hitems, rfl⟩

section Related

variable {ρ' β : Type} {key' : ρ' → κ} {R : ρ → ρ' → Prop}

theorem forall₂_orderedInsert (hkey : ∀ r r', R r r' → key r = key' r') {row : ρ} {row' : ρ'}
    {rows : List ρ} {rows' : List ρ'} (hrow : R row row') (h : List.Forall₂ R rows rows') :
    List.Forall₂ R (rows.orderedInsert (fun r s => key r ≤ key s) row)
      (rows'.orderedInsert (fun r s => key' r ≤ key' s) row') := by
  induction h with
  | nil => exact .cons hrow .nil
  | cons hfirst hrest ih =>
    rw [List.orderedInsert_cons, List.orderedInsert_cons, hkey _ _ hrow, hkey _ _ hfirst]
    split
    · exact .cons hrow (.cons hfirst hrest)
    · exact .cons hfirst ih

/-- Tables that are related row by row have related listings. -/
theorem forall₂_rowsAfter (hkey : ∀ r r', R r r' → key r = key' r') {rows : List ρ}
    {rows' : List ρ'} (h : List.Forall₂ R rows rows') (after : κ) :
    List.Forall₂ R (rowsAfter key rows after) (rowsAfter key' rows' after) := by
  unfold rowsAfter
  induction h with
  | nil => exact .nil
  | @cons row row' rows rows' hrow _ ih =>
    rw [List.filter_cons, List.filter_cons, hkey _ _ hrow]
    split
    · exact forall₂_orderedInsert hkey hrow ih
    · exact ih

/-- Related tables have related pages. -/
theorem loadPage_agree {S : α → β → Prop} {decode : ρ → Except ε α} {decode' : ρ' → Except ε β}
    (hkey : ∀ r r', R r r' → key r = key' r')
    (hdecode : ∀ r r', R r r' → Except.Agree S (decode r) (decode' r')) {rows : List ρ}
    {rows' : List ρ'} (h : List.Forall₂ R rows rows') (after : κ) (limit : Nat) :
    Except.Agree (Pager.SamePage S) (loadPage key decode rows after limit)
      (loadPage key' decode' rows' after limit) := by
  have hrows := List.forall₂_take (limit + 1) (forall₂_rowsAfter hkey h after)
  refine (Except.Agree.mapM hrows hdecode).bind fun items items' hitems => .ok ⟨?_, ?_⟩
  · exact List.forall₂_take limit hitems
  · show decide (limit < items.length) = decide (limit < items'.length)
    rw [hitems.length_eq]

end Related

/-- The last rows of related lists are related. -/
theorem getLast?_of_forall₂ {R : ρ → α → Prop} {front : List ρ} {row : ρ} {items : List α}
    (h : List.Forall₂ R (front ++ [row]) items) : ∃ a, items.getLast? = some a ∧ R row a := by
  have hreverse := List.forall₂_reverse_iff.mpr h
  rw [List.reverse_append, List.reverse_singleton, List.singleton_append,
    List.forall₂_cons_left_iff] at hreverse
  obtain ⟨a, rest, ha, -, hitems⟩ := hreverse
  refine ⟨a, ?_, ha⟩
  rw [List.getLast?_eq_head?_reverse, hitems, List.head?_cons]

theorem exists_of_forall₂ {R : ρ → α → Prop} {rows : List ρ} {items : List α}
    (h : List.Forall₂ R rows items) {a : α} (ha : a ∈ items) : ∃ row ∈ rows, R row a := by
  induction h with
  | nil => exact absurd ha (by simp)
  | @cons row first rows items hfirst _ ih =>
    rcases List.mem_cons.mp ha with rfl | hmem
    · exact ⟨row, List.mem_cons_self, hfirst⟩
    · obtain ⟨row', hrow', hrelated⟩ := ih hmem
      exact ⟨row', List.mem_cons_of_mem _ hrow', hrelated⟩

/-- Items stand in the order of their rows. -/
theorem pairwise_of_forall₂ {R : ρ → α → Prop} {P : ρ → ρ → Prop} {Q : α → α → Prop}
    (hPQ : ∀ r r' a a', R r a → R r' a' → P r r' → Q a a') {rows : List ρ} {items : List α}
    (h : List.Forall₂ R rows items) (hrows : rows.Pairwise P) : items.Pairwise Q := by
  induction h with
  | nil => exact List.Pairwise.nil
  | @cons row first rows items hfirst hrest ih =>
    obtain ⟨hrow, hrows⟩ := List.pairwise_cons.mp hrows
    refine List.pairwise_cons.mpr ⟨fun a ha => ?_, ih hrows⟩
    obtain ⟨row', hrow', hrelated⟩ := exists_of_forall₂ hrest ha
    exact hPQ _ _ _ _ hfirst hrelated (hrow row' hrow')

/-- A page that says that there is more ends with a row of the listing that has more behind it. -/
theorem last_of_loadPage {decode : ρ → Except ε α} {rows : List ρ} {after : κ} {limit : Nat}
    (hlimit : 0 < limit) {page : Page α} (h : loadPage key decode rows after limit = .ok page)
    (hmore : page.hasMore = true) :
    ∃ row a, page.items.getLast? = some a ∧ decode row = .ok a
      ∧ rowsAfter key rows after = (rowsAfter key rows after).take (limit - 1)
        ++ row :: (rowsAfter key rows after).drop limit := by
  obtain ⟨hitems, hlength⟩ := loadPage_ok h
  replace hlength := hlength.mp hmore
  obtain ⟨n, rfl⟩ := Nat.exists_eq_succ_of_ne_zero hlimit.ne'
  have hn : n < (rowsAfter key rows after).length := by omega
  rw [← List.take_append_getElem hn] at hitems
  obtain ⟨a, hlast, hdecode⟩ := getLast?_of_forall₂ hitems
  refine ⟨_, a, hlast, hdecode, ?_⟩
  rw [Nat.succ_sub_one, List.getElem_cons_drop, List.take_append_drop]

/-- Fewer rows come after one of the rows of a listing. -/
theorem length_rowsAfter_lt {rows : List ρ} {after : κ} {row : ρ}
    (h : row ∈ rowsAfter key rows after) :
    (rowsAfter key rows (key row)).length < (rowsAfter key rows after).length := by
  obtain ⟨hrow, hafter⟩ := mem_rowsAfter.mp h
  simp only [rowsAfter, List.length_insertionSort]
  have hfilter : (rows.filter fun other => key row < key other)
      = (rows.filter fun other => after < key other).filter fun other => key row < key other := by
    rw [List.filter_filter]
    refine List.filter_congr fun other _ => ?_
    rw [Bool.eq_iff_iff]
    simp only [Bool.and_eq_true, decide_eq_true_eq]
    exact ⟨fun hlt => ⟨hlt, hafter.trans hlt⟩, fun hlt => hlt.1⟩
  rw [hfilter]
  refine List.length_filter_lt_length_iff_exists.mpr ⟨row, ?_, by simp⟩
  exact List.mem_filter.mpr ⟨hrow, decide_eq_true hafter⟩

/-- The pager of a table, whose cursors stand for the keys `pos`. -/
def Pager.ofTable {κ' : Type} (key : ρ → κ) (decode : ρ → Except ε α) (rows : List ρ)
    (pos : κ' → κ) (keyOf : α → κ') (load : κ' → Except ε (Page α))
    (hload : ∀ {cursor : κ'} {page : Page α}, load cursor = .ok page →
      ∃ limit, 0 < limit ∧ loadPage key decode rows (pos cursor) limit = .ok page)
    (hpos : ∀ {row : ρ} {a : α}, decode row = .ok a → pos (keyOf a) = key row) :
    Pager α κ' ε where
  load := load
  key := keyOf
  remaining cursor := (rowsAfter key rows (pos cursor)).length
  advances := by
    intro cursor page hpage hmore
    obtain ⟨limit, hlimit, hpage⟩ := hload hpage
    obtain ⟨row, a, hlast, hdecode, hsplit⟩ := last_of_loadPage hlimit hpage hmore
    have hnext : pos (page.next keyOf cursor) = key row := by
      rw [Page.next, hlast, Option.map_some, Option.getD_some, hpos hdecode]
    rw [hnext]
    refine length_rowsAfter_lt ?_
    rw [hsplit]
    exact List.mem_append_right _ List.mem_cons_self

/-- The loads of a pager are pages of a table. -/
structure Pager.Reads {κ' : Type} (P : Pager α κ' ε) (key : ρ → κ) (decode : ρ → Except ε α)
    (rows : List ρ) (pos : κ' → κ) : Prop where
  load : ∀ {cursor : κ'} {page : Page α}, P.load cursor = .ok page →
    ∃ limit, 0 < limit ∧ loadPage key decode rows (pos cursor) limit = .ok page
  position : ∀ {row : ρ} {a : α}, decode row = .ok a → pos (P.key a) = key row
  distinct : (rows.map key).Nodup

/-- **The pages of a table** hold its rows after the cursor, each of them once. -/
theorem Pager.Reads.rows {κ' : Type} {P : Pager α κ' ε} {decode : ρ → Except ε α} {rows : List ρ}
    {pos : κ' → κ} (hreads : P.Reads key decode rows pos) {cursor : κ'} {items : List α}
    (h : P.Visits cursor items) :
    List.Forall₂ (fun row a => decode row = .ok a) (rowsAfter key rows (pos cursor)) items := by
  induction h with
  | @last cursor items hload =>
    obtain ⟨limit, -, hpage⟩ := hreads.load hload
    obtain ⟨hitems, hmore⟩ := loadPage_ok hpage
    have hall : (rowsAfter key rows (pos cursor)).length ≤ limit := by
      by_contra hlong
      exact absurd (hmore.mpr (by omega)) (by simp)
    rwa [List.take_of_length_le hall] at hitems
  | @more cursor items rest hload hrest ih =>
    obtain ⟨limit, hlimit, hpage⟩ := hreads.load hload
    obtain ⟨hitems, -⟩ := loadPage_ok hpage
    obtain ⟨row, a, hlast, hdecode, hsplit⟩ := last_of_loadPage hlimit hpage rfl
    -- the next page is read from the key of the last row of this one
    have hnext : pos (Page.next ⟨items, true⟩ P.key cursor) = key row := by
      rw [Page.next, hlast, Option.map_some, Option.getD_some, hreads.position hdecode]
    rw [hnext, rowsAfter_key hreads.distinct hsplit] at ih
    rw [← List.take_append_drop limit (rowsAfter key rows (pos cursor))]
    exact List.rel_append hitems ih

end Table
