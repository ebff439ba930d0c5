import Mathlib.Data.List.Sort

/-!
# Keyset pagination

Rows are listed by a key, the largest first, in pages of `limit`. A page is asked for by the key
the page before ended with (`after`); that there is another page shows in one row more than
`limit` (`next`). A `Walk` asks for page after page until there is none. The rows may change
between two pages: the `k`-th page is taken from the rows `rows k`. Assumed: the keys are linearly
ordered and no two rows of one moment share a key.

* `Walk.decreasing`: the keys of a walk decrease, so no row comes twice.
* `Walk.complete`: a row that is there all the time comes.
* `Walk.unchanged`: where nothing changes, the pages are the listing cut into pieces of `limit`.
* `exists_walk`: where nothing changes, there is a walk to the end.
-/

namespace Ticketing.Lib.Keyset

variable {α κ : Type} [LinearOrder κ] (key : α → κ)

/-- The rows after a cursor, the largest key first. -/
def after (cursor : Option κ) (rows : List α) : List α :=
  (rows.filter fun a => cursor.all (key a < ·)).insertionSort fun a b => key b ≤ key a

/-- The cursor of the page after `items`, if there is a record more. -/
def next (limit : Nat) (records : List α) : Option κ :=
  if limit < records.length then (records.take limit).getLast?.map key else none

/-- Page by page, the `k`-th from the rows that are there then; what stands are the records of each
query, of which the page has the first `limit`. -/
inductive Walk (limit : Nat) (rows : Nat → List α) : Nat → Option κ → List (List α) → Prop
  | last {k cursor} (h : next key limit ((after key cursor (rows k)).take (limit + 1)) = none) :
      Walk limit rows k cursor [(after key cursor (rows k)).take limit]
  | more {k cursor c pages}
      (h : next key limit ((after key cursor (rows k)).take (limit + 1)) = some c)
      (hrest : Walk limit rows (k + 1) (some c) pages) :
      Walk limit rows k cursor ((after key cursor (rows k)).take limit :: pages)

variable {key} {limit k : Nat} {cursor : Option κ} {rows : List α}

/-! ## One page -/

theorem mem_after {a : α} : a ∈ after key cursor rows ↔ a ∈ rows ∧ cursor.all (key a < ·) := by
  simp [after, List.mem_insertionSort]

theorem decreasing_after (h : (rows.map key).Nodup) :
    (after key cursor rows).Pairwise fun a b => key b < key a := by
  have hsorted : (after key cursor rows).Pairwise fun a b => key b ≤ key a :=
    List.pairwise_insertionSort _ _
  have hnodup : ((after key cursor rows).map key).Nodup :=
    ((List.perm_insertionSort _ _).map key).nodup_iff.mpr
      (h.sublist ((List.filter_sublist).map key))
  rw [List.Nodup, List.pairwise_map] at hnodup
  exact (hsorted.and hnodup).imp fun ⟨hle, hne⟩ => lt_of_le_of_ne hle fun he => hne he.symm

/-- The cursor of the next page is the last key of a full one, after which there is more. -/
theorem next_eq_some {c : κ} (hl : 1 ≤ limit)
    (h : next key limit ((after key cursor rows).take (limit + 1)) = some c) :
    limit < (after key cursor rows).length ∧
      ∃ a, (after key cursor rows)[limit - 1]? = some a ∧ key a = c := by
  unfold next at h
  split at h
  · rename_i hmore
    rw [List.length_take] at hmore
    obtain ⟨a, ha, hk⟩ := Option.map_eq_some_iff.mp h
    refine ⟨by omega, a, ?_, hk⟩
    rw [List.take_take, List.getLast?_take, Nat.min_eq_left (Nat.le_succ limit),
      if_neg (by omega)] at ha
    rwa [List.getElem?_eq_getElem (by omega), Option.some_or,
      ← List.getElem?_eq_getElem] at ha
  · cases h

theorem next_eq_none (hl : 1 ≤ limit)
    (h : next key limit ((after key cursor rows).take (limit + 1)) = none) :
    (after key cursor rows).length ≤ limit := by
  by_contra hmore
  have hlength : limit < ((after key cursor rows).take (limit + 1)).length := by
    rw [List.length_take]
    omega
  rw [next, if_pos hlength, Option.map_eq_none_iff, List.getLast?_eq_none_iff] at h
  have := congrArg List.length h
  rw [List.length_take, List.length_take, List.length_nil] at this
  omega

/-- Rows listed by decreasing keys are known by what they are. -/
theorem eq_of_decreasing {l l' : List α} (h : l.Pairwise fun a b => key b < key a)
    (h' : l'.Pairwise fun a b => key b < key a) (hmem : ∀ a, a ∈ l ↔ a ∈ l') : l = l' := by
  have nodup {l : List α} (h : l.Pairwise fun a b => key b < key a) : l.Nodup :=
    h.imp fun hlt he => (he ▸ hlt).false
  exact List.Perm.eq_of_pairwise (fun _ _ _ _ hab hba => (hab.trans hba).false.elim) h h'
    ((List.perm_ext_iff_of_nodup (nodup h) (nodup h')).mpr hmem)

/-- The smallest key first is the listing backwards. -/
theorem insertionSort_eq_reverse (h : (rows.map key).Nodup) :
    (rows.insertionSort fun a b => key a ≤ key b) = (after key none rows).reverse := by
  refine List.reverse_eq_iff.mp (@eq_of_decreasing α κ _ key _ _ ?_ (decreasing_after h)
    fun a => ?_)
  · have hsorted : (rows.insertionSort fun a b => key a ≤ key b).Pairwise fun a b =>
      key a ≤ key b :=
      List.pairwise_insertionSort _ _
    have hnodup : ((rows.insertionSort fun a b => key a ≤ key b).map key).Nodup :=
      ((List.perm_insertionSort _ _).map key).nodup_iff.mpr h
    rw [List.Nodup, List.pairwise_map] at hnodup
    rw [List.pairwise_reverse]
    exact (hsorted.and hnodup).imp fun ⟨hle, hne⟩ => lt_of_le_of_ne hle hne
  · rw [List.mem_reverse, List.mem_insertionSort, mem_after]
    exact (and_iff_left rfl).symm

/-- What comes after a row is the rest of the listing. -/
theorem after_some (hr : (rows.map key).Nodup) {n : Nat} {a : α}
    (ha : (after key cursor rows)[n]? = some a) :
    after key (some (key a)) rows = (after key cursor rows).drop (n + 1) := by
  have hdec : (after key cursor rows).Pairwise fun a b => key b < key a := decreasing_after hr
  have hmem : a ∈ after key cursor rows := List.mem_of_getElem? ha
  have hsplit : after key cursor rows =
      (after key cursor rows).take n ++ a :: (after key cursor rows).drop (n + 1) := by
    obtain ⟨hn, hget⟩ := List.getElem?_eq_some_iff.mp ha
    rw [← hget, List.getElem_cons_drop, List.take_append_drop]
  refine eq_of_decreasing (decreasing_after hr) (hdec.sublist (List.drop_sublist ..)) fun b => ?_
  rw [hsplit, List.pairwise_append, List.pairwise_cons] at hdec
  obtain ⟨-, ⟨hafter, -⟩, hbefore⟩ := hdec
  rw [mem_after, Option.all_some, decide_eq_true_eq]
  refine ⟨fun ⟨hb, hlt⟩ => ?_, fun hb => ?_⟩
  · have hall : cursor.all (key b < ·) := by
      cases cursor with
      | none => rfl
      | some c =>
        have hc := of_decide_eq_true (mem_after.mp hmem).2
        exact decide_eq_true (hlt.trans hc)
    have hbmem := mem_after.mpr ⟨hb, hall⟩
    rw [hsplit, List.mem_append, List.mem_cons] at hbmem
    rcases hbmem with htake | rfl | hdrop
    · exact absurd (hbefore b htake a List.mem_cons_self) hlt.not_gt
    · exact absurd hlt (lt_irrefl _)
    · exact hdrop
  · exact ⟨(mem_after.mp (List.mem_of_mem_drop hb)).1, hafter b hb⟩

namespace Walk

variable {tables : Nat → List α} {pages : List (List α)}

theorem pages_ne_nil (h : Walk key limit tables k cursor pages) : pages ≠ [] := by
  cases h <;> exact List.cons_ne_nil _ _

/-- **A row that is there all the time comes.** -/
theorem complete (hl : 1 ≤ limit) (hr : ∀ k, ((tables k).map key).Nodup)
    (h : Walk key limit tables k cursor pages) {x : κ} (hx : cursor.all (x < ·))
    (hthere : ∀ j, k ≤ j → j < k + pages.length → x ∈ (tables j).map key) :
    x ∈ pages.flatten.map key := by
  induction h with
  | @last k cursor hnext =>
    obtain ⟨a, ha, rfl⟩ := List.mem_map.mp (hthere k (le_refl k) (by simp))
    rw [List.flatten_singleton, List.take_of_length_le (next_eq_none hl hnext)]
    exact List.mem_map_of_mem (mem_after.mpr ⟨ha, hx⟩)
  | @more k cursor c pages hnext _ ih =>
    obtain ⟨hmore, a, ha, rfl⟩ := next_eq_some hl hnext
    obtain ⟨b, hb, rfl⟩ := List.mem_map.mp (hthere k (le_refl k) (by simp))
    rw [List.flatten_cons, List.map_append, List.mem_append]
    have hbafter : b ∈ after key cursor (tables k) := mem_after.mpr ⟨hb, hx⟩
    rw [← List.take_append_drop limit (after key cursor (tables k)), List.mem_append] at hbafter
    rcases hbafter with hitem | hrest
    · exact .inl (List.mem_map_of_mem hitem)
    · refine .inr (ih ?_ fun j hk hj => hthere j (by omega) (by rw [List.length_cons]; omega))
      have hdrop := after_some (hr k) ha
      rw [Nat.sub_add_cancel hl] at hdrop
      rw [← hdrop] at hrest
      exact (mem_after.mp hrest).2

/-- After a full page with more to come, the rest of the listing comes. -/
theorem after_next (hl : 1 ≤ limit) (hr : (rows.map key).Nodup) {c : κ}
    (h : next key limit ((after key cursor rows).take (limit + 1)) = some c) :
    limit < (after key cursor rows).length ∧
      after key (some c) rows = (after key cursor rows).drop limit := by
  obtain ⟨hmore, a, ha, rfl⟩ := next_eq_some hl h
  have hdrop := after_some hr ha
  rw [Nat.sub_add_cancel hl] at hdrop
  exact ⟨hmore, hdrop⟩

/-- Where there is something to list, no page is empty. -/
theorem ne_nil (hl : 1 ≤ limit) (hr : (rows.map key).Nodup)
    (h : Walk key limit (fun _ => rows) k cursor pages) (hne : after key cursor rows ≠ []) :
    ∀ page ∈ pages, page ≠ [] := by
  have hitems {cursor : Option κ} (hne : after key cursor rows ≠ []) :
      (after key cursor rows).take limit ≠ [] := fun h => by
    rcases List.take_eq_nil_iff.mp h with h | h
    · omega
    · exact hne h
  induction h with
  | last hnext =>
    intro page hpage
    rw [List.mem_singleton.mp hpage]
    exact hitems hne
  | more hnext _ ih =>
    obtain ⟨hmore, hrest⟩ := after_next hl hr hnext
    intro page hpage
    rcases List.mem_cons.mp hpage with rfl | hpage
    · exact hitems hne
    · refine ih (fun h => ?_) page hpage
      rw [hrest, List.drop_eq_nil_iff] at h
      omega

/-- **Where nothing changes, the pages are the listing** cut into pieces of `limit`, and only the
first of them can be empty. -/
theorem unchanged (hl : 1 ≤ limit) (hr : (rows.map key).Nodup)
    (h : Walk key limit (fun _ => rows) k cursor pages) :
    pages.flatten = after key cursor rows ∧ (∀ page ∈ pages.dropLast, page.length = limit) ∧
      ∀ page ∈ pages.tail, page ≠ [] := by
  induction h with
  | last hnext =>
    rw [List.flatten_singleton, List.take_of_length_le (next_eq_none hl hnext)]
    exact ⟨rfl, nofun, nofun⟩
  | @more k cursor c pages hnext hwalk ih =>
    obtain ⟨hmore, hrest⟩ := after_next hl hr hnext
    obtain ⟨hflatten, hfull, -⟩ := ih
    refine ⟨by rw [List.flatten_cons, hflatten, hrest, List.take_append_drop], fun page hpage => ?_,
      hwalk.ne_nil hl hr fun h => ?_⟩
    · rw [List.dropLast_cons_of_ne_nil hwalk.pages_ne_nil] at hpage
      rcases List.mem_cons.mp hpage with rfl | hpage
      · rw [List.length_take]
        omega
      · exact hfull page hpage
    · rw [hrest, List.drop_eq_nil_iff] at h
      omega

end Walk

/-- A walk over rows that do not change comes to its end. -/
theorem exists_walk (hl : 1 ≤ limit) (hr : (rows.map key).Nodup) (k : Nat) (cursor : Option κ) :
    ∃ pages, Walk key limit (fun _ => rows) k cursor pages := by
  induction hn : (after key cursor rows).length using Nat.strong_induction_on
    generalizing k cursor with
  | _ n ih =>
    cases hnext : next key limit ((after key cursor rows).take (limit + 1)) with
    | none => exact ⟨_, .last hnext⟩
    | some c =>
      obtain ⟨hmore, hrest⟩ := Walk.after_next hl hr hnext
      obtain ⟨pages, hpages⟩ := ih (after key (some c) rows).length
        (by rw [hrest, List.length_drop]; omega) (k + 1) (some c) rfl
      exact ⟨_, .more hnext hpages⟩

end Ticketing.Lib.Keyset
