import Mathlib.Data.List.Chain
import Mathlib.Data.List.Nodup
import Mathlib.Logic.Relation

/-!
# Items that take each other's place

A list of items with an id each, some of which name a successor. It grows in two ways: an item is
added, or an item gets one that was added as its successor, which had none before.

* `Follows`: one item took the place of another.
* `Linear`: ids are unique, a successor stands further on in the list, and no item succeeds two.
* `Linear.concat`, `Linear.link`: both ways to grow keep it; `Linear.map`: so does a change that is
  about neither ids nor successors.
* `Linear.chain`: the items that took an item's place, one after the other, are a finite chain
  without repetitions, and the last of them is the only one without a successor.
-/

namespace Ticketing.Lib.Succession

variable {α κ : Type} (id : α → κ) (next : α → Option κ)

/-- `y` took the place of `x`. -/
def Follows (l : List α) (x y : α) : Prop := x ∈ l ∧ y ∈ l ∧ next x = some (id y)

/-- What is kept (module doc). -/
structure Linear (l : List α) : Prop where
  ids : (l.map id).Nodup
  forward : ∀ {i : Nat} {x k}, l[i]? = some x → next x = some k →
    ∃ j y, i < j ∧ l[j]? = some y ∧ id y = k
  single : ∀ {x y k}, x ∈ l → y ∈ l → next x = some k → next y = some k → x = y

variable {id next}

namespace Linear

variable {l : List α} {x y z : α}

/-! ## What is kept -/

theorem nil : Linear id next [] :=
  ⟨List.nodup_nil, fun h => by simp at h, fun h => by simp at h⟩

theorem eq_of_id (h : Linear id next l) (hx : x ∈ l) (hy : y ∈ l) (he : id x = id y) : x = y :=
  List.inj_on_of_nodup_map h.ids hx hy he

/-- A successor is an item of the list. -/
theorem named (h : Linear id next l) {k : κ} (hx : x ∈ l) (hk : next x = some k) :
    ∃ y ∈ l, id y = k := by
  obtain ⟨i, hi⟩ := List.getElem?_of_mem hx
  obtain ⟨j, y, -, hj, rfl⟩ := h.forward hi hk
  exact ⟨y, List.mem_of_getElem? hj, rfl⟩

/-- An item without a successor is added. -/
theorem concat (h : Linear id next l) (hnew : ∀ x ∈ l, id x ≠ id y) (hy : next y = none) :
    Linear id next (l ++ [y]) where
  ids := by
    rw [List.map_append, List.map_singleton]
    refine h.ids.append (List.nodup_singleton _) fun k hk hk' => ?_
    obtain ⟨x, hx, rfl⟩ := List.mem_map.mp hk
    exact hnew x hx (List.mem_singleton.mp hk')
  forward {i x k} hi hk := by
    rw [List.getElem?_append] at hi
    split at hi
    · obtain ⟨j, z, hij, hj, hz⟩ := h.forward hi hk
      have hlt : j < l.length := (List.getElem?_eq_some_iff.mp hj).1
      exact ⟨j, z, hij, by rw [List.getElem?_append_left hlt, hj], hz⟩
    · obtain rfl := List.mem_singleton.mp (List.mem_of_getElem? hi)
      rw [hy] at hk
      cases hk
  single {x z k} hx hz hk hk' := by
    have old {x : α} (hx : x ∈ l ++ [y]) (hk : next x = some k) : x ∈ l := by
      rcases List.mem_append.mp hx with hx | hx
      · exact hx
      · rw [List.mem_singleton.mp hx, hy] at hk
        cases hk
    exact h.single (old hx hk) (old hz hk') hk hk'

/-- A change that is about neither ids nor successors. -/
theorem map (h : Linear id next l) {f : α → α} (hid : ∀ x, id (f x) = id x)
    (hnext : ∀ x, next (f x) = next x) : Linear id next (l.map f) where
  ids := by
    rw [List.map_map, show id ∘ f = id from funext hid]
    exact h.ids
  forward {i x k} hi hk := by
    rw [List.getElem?_map, Option.map_eq_some_iff] at hi
    obtain ⟨x, hi, rfl⟩ := hi
    rw [hnext] at hk
    obtain ⟨j, y, hij, hj, rfl⟩ := h.forward hi hk
    exact ⟨j, f y, hij, by rw [List.getElem?_map, hj]; rfl, hid y⟩
  single hx hy hk hk' := by
    obtain ⟨u, hu, rfl⟩ := List.mem_map.mp hx
    obtain ⟨v, hv, rfl⟩ := List.mem_map.mp hy
    rw [hnext] at hk hk'
    rw [h.single hu hv hk hk']

/-- An item gets a later one nobody succeeds so far as its successor. -/
theorem link (h : Linear id next l) {f : α → α} {i j : Nat} (hi : l[i]? = some x)
    (hj : l[j]? = some y) (hij : i < j) (hfree : ∀ z ∈ l, next z ≠ some (id y))
    (hid : ∀ z, id (f z) = id z) (hfx : next (f x) = some (id y))
    (hother : ∀ z ∈ l, z ≠ x → next (f z) = next z) : Linear id next (l.map f) where
  ids := by
    rw [List.map_map, show id ∘ f = id from funext hid]
    exact h.ids
  forward {m z k} hm hk := by
    rw [List.getElem?_map, Option.map_eq_some_iff] at hm
    obtain ⟨z, hm, rfl⟩ := hm
    by_cases hz : z = x
    · subst hz
      obtain rfl : m = i :=
        (List.getElem?_inj (List.getElem?_eq_some_iff.mp hm).1 (.of_map _ h.ids)).mp
          (hm.trans hi.symm)
      refine ⟨j, f y, hij, by rw [List.getElem?_map, hj]; rfl, (hid y).trans ?_⟩
      exact Option.some.inj (hfx.symm.trans hk)
    · rw [hother z (List.mem_of_getElem? hm) hz] at hk
      obtain ⟨n, y', hmn, hn, rfl⟩ := h.forward hm hk
      exact ⟨n, f y', hmn, by rw [List.getElem?_map, hn]; rfl, hid y'⟩
  single {_ _ k} hz hw hk hk' := by
    obtain ⟨u, hu, rfl⟩ := List.mem_map.mp hz
    obtain ⟨v, hv, rfl⟩ := List.mem_map.mp hw
    -- an item other than `x` does not name `y`
    have other {u : α} (hu : u ∈ l) (hux : u ≠ x) (hku : next (f u) = some k) : k ≠ id y := by
      rintro rfl
      exact hfree u hu ((hother u hu hux).symm.trans hku)
    by_cases hux : u = x
    · by_cases hvx : v = x
      · rw [hux, hvx]
      · subst hux
        exact absurd (Option.some.inj (hk.symm.trans hfx)) (other hv hvx hk')
    · by_cases hvx : v = x
      · subst hvx
        exact absurd (Option.some.inj (hk'.symm.trans hfx)) (other hu hux hk)
      · rw [hother u hu hux] at hk
        rw [hother v hv hvx] at hk'
        rw [h.single hu hv hk hk']

/-! ## Chains -/

/-- An item has one successor at most. -/
theorem follows_unique (h : Linear id next l) (hy : Follows id next l x y)
    (hz : Follows id next l x z) : y = z :=
  h.eq_of_id hy.2.1 hz.2.1 (Option.some.inj (hy.2.2.symm.trans hz.2.2))

/-- What took an item's place stands behind it. -/
theorem index_of_reaches (h : Linear id next l)
    (hr : Relation.ReflTransGen (Follows id next l) x y) {i : Nat} (hi : l[i]? = some x) :
    ∃ j, i ≤ j ∧ l[j]? = some y := by
  induction hr with
  | refl => exact ⟨i, le_refl i, hi⟩
  | tail _ hf ih =>
    obtain ⟨j, hij, hj⟩ := ih
    obtain ⟨m, z, hjm, hm, hz⟩ := h.forward hj hf.2.2
    rw [h.eq_of_id (List.mem_of_getElem? hm) hf.2.1 hz] at hm
    exact ⟨m, by omega, hm⟩

/-- **The items that took the place of `x`**, one after the other. -/
theorem chain (h : Linear id next l) (hx : x ∈ l) :
    ∃ c, (x :: c).IsChain (Follows id next l) ∧ (x :: c).Nodup ∧
      (∀ y, Relation.ReflTransGen (Follows id next l) x y ↔ y ∈ x :: c) ∧
      ∀ y ∈ x :: c, next y = none ↔ y = (x :: c).getLast (List.cons_ne_nil _ _) := by
  obtain ⟨i, hi⟩ := List.getElem?_of_mem hx
  -- the successor stands further on, so there are fewer items left behind it
  induction hn : l.length - i using Nat.strong_induction_on generalizing x i with
  | _ n ih =>
    subst hn
    rcases hnext : next x with _ | k
    · refine ⟨[], by simp, by simp, fun y => ⟨fun hr => ?_, fun hy => ?_⟩, by simp [hnext]⟩
      · rcases Relation.ReflTransGen.cases_head hr with rfl | ⟨z, hf, -⟩
        · exact List.mem_singleton.mpr rfl
        · rw [Follows, hnext] at hf
          cases hf.2.2
      · rw [List.mem_singleton.mp hy]
    · obtain ⟨j, y, hij, hj, rfl⟩ := h.forward hi hnext
      have hy := List.mem_of_getElem? hj
      have hf : Follows id next l x y := ⟨hx, hy, hnext⟩
      have hlt : j < l.length := (List.getElem?_eq_some_iff.mp hj).1
      obtain ⟨c, hchain, hnodup, hmem, hlast⟩ := ih (l.length - j) (by omega) hy j hj rfl
      have hfresh : x ∉ y :: c := fun hxc => by
        obtain ⟨m, hjm, hm⟩ := h.index_of_reaches ((hmem x).mpr hxc) hj
        have : m = i := (List.getElem?_inj (List.getElem?_eq_some_iff.mp hm).1
          (.of_map _ h.ids)).mp (hm.trans hi.symm)
        omega
      refine ⟨y :: c, List.isChain_cons_cons.mpr ⟨hf, hchain⟩, List.nodup_cons.mpr ⟨hfresh, hnodup⟩,
        fun z => ⟨fun hr => ?_, fun hz => ?_⟩, fun z hz => ?_⟩
      · rcases Relation.ReflTransGen.cases_head hr with rfl | ⟨u, hu, hr⟩
        · exact List.mem_cons_self
        · rw [h.follows_unique hu hf] at hr
          exact List.mem_cons_of_mem _ ((hmem z).mp hr)
      · rcases List.mem_cons.mp hz with rfl | hz
        · exact .refl
        · exact .head hf ((hmem z).mpr hz)
      · rw [List.getLast_cons (List.cons_ne_nil _ _)]
        rcases List.mem_cons.mp hz with rfl | hz
        · refine iff_of_false (by simp [hnext]) fun he => hfresh ?_
          rw [he]
          exact List.getLast_mem _
        · exact hlast z hz

end Linear

end Ticketing.Lib.Succession
