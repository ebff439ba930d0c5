import Ticketing.Migrations.Versions

/-!
# What a migration does

* `Meets m server s Q` is total correctness of a migration from `s`: it ends, and what it returns
  and leaves satisfies `Q`. There is a rule for each operation.
* The ids a migration draws differ (`Server.Distinct`) and the tables do not have them yet
  (`Undrawn`), which each migration keeps for the next one.
* `Added` is the outcome of an insert of rows under new ids (`meets_add`): the rows are there, in
  order, and no other table has changed.
-/

namespace Ticketing

theorem Table.ne_row_of_mem_uniques {t t' : Table} {r : t.Row} {k : Key} {id : UUID}
    (h : k ∈ t.uniques r) : k ≠ .row t' id := by
  rintro rfl
  cases t <;> simp [uniques] at h

/-- Two rows a table may both have. -/
def Table.Apart (t : Table) (r x : t.Row) : Prop :=
  t.id x ≠ t.id r ∧ ∀ k ∈ t.uniques r, k ∉ t.uniques x

theorem Table.present_of_apart {t : Table} {row : t.Row} {db : Db}
    (h : ∀ x ∈ db t, t.Apart row x) {k : Key} (hk : k ∈ t.keys row) : db.present k = false := by
  rcases List.mem_cons.mp hk with rfl | hu
  · exact Db.present_row.mpr fun x hx => (h x hx).1
  · obtain rfl := Table.table_of_mem_keys hk
    rw [Db.present_eq_false]
    intro x hx hkx
    rcases List.mem_cons.mp hkx with hrow | hux
    · exact Table.ne_row_of_mem_uniques hu hrow
    · exact (h x hx).2 k hu hux

/-- The first `N` ids differ. -/
def Server.Distinct (server : Server) (N : Nat) : Prop :=
  ∀ i j, i < N → j < N → server.uuid4 i = server.uuid4 j → i = j

namespace Migration

variable {α β : Type} {server : Server} {s : Draft} {N : Nat}

/-- The migration comes to its end, where `Q` holds. -/
def Meets (m : Migration α) (server : Server) (s : Draft) (Q : α → Draft → Prop) : Prop :=
  ∃ a s', m server s = .ok (a, s') ∧ Q a s'

section Rules

variable {m : Migration α} {Q : α → Draft → Prop}

theorem Meets.mono {R : α → Draft → Prop} (h : Meets m server s Q) (hQ : ∀ a s', Q a s' → R a s') :
    Meets m server s R := by
  obtain ⟨a, s', hm, hq⟩ := h
  exact ⟨a, s', hm, hQ a s' hq⟩

theorem meets_pure {a : α} (h : Q a s) : Meets (pure a) server s Q := ⟨a, s, rfl, h⟩

theorem meets_bind {f : α → Migration β} {R : β → Draft → Prop} (h : Meets m server s Q)
    (hf : ∀ a s', Q a s' → Meets (f a) server s' R) : Meets (m >>= f) server s R := by
  obtain ⟨a, s', hm, hq⟩ := h
  obtain ⟨b, s'', hb, hr⟩ := hf a s' hq
  refine ⟨b, s'', ?_, hr⟩
  show (m server s).bind (fun x => f x.1 server x.2) = _
  rw [hm]
  exact hb

theorem meets_uuid4 {Q : UUID → Draft → Prop}
    (h : Q (server.uuid4 s.drawn) { s with drawn := s.drawn + 1 }) : Meets uuid4 server s Q :=
  ⟨_, _, rfl, h⟩

theorem meets_select {q : Db → α} (h : Q (q s.db) s) : Meets (select q) server s Q := ⟨_, _, rfl, h⟩

theorem meets_lookup {permissionIds : List (String × UUID)} {code : String} {id : UUID}
    {Q : UUID → Draft → Prop} (hid : permissionIds.lookup code = some id) (h : Q id s) :
    Meets (lookup permissionIds code) server s Q := by
  unfold lookup
  rw [hid]
  exact meets_pure h

variable {R : Unit → Draft → Prop}

theorem meets_createTable {t : Table} (h : ∀ s', s'.drawn = s.drawn → s'.db t = [] →
    (∀ t', t' ≠ t → s'.db t' = s.db t') → R () s') : Meets (createTable t) server s R :=
  ⟨_, _, rfl, h _ rfl (Function.update_self ..) fun _ ht => Function.update_of_ne ht ..⟩

theorem meets_addColumn {t : Table} {null : t.Row → t.Row} (h : ∀ s', s'.drawn = s.drawn →
    s'.db t = (s.db t).map null → (∀ t', t' ≠ t → s'.db t' = s.db t') → R () s') :
    Meets (addColumn t null) server s R :=
  ⟨_, _, rfl, h _ rfl (Function.update_self ..) fun _ ht => Function.update_of_ne ht ..⟩

theorem meets_insert {t : Table} {row : t.Row} (hnew : ∀ x ∈ s.db t, t.Apart row x)
    (h : R () { s with db := Function.update s.db t (s.db t ++ [t.stampInsert server.now row]) }) :
    Meets (insert t row) server s R := by
  refine ⟨(), _, if_neg fun hany => ?_, h⟩
  obtain ⟨k, hk, hp⟩ := List.any_eq_true.mp hany
  rw [Table.present_of_apart hnew hk] at hp
  cases hp

theorem meets_bulkInsert {t : Table} {rows : List t.Row} (hpair : rows.Pairwise t.Apart)
    (hnew : ∀ row ∈ rows, ∀ x ∈ s.db t, t.Apart row x)
    (h : R () { s with
      db := Function.update s.db t (s.db t ++ rows.map (t.stampInsert server.now)) }) :
    Meets (bulkInsert t rows) server s R := by
  induction rows generalizing s with
  | nil =>
    rw [List.map_nil, List.append_nil, Function.update_eq_self] at h
    exact meets_pure h
  | cons row rows ih =>
    rw [List.pairwise_cons] at hpair
    refine meets_bind (Q := fun _ s' => s' = _)
      (meets_insert (fun x hx => hnew row List.mem_cons_self x hx) rfl) ?_
    rintro _ s' rfl
    refine ih hpair.2 (fun r hr x hx => ?_) ?_
    · simp only [Function.update_self, List.mem_append, List.mem_singleton] at hx
      rcases hx with hx | rfl
      · exact hnew r (List.mem_cons_of_mem _ hr) x hx
      · obtain ⟨hid, huniques⟩ := hpair.1 r hr
        refine ⟨?_, fun k hk hkx => ?_⟩
        · rw [Table.id_stampInsert]
          exact Ne.symm hid
        · rw [Table.uniques_stampInsert] at hkx
          exact huniques k hkx hk
    · simpa using h

end Rules

/-! ## Drawing ids -/

section Draws

variable (server) in
/-- The rows `draw` makes from the n-th id on. -/
def drawnRows (row : UUID → α → β) : Nat → List α → List β
  | _, [] => []
  | n, a :: as => row (server.uuid4 n) a :: drawnRows row (n + 1) as

variable {row : UUID → α → β} {as : List α}

theorem meets_draw {Q : List β → Draft → Prop}
    (h : Q (drawnRows server row s.drawn as) { s with drawn := s.drawn + as.length }) :
    Meets (draw row as) server s Q := by
  induction as generalizing s Q with
  | nil => exact meets_pure h
  | cons a as ih =>
    refine meets_bind (meets_uuid4 (Q := fun id s' => id = _ ∧ s' = _) ⟨rfl, rfl⟩) ?_
    rintro _ s' ⟨rfl, rfl⟩
    refine meets_bind (ih (Q := fun rows s' => rows = _ ∧ s' = _) ⟨rfl, rfl⟩) ?_
    rintro _ s' ⟨rfl, rfl⟩
    refine meets_pure ?_
    rwa [List.length_cons, Nat.add_comm as.length, ← Nat.add_assoc] at h

theorem mem_drawnRows {b : β} {n : Nat} (h : b ∈ drawnRows server row n as) :
    ∃ k a, n ≤ k ∧ k < n + as.length ∧ a ∈ as ∧ b = row (server.uuid4 k) a := by
  induction as generalizing n with
  | nil => cases h
  | cons a as ih =>
    rcases List.mem_cons.mp h with rfl | h
    · exact ⟨n, a, Nat.le_refl n, Nat.lt_add_of_pos_right (Nat.succ_pos _), List.mem_cons_self, rfl⟩
    · obtain ⟨k, x, hn, hk, hx, rfl⟩ := ih h
      refine ⟨k, x, by omega, ?_, List.mem_cons_of_mem _ hx, rfl⟩
      rw [List.length_cons]
      omega

/-- What does not depend on the ids. -/
theorem map_drawnRows {γ : Type} {f : β → γ} {g : α → γ} (hf : ∀ id a, f (row id a) = g a)
    (n : Nat) : (drawnRows server row n as).map f = as.map g := by
  induction as generalizing n with
  | nil => rfl
  | cons a as ih => rw [drawnRows, List.map_cons, List.map_cons, hf, ih]

theorem length_drawnRows (n : Nat) : (drawnRows server row n as).length = as.length := by
  induction as generalizing n with
  | nil => rfl
  | cons a as ih => rw [drawnRows, List.length_cons, List.length_cons, ih]

theorem nodup_drawnRows {f : β → UUID} (hf : ∀ id a, f (row id a) = id)
    (hs : server.Distinct N) {n : Nat} (hn : n + as.length ≤ N) :
    ((drawnRows server row n as).map f).Nodup := by
  induction as generalizing n with
  | nil => exact List.nodup_nil
  | cons a as ih =>
    rw [List.length_cons] at hn
    rw [drawnRows, List.map_cons, List.nodup_cons]
    refine ⟨fun hmem => ?_, ih (by omega)⟩
    obtain ⟨b, hb, he⟩ := List.mem_map.mp hmem
    obtain ⟨k, x, hk, hlt, -, rfl⟩ := mem_drawnRows hb
    rw [hf, hf] at he
    have := hs k n (by omega) (by omega) he
    omega

/-- New rows whose unique values differ. -/
theorem pairwise_apart {γ : Type} {t : Table} {rows : List t.Row} (f : t.Row → γ)
    (hids : (rows.map t.id).Nodup) (hf : (rows.map f).Nodup)
    (hu : ∀ r x, f r ≠ f x → ∀ k ∈ t.uniques r, k ∉ t.uniques x) : rows.Pairwise t.Apart := by
  rw [List.Nodup, List.pairwise_map] at hids hf
  exact hids.imp₂ (fun r x hid hne => ⟨Ne.symm hid, hu r x hne⟩) hf

end Draws

/-! ## Adding rows -/

/-- The id was drawn between two points of a migration. -/
def DrawnBetween (server : Server) (s s' : Draft) (id : UUID) : Prop :=
  ∃ n, s.drawn ≤ n ∧ n < s'.drawn ∧ id = server.uuid4 n

theorem drawn_between {n k : Nat} {s' : Draft} (hn : s.drawn ≤ n) (hk : n < s.drawn + k)
    (hs : s'.drawn = s.drawn + k) : DrawnBetween server s s' (server.uuid4 n) :=
  ⟨n, hn, hs ▸ hk, rfl⟩

/-- The ids of a table's rows are none of those still to be drawn. -/
def Undrawn (server : Server) (N : Nat) (s : Draft) (t : Table) : Prop :=
  ∀ r ∈ s.db t, ∀ n, s.drawn ≤ n → n < N → t.id r ≠ server.uuid4 n

/-- Rows have been added to a table, under new ids. -/
structure Added (server : Server) (s s' : Draft) (t : Table) (rows : List t.Row) : Prop where
  others : ∀ t', t' ≠ t → s'.db t' = s.db t'
  table : s'.db t = s.db t ++ rows
  drawn : s'.drawn = s.drawn + rows.length
  ids : ∀ r ∈ rows, DrawnBetween server s s' (t.id r)

theorem Added.le {s' : Draft} {t : Table} {rows : List t.Row} (h : Added server s s' t rows) :
    s.drawn ≤ s'.drawn := h.drawn ▸ Nat.le_add_right ..

theorem Added.undrawn {s' : Draft} {t : Table} {rows : List t.Row} (h : Added server s s' t rows)
    (hs : server.Distinct N) (hu : Undrawn server N s t) : Undrawn server N s' t := by
  intro r hr n hn hN he
  rw [h.table] at hr
  rcases List.mem_append.mp hr with hr | hr
  · exact hu r hr n (h.le.trans hn) hN he
  · obtain ⟨k, -, hk, hid⟩ := h.ids r hr
    have := hs k n (by omega) hN (hid.symm.trans he)
    omega

theorem Added.undrawn_other {s' : Draft} {t t' : Table} {rows : List t.Row}
    (h : Added server s s' t rows) (ht : t' ≠ t) (hu : Undrawn server N s t') :
    Undrawn server N s' t' := by
  intro r hr n hn
  rw [h.others t' ht] at hr
  exact hu r hr n (h.le.trans hn)

theorem Added.nodup {s' : Draft} {t : Table} {rows : List t.Row} (h : Added server s s' t rows)
    (hN : s'.drawn ≤ N) (hu : Undrawn server N s t) (hs : ((s.db t).map t.id).Nodup)
    (hrows : (rows.map t.id).Nodup) :
    ((s'.db t).map t.id).Nodup := by
  rw [h.table, List.map_append, List.nodup_append]
  refine ⟨hs, hrows, fun id hid id' hid' he => ?_⟩
  obtain ⟨r, hr, rfl⟩ := List.mem_map.mp hid
  obtain ⟨r', hr', rfl⟩ := List.mem_map.mp hid'
  obtain ⟨n, hn, hlt, hdrawn⟩ := h.ids r' hr'
  exact hu r hr n hn (hlt.trans_le hN) (he.trans hdrawn)

/-- Rows with new ids, made from `as` and inserted at once. -/
theorem meets_add {γ : Type} {t : Table} {row : UUID → α → t.Row} {as : List α}
    {Q : Unit → Draft → Prop} (f : t.Row → γ) (g : α → γ) (hs : server.Distinct N)
    (hN : s.drawn + as.length ≤ N) (hid : ∀ id a, t.id (row id a) = id) (hf : ∀ id a, f (row id a) =
    g a) (hg : (as.map g).Nodup)
    (hu : ∀ r x, f r ≠ f x → ∀ k ∈ t.uniques r, k ∉ t.uniques x)
    (hstamp : ∀ r, f (t.stampInsert server.now r) = f r) (hundrawn : Undrawn server N s t)
    (hnew : ∀ a ∈ as, ∀ x ∈ s.db t, g a ≠ f x)
    (h : ∀ s' rows, Added server s s' t rows → rows.map f = as.map g → Q () s') :
    Meets (draw row as >>= bulkInsert t) server s Q := by
  refine meets_bind (meets_draw (Q := fun rows s' => rows = _ ∧ s' = _) ⟨rfl, rfl⟩) ?_
  rintro _ s' ⟨rfl, rfl⟩
  refine meets_bulkInsert (pairwise_apart f (nodup_drawnRows hid hs hN) ?_ hu) ?_
    (h _ ((drawnRows server row s.drawn as).map (t.stampInsert server.now)) ?_ ?_)
  · rwa [map_drawnRows hf]
  · intro r hr x hx
    obtain ⟨k, a, hk, hlt, ha, rfl⟩ := mem_drawnRows hr
    refine ⟨?_, hu _ x ?_⟩
    · rw [hid]
      exact hundrawn x hx k hk (hlt.trans_le hN)
    · rw [hf]
      exact hnew a ha x hx
  · refine ⟨fun t' ht => Function.update_of_ne ht .., Function.update_self .., ?_, fun r hr => ?_⟩
    · rw [List.length_map, length_drawnRows]
    obtain ⟨x, hx, rfl⟩ := List.mem_map.mp hr
    obtain ⟨k, a, hk, hlt, -, rfl⟩ := mem_drawnRows hx
    rw [Table.id_stampInsert, hid]
    exact drawn_between hk hlt rfl
  · rw [List.map_map, ← map_drawnRows hf]
    exact List.map_congr_left fun r _ => hstamp r

end Migration

end Ticketing
