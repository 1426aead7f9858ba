import Mathlib.Data.List.Nodup
import Mathlib.Data.List.Perm.Basic
import Mathlib.Order.Lattice

/-!
# The strongest item for each key

A table with one item for each key. A new item takes the place of one with its key if it is stronger; of
two equally strong ones the older stays.

* `insertBest` — one item;
* `Best` — the table holds a strongest item for each key of a list;
* `Best.foldl`, `Best.perm` — it does so after a whole list, and the order does not matter if two equally
  strong items with one key are the same;
* `First`, `mem_foldl_insertBest` — the table holds the first of the strongest items for each key;
* `mergeSort_eq_of_perm` — sorting forgets the order, if distinct items have distinct ranks.
-/

set_option autoImplicit false

namespace Keyed

variable {α κ σ : Type} [LinearOrder σ] (key : α → κ) (strength : α → σ)

/-- For each key of the items, the table has a single item, and none of the items with that key is
stronger. -/
structure Best (items table : List α) : Prop where
  nodup : (table.map key).Nodup
  subset : table ⊆ items
  keys : ∀ item ∈ items, ∃ best ∈ table, key best = key item ∧ strength item ≤ strength best

variable {key strength}

namespace Best

theorem nil : Best key strength [] [] := ⟨List.nodup_nil, List.Subset.refl _, fun _ h => (by cases h)⟩

variable {items items' table table' : List α}

theorem eq_of_key (h : Best key strength items table) {a b : α} (ha : a ∈ table) (hb : b ∈ table)
    (hkey : key a = key b) : a = b := List.inj_on_of_nodup_map h.nodup ha hb hkey

/-- What is in the table is strongest among the items with its key. -/
theorem strongest (h : Best key strength items table) {best item : α} (hbest : best ∈ table)
    (hitem : item ∈ items) (hkey : key item = key best) : strength item ≤ strength best := by
  obtain ⟨best', hbest', hkey', hless⟩ := h.keys item hitem
  rwa [h.eq_of_key hbest' hbest (hkey'.trans hkey)] at hless

/-- The keys of the table are those of the items. -/
theorem mem_keys (h : Best key strength items table) (k : κ) : k ∈ table.map key ↔ k ∈ items.map key := by
  constructor
  · intro hk
    obtain ⟨best, hbest, rfl⟩ := List.mem_map.mp hk
    exact List.mem_map_of_mem (h.subset hbest)
  · intro hk
    obtain ⟨item, hitem, rfl⟩ := List.mem_map.mp hk
    obtain ⟨best, hbest, hkey, -⟩ := h.keys item hitem
    exact List.mem_map.mpr ⟨best, hbest, hkey⟩

/-- Only the items and what is in the table count, not their order. -/
theorem congr (h : Best key strength items table) (hitems : items.Perm items')
    (htable : table.Perm table') : Best key strength items' table' where
  nodup := (htable.map key).nodup_iff.mp h.nodup
  subset _ hbest := hitems.subset (h.subset (htable.symm.subset hbest))
  keys item hitem := by
    obtain ⟨best, hbest, hfound⟩ := h.keys item (hitems.symm.subset hitem)
    exact ⟨best, htable.subset hbest, hfound⟩

theorem table_subset (h : Best key strength items table) (h' : Best key strength items table')
    (hsame : ∀ a ∈ items, ∀ b ∈ items, key a = key b → strength a = strength b → a = b) :
    table ⊆ table' := by
  intro best hbest
  obtain ⟨best', hbest', hkey, hless⟩ := h'.keys best (h.subset hbest)
  have hmore := h.strongest hbest (h'.subset hbest') hkey
  have heq := hsame best' (h'.subset hbest') best (h.subset hbest) hkey (le_antisymm hmore hless)
  exact heq ▸ hbest'

/-- Two tables of strongest items hold the same, if two equally strong items with one key are one. -/
theorem perm (h : Best key strength items table) (h' : Best key strength items table')
    (hsame : ∀ a ∈ items, ∀ b ∈ items, key a = key b → strength a = strength b → a = b) :
    table.Perm table' :=
  (List.perm_ext_iff_of_nodup h.nodup.of_map h'.nodup.of_map).mpr fun _ =>
    ⟨fun hmem => h.table_subset h' hsame hmem, fun hmem => h'.table_subset h hsame hmem⟩

/-- A table is its own table. -/
theorem self (h : Best key strength items table) : Best key strength table table where
  nodup := h.nodup
  subset := List.Subset.refl _
  keys item hitem := ⟨item, hitem, rfl, le_refl _⟩

end Best

/-! ## The first of the strongest -/

section First

variable (key strength)

/-- The item is the first of the strongest ones with its key. -/
def First (items : List α) (best : α) : Prop :=
  ∃ before after, items = before ++ best :: after ∧
    (∀ item ∈ before, key item = key best → strength item < strength best) ∧
    ∀ item ∈ after, key item = key best → strength item ≤ strength best

variable {key strength} {items before after : List α} {a b item : α}

theorem First.mem (h : First key strength items a) : a ∈ items := by
  obtain ⟨before, after, rfl, -, -⟩ := h
  exact List.mem_append_right _ List.mem_cons_self

/-- There is only one for each key. -/
theorem First.unique (h : First key strength items a) (h' : First key strength items b)
    (hkey : key a = key b) : a = b := by
  obtain ⟨before, after, rfl, hbefore, hafter⟩ := h
  obtain ⟨before', after', heq, hbefore', hafter'⟩ := h'
  -- if one of them came first, it would be both weaker and not weaker than the other
  rcases List.append_eq_append_iff.mp heq with ⟨between, rfl, htail⟩ | ⟨between, rfl, htail⟩
  · cases between with
    | nil => exact (List.cons.inj htail).1
    | cons head between =>
      obtain ⟨rfl, rfl⟩ := List.cons.inj htail
      have hless := hbefore' a (List.mem_append_right _ List.mem_cons_self) hkey
      have hmore := hafter b (List.mem_append_right _ List.mem_cons_self) hkey.symm
      exact absurd hless (not_lt.mpr hmore)
  · cases between with
    | nil => exact (List.cons.inj htail).1.symm
    | cons head between =>
      obtain ⟨rfl, rfl⟩ := List.cons.inj htail
      have hless := hbefore b (List.mem_append_right _ List.mem_cons_self) hkey.symm
      have hmore := hafter' a (List.mem_append_right _ List.mem_cons_self) hkey
      exact absurd hless (not_lt.mpr hmore)

/-- An item that did not come before is stronger than what did. -/
theorem First.stronger (h : First key strength (before ++ item :: after) item) (hnew : item ∉ before) {old : α}
    (hold : old ∈ before) (hkey : key old = key item) : strength old < strength item := by
  obtain ⟨before', after', heq, hbefore', -⟩ := h
  rcases List.append_eq_append_iff.mp heq with ⟨between, rfl, -⟩ | ⟨between, rfl, htail⟩
  · exact hbefore' old (List.mem_append_left _ hold) hkey
  · cases between with
    | nil =>
      rw [List.append_nil] at hold
      exact hbefore' old hold hkey
    | cons head between =>
      obtain ⟨rfl, -⟩ := List.cons.inj htail
      exact absurd (List.mem_append_right _ List.mem_cons_self) hnew

end First

/-! ## Insertion -/

section Insert

variable [DecidableEq κ] (key strength)

def insertBest (item : α) : List α → List α
  | [] => [item]
  | current :: table =>
    if key current = key item then
      (if strength current < strength item then item else current) :: table
    else current :: insertBest item table

variable {key strength}

/-- The keys of the table, and at most the one that is new. -/
theorem mem_map_insertBest {item : α} {k : κ} : ∀ {table : List α},
    k ∈ (insertBest key strength item table).map key ↔ k = key item ∨ k ∈ table.map key
  | [] => by
    rw [insertBest, List.map_cons, List.mem_cons]
  | current :: table => by
    rw [insertBest]
    split
    · rename_i hkey
      have hhead : key (if strength current < strength item then item else current) = key item := by
        split
        · rfl
        · exact hkey
      rw [List.map_cons, List.map_cons, List.mem_cons, List.mem_cons, hhead, hkey, ← or_assoc, or_self]
    · rw [List.map_cons, List.map_cons, List.mem_cons, List.mem_cons, mem_map_insertBest,
        or_left_comm]

theorem nodup_insertBest {item : α} : ∀ {table : List α}, (table.map key).Nodup →
    ((insertBest key strength item table).map key).Nodup
  | [], _ => List.nodup_singleton _
  | current :: table, h => by
    obtain ⟨hhead, htable⟩ := List.nodup_cons.mp h
    rw [insertBest]
    split
    · rename_i hkey
      refine List.nodup_cons.mpr ⟨?_, htable⟩
      split
      · rwa [← hkey]
      · exact hhead
    · rename_i hkey
      refine List.nodup_cons.mpr ⟨fun hmem => ?_, nodup_insertBest htable⟩
      rcases mem_map_insertBest.mp hmem with hmem | hmem
      · exact hkey hmem
      · exact hhead hmem

/-- The item finds its equal, or has been put in; and whoever had a place is still there, or has been
replaced by the item. -/
theorem insertBest_finds (item : α) : ∀ table : List α,
    ∃ best ∈ insertBest key strength item table, key best = key item ∧ strength item ≤ strength best
  | [] => ⟨item, List.mem_singleton_self item, rfl, le_refl _⟩
  | current :: table => by
    rw [insertBest]
    split
    · rename_i hkey
      refine ⟨_, List.mem_cons_self, ?_⟩
      split
      · exact ⟨rfl, le_refl _⟩
      · rename_i hless
        exact ⟨hkey, not_lt.mp hless⟩
    · obtain ⟨best, hbest, hfound⟩ := insertBest_finds item table
      exact ⟨best, List.mem_cons_of_mem _ hbest, hfound⟩

theorem insertBest_keeps (item : α) {old : α} : ∀ {table : List α}, old ∈ table →
    ∃ best ∈ insertBest key strength item table, key best = key old ∧ strength old ≤ strength best
  | [], h => by cases h
  | current :: table, h => by
    rw [insertBest]
    split
    · rename_i hkey
      rcases List.mem_cons.mp h with rfl | h
      · refine ⟨_, List.mem_cons_self, ?_⟩
        split
        · rename_i hless
          exact ⟨hkey.symm, hless.le⟩
        · exact ⟨rfl, le_refl _⟩
      · exact ⟨old, List.mem_cons_of_mem _ h, rfl, le_refl _⟩
    · rcases List.mem_cons.mp h with rfl | h
      · exact ⟨old, List.mem_cons_self, rfl, le_refl _⟩
      · obtain ⟨best, hbest, hfound⟩ := insertBest_keeps item h
        exact ⟨best, List.mem_cons_of_mem _ hbest, hfound⟩

/-- What is in the table after one item: the item, if it is stronger than the one it replaces, and what
was there, unless the item replaces it. -/
theorem mem_insertBest_iff {item best : α} : ∀ {table : List α}, (table.map key).Nodup →
    (best ∈ insertBest key strength item table ↔
      (best = item ∧ ∀ old ∈ table, key old = key item → strength old < strength item) ∨
        best ∈ table ∧ (key best = key item → strength item ≤ strength best))
  | [], _ => by
    rw [insertBest, List.mem_singleton]
    exact ⟨fun h => .inl ⟨h, fun _ hold => by cases hold⟩, fun h => h.elim And.left fun h => by cases h.1⟩
  | current :: table, h => by
    obtain ⟨hhead, htable⟩ := List.nodup_cons.mp h
    rw [insertBest]
    split
    · rename_i hkey
      -- nothing else in the table has the key
      have hother : ∀ old ∈ table, key old ≠ key item := fun old hold heq =>
        hhead (List.mem_map.mpr ⟨old, hold, heq.trans hkey.symm⟩)
      rw [List.mem_cons, List.mem_cons]
      split
      · rename_i hless
        constructor
        · rintro (rfl | hmem)
          · refine .inl ⟨rfl, fun old hold heq => ?_⟩
            rcases List.mem_cons.mp hold with rfl | hold
            · exact hless
            · exact absurd heq (hother old hold)
          · exact .inr ⟨.inr hmem, fun heq => absurd heq (hother best hmem)⟩
        · rintro (⟨rfl, -⟩ | ⟨rfl | hmem, hstay⟩)
          · exact .inl rfl
          · exact absurd hless (not_lt.mpr (hstay hkey))
          · exact .inr hmem
      · rename_i hless
        constructor
        · rintro (rfl | hmem)
          · exact .inr ⟨.inl rfl, fun _ => not_lt.mp hless⟩
          · exact .inr ⟨.inr hmem, fun heq => absurd heq (hother best hmem)⟩
        · rintro (⟨-, hall⟩ | ⟨hmem, -⟩)
          · exact absurd (hall current List.mem_cons_self hkey) hless
          · exact hmem
    · rename_i hkey
      rw [List.mem_cons, List.mem_cons, mem_insertBest_iff htable]
      constructor
      · rintro (rfl | ⟨rfl, hall⟩ | ⟨hmem, hstay⟩)
        · exact .inr ⟨.inl rfl, fun heq => absurd heq hkey⟩
        · refine .inl ⟨rfl, fun old hold heq => ?_⟩
          rcases List.mem_cons.mp hold with rfl | hold
          · exact absurd heq hkey
          · exact hall old hold heq
        · exact .inr ⟨.inr hmem, hstay⟩
      · rintro (⟨rfl, hall⟩ | ⟨rfl | hmem, hstay⟩)
        · exact .inr (.inl ⟨rfl, fun old hold => hall old (List.mem_cons_of_mem _ hold)⟩)
        · exact .inl rfl
        · exact .inr (.inr ⟨hmem, hstay⟩)

variable {items table : List α}

/-- One item. -/
theorem Best.insert (h : Best key strength items table) (item : α) :
    Best key strength (items ++ [item]) (insertBest key strength item table) where
  nodup := nodup_insertBest h.nodup
  subset best hbest := by
    rcases (mem_insertBest_iff h.nodup).mp hbest with ⟨rfl, -⟩ | ⟨hbest, -⟩
    · exact List.mem_append_right _ List.mem_cons_self
    · exact List.mem_append_left _ (h.subset hbest)
  keys other hother := by
    rcases List.mem_append.mp hother with hother | hother
    · obtain ⟨old, hold, hkey, hless⟩ := h.keys other hother
      have hkept : ∃ best ∈ insertBest key strength item table,
          key best = key old ∧ strength old ≤ strength best := insertBest_keeps item hold
      obtain ⟨best, hbest, hkey', hless'⟩ := hkept
      exact ⟨best, hbest, hkey'.trans hkey, hless.trans hless'⟩
    · rw [List.mem_singleton.mp hother]
      exact insertBest_finds item table

/-- A list of items, one after the other. -/
theorem Best.foldl (more : List α) : ∀ {items table : List α}, Best key strength items table →
    Best key strength (items ++ more)
      (more.foldl (fun table item => insertBest key strength item table) table) := by
  induction more with
  | nil =>
    intro items table h
    rwa [List.append_nil]
  | cons item more ih =>
    intro items table h
    have hmore := ih (h.insert item)
    rwa [List.append_assoc] at hmore

/-! ## Ties -/

/-- One item more: it is the first of the strongest, or whoever was so still is. -/
theorem First.insert (h : Best key strength items table) (hfirst : ∀ best ∈ table, First key strength items best)
    {item best : α} (hbest : best ∈ insertBest key strength item table) :
    First key strength (items ++ [item]) best := by
  rcases (mem_insertBest_iff h.nodup).mp hbest with ⟨rfl, hstronger⟩ | ⟨hold, hstay⟩
  · refine ⟨items, [], rfl, fun other hother hkey => ?_, fun _ h => by cases h⟩
    obtain ⟨old, hold, hsame, hless⟩ := h.keys other hother
    exact lt_of_le_of_lt hless (hstronger old hold (hsame.trans hkey))
  · obtain ⟨before, after, rfl, hbefore, hafter⟩ := hfirst best hold
    refine ⟨before, after ++ [item], by rw [List.append_assoc, List.cons_append], hbefore,
      fun other hother hkey => ?_⟩
    rcases List.mem_append.mp hother with hother | hother
    · exact hafter other hother hkey
    · rw [List.mem_singleton.mp hother] at hkey ⊢
      exact hstay hkey.symm

theorem First.foldl (more : List α) : ∀ {items table : List α}, Best key strength items table →
    (∀ best ∈ table, First key strength items best) →
    ∀ best ∈ more.foldl (fun table item => insertBest key strength item table) table,
      First key strength (items ++ more) best := by
  induction more with
  | nil =>
    intro items table _ hfirst
    rwa [List.append_nil]
  | cons item more ih =>
    intro items table h hfirst
    have hmore := ih (h.insert item) fun best hbest => First.insert h hfirst hbest
    rwa [List.append_assoc] at hmore

/-- **Of equally strong items the first stays.** -/
theorem mem_foldl_insertBest {best : α} :
    best ∈ items.foldl (fun table item => insertBest key strength item table) [] ↔
      First key strength items best := by
  have htable : Best key strength ([] ++ items)
      (items.foldl (fun table item => insertBest key strength item table) []) := Best.nil.foldl items
  have hfirst : ∀ best ∈ items.foldl (fun table item => insertBest key strength item table) [],
      First key strength ([] ++ items) best := First.foldl items Best.nil fun _ h => by cases h
  refine ⟨hfirst best, fun h => ?_⟩
  obtain ⟨best', hbest', hkey, -⟩ := htable.keys best h.mem
  rwa [h.unique (hfirst best' hbest') hkey.symm]

end Insert

/-! ## Sorting -/

variable {ρ : Type} [LinearOrder ρ] {rank : α → ρ}

theorem pairwise_mergeSort (rank : α → ρ) (table : List α) :
    (table.mergeSort fun a b => decide (rank a ≤ rank b)).Pairwise fun a b => rank a ≤ rank b := by
  have hsorted : (table.mergeSort fun a b => decide (rank a ≤ rank b)).Pairwise
      fun a b => decide (rank a ≤ rank b) = true := by
    apply List.pairwise_mergeSort
    · intro a b c hab hbc
      exact decide_eq_true (le_trans (of_decide_eq_true hab) (of_decide_eq_true hbc))
    · intro a b
      rw [Bool.or_eq_true, decide_eq_true_iff, decide_eq_true_iff]
      exact le_total (rank a) (rank b)
  exact hsorted.imp of_decide_eq_true

/-- Sorting forgets the order. -/
theorem mergeSort_eq_of_perm {table table' : List α} (h : table.Perm table')
    (hrank : ∀ a ∈ table, ∀ b ∈ table, rank a = rank b → a = b) :
    table.mergeSort (fun a b => decide (rank a ≤ rank b)) =
      table'.mergeSort fun a b => decide (rank a ≤ rank b) := by
  have hperm := List.mergeSort_perm table fun a b => decide (rank a ≤ rank b)
  have hperm' := List.mergeSort_perm table' fun a b => decide (rank a ≤ rank b)
  refine List.Perm.eq_of_pairwise (fun a b ha hb hab hba => ?_) (pairwise_mergeSort rank table)
    (pairwise_mergeSort rank table') (hperm.trans (h.trans hperm'.symm))
  exact hrank a (hperm.subset ha) b (h.symm.subset (hperm'.subset hb)) (le_antisymm hab hba)

end Keyed
