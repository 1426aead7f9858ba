import Mathlib.Data.List.Nodup

/-!
# Dictionaries in insertion order

A dictionary as the list of its entries. A key that is set again keeps its place.

* `set`, `update` — one entry, and all entries of a list one after the other;
* `lookup_set`, `lookup_update_map` — what is found afterwards.
-/

set_option autoImplicit false

namespace Dict

variable {κ α : Type} [BEq κ]

/-- `d[k] = v`. -/
def set : List (κ × α) → κ → α → List (κ × α)
  | [], k, v => [(k, v)]
  | (k', v') :: d, k, v => if k' == k then (k', v) :: d else (k', v') :: set d k v

/-- `d.update(entries)`. -/
def update (d entries : List (κ × α)) : List (κ × α) :=
  entries.foldl (fun d entry => set d entry.1 entry.2) d

@[simp] theorem update_nil (d : List (κ × α)) : update d [] = d := rfl

@[simp] theorem update_cons (d entries : List (κ × α)) (entry : κ × α) :
    update d (entry :: entries) = update (set d entry.1 entry.2) entries := rfl

variable [LawfulBEq κ]

theorem lookup_set (d : List (κ × α)) (k : κ) (v : α) (k' : κ) :
    (set d k v).lookup k' = if k' == k then some v else d.lookup k' := by
  induction d with
  | nil =>
    rw [set, List.lookup_cons, List.lookup_nil]
    cases k' == k <;> rfl
  | cons entry d ih =>
    obtain ⟨k₀, v₀⟩ := entry
    rw [set]
    by_cases h : k₀ = k
    · subst h
      rw [if_pos BEq.rfl, List.lookup_cons, List.lookup_cons]
      cases k' == k₀ <;> rfl
    · rw [if_neg (by simpa using h), List.lookup_cons, List.lookup_cons, ih]
      by_cases h' : k' = k₀
      · subst h'
        have hne : (k' == k) = false := beq_eq_false_iff_ne.mpr h
        rw [BEq.rfl, hne]
        rfl
      · rw [beq_eq_false_iff_ne.mpr h']

/-- The value set for a key is `f` of the key, whatever the order. -/
theorem lookup_update_map (names : List κ) (f : κ → α) (d : List (κ × α)) (k : κ) :
    (update d (names.map fun name => (name, f name))).lookup k =
      if names.elem k then some (f k) else d.lookup k := by
  induction names generalizing d with
  | nil => rfl
  | cons name names ih =>
    rw [List.map_cons, update_cons, ih, lookup_set, List.elem_cons]
    by_cases h : k = name
    · subst h
      simp
    · rw [beq_eq_false_iff_ne.mpr h]
      rfl

/-- What was there before an update is found after it, or something else under the same key. -/
theorem isSome_lookup_update (d entries : List (κ × α)) {k : κ} (h : (d.lookup k).isSome) :
    ((update d entries).lookup k).isSome := by
  induction entries generalizing d with
  | nil => exact h
  | cons entry entries ih =>
    apply ih
    rw [lookup_set]
    split
    · rfl
    · exact h

end Dict
