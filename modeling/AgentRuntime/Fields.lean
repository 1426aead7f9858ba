import Mathlib

/-!
# Fields in a separated string

Strings built from fields with a separator character between them. A field that does not hold the
separator can be read off at either end:

* `cut_first`, `cut_last` — two concatenations at a separator agree in the field beside it, and in
  what is left;
* `int_notMem`, `nat_notMem` — a number holds no separator but digits and a sign.
-/

set_option autoImplicit false

namespace Fields

variable {c : Char} {xs ys us vs : List Char}

/-- The first field, and the rest. -/
theorem cut_first (hx : c ∉ xs) (hy : c ∉ ys) (h : xs ++ c :: us = ys ++ c :: vs) :
    xs = ys ∧ us = vs := by
  induction xs generalizing ys with
  | nil =>
    cases ys with
    | nil => exact ⟨rfl, (List.cons.inj h).2⟩
    | cons y ys => exact absurd ((List.cons.inj h).1 ▸ List.mem_cons_self) hy
  | cons x xs ih =>
    cases ys with
    | nil => exact absurd ((List.cons.inj h).1 ▸ List.mem_cons_self) hx
    | cons y ys =>
      obtain ⟨rfl, htail⟩ := List.cons.inj h
      obtain ⟨rfl, hrest⟩ := ih (fun hm => hx (List.mem_cons_of_mem _ hm))
        (fun hm => hy (List.mem_cons_of_mem _ hm)) htail
      exact ⟨rfl, hrest⟩

/-- The last field, and what is before it. -/
theorem cut_last (hu : c ∉ us) (hv : c ∉ vs) (h : xs ++ c :: us = ys ++ c :: vs) :
    xs = ys ∧ us = vs := by
  have hrev := congrArg List.reverse h
  simp only [List.reverse_append, List.reverse_cons, List.append_assoc, List.singleton_append] at hrev
  obtain ⟨hus, hxs⟩ := cut_first (by simpa using hu) (by simpa using hv) hrev
  exact ⟨List.reverse_injective hxs, List.reverse_injective hus⟩

theorem nat_digits {n : Nat} {d : Char} (h : d ∈ (toString n).toList) : d.isDigit = true := by
  rw [Nat.toString_eq_repr, Nat.toList_repr] at h
  exact Nat.isDigit_of_mem_toDigits (by decide) (by decide) h

theorem int_digits {n : Int} {d : Char} (h : d ∈ (toString n).toList) :
    d.isDigit = true ∨ d = '-' := by
  rw [Int.toString_eq_repr, Int.repr_eq_if] at h
  split at h
  · exact .inl (nat_digits h)
  · rw [String.toList_append] at h
    rcases List.mem_append.mp h with h | h
    · exact .inr (by simpa using h)
    · exact .inl (nat_digits h)

/-- A number holds no separator. -/
theorem nat_notMem (n : Nat) (hc : c.isDigit = false) : c ∉ (toString n).toList := by
  intro h
  rw [nat_digits h] at hc
  cases hc

theorem int_notMem (n : Int) (hc : c.isDigit = false) (hs : c ≠ '-') :
    c ∉ (toString n).toList := by
  intro h
  rcases int_digits h with hd | hd
  · rw [hd] at hc
    cases hc
  · exact hs hd

theorem nat_inj {m n : Nat} (h : (toString m).toList = (toString n).toList) : m = n :=
  Nat.repr_injective (String.toList_injective h)

theorem int_inj {m n : Int} (h : (toString m).toList = (toString n).toList) : m = n :=
  Int.repr_injective (String.toList_injective h)

end Fields
