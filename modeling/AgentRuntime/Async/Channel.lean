import Mathlib.Data.List.Infix

/-!
# First in, first out

A queue between tasks, with everything that was ever put into it and taken out of it.

* `Channel` — what was taken and what is waiting is what was put, in order; and the bound holds;
* `putNowait`, `getNowait` — the two operations, which fail on a full and on an empty queue;
* `put_spec`, `get_spec` — what they do; `left_prefix` — nothing is lost, doubled or overtaken.
-/

set_option autoImplicit false

namespace Async

/-- A queue. A limit of zero is none. -/
structure Channel (α : Type) where
  limit : Nat
  items : List α
  /-- What was put into the queue, and what was taken out of it. -/
  entered : List α
  left : List α
  conserved : left ++ items = entered
  bounded : limit = 0 ∨ items.length ≤ limit

namespace Channel

variable {α : Type} {c c' : Channel α} {a : α}

def empty (limit : Nat) : Channel α := ⟨limit, [], [], [], rfl, .inr (Nat.zero_le _)⟩

def full (c : Channel α) : Bool := decide (c.limit ≠ 0 ∧ c.limit ≤ c.items.length)

theorem bounded_put (h : c.full = false) (a : α) : c.limit = 0 ∨ (c.items ++ [a]).length ≤ c.limit := by
  simp only [full, decide_eq_false_iff_not, not_and, not_le] at h
  rcases Nat.eq_zero_or_pos c.limit with hzero | hpos
  · exact .inl hzero
  · have hroom := h (by omega)
    simp only [List.length_append, List.length_singleton]
    omega

/-- `put_nowait`; `none` for `QueueFull`. -/
def putNowait (c : Channel α) (a : α) : Option (Channel α) :=
  if h : c.full = false then
    some {
      limit := c.limit, items := c.items ++ [a], entered := c.entered ++ [a], left := c.left
      conserved := by rw [← List.append_assoc, c.conserved]
      bounded := bounded_put h a }
  else none

/-- `get_nowait`; `none` for `QueueEmpty`. -/
def getNowait (c : Channel α) : Option (α × Channel α) :=
  match h : c.items with
  | [] => none
  | a :: rest => some (a, {
      limit := c.limit, items := rest, entered := c.entered, left := c.left ++ [a]
      conserved := by rw [← c.conserved, h]; simp
      bounded := by
        have hbound := c.bounded
        rw [h, List.length_cons] at hbound
        omega })

theorem put_spec (h : c.putNowait a = some c') :
    c'.limit = c.limit ∧ c'.items = c.items ++ [a] ∧ c'.entered = c.entered ++ [a] ∧ c'.left = c.left := by
  unfold putNowait at h
  split at h
  · cases h
    exact ⟨rfl, rfl, rfl, rfl⟩
  · cases h

theorem put_none (h : c.putNowait a = none) : c.full = true := by
  unfold putNowait at h
  split at h
  · cases h
  · simpa using ‹¬ c.full = false›

theorem full_of_put (h : c.putNowait a = some c') : c.full = false := by
  unfold putNowait at h
  split at h
  · assumption
  · cases h

theorem put_of_room (h : c.full = false) : ∃ c', c.putNowait a = some c' := by
  unfold putNowait
  rw [dif_pos h]
  exact ⟨_, rfl⟩

theorem get_spec (h : c.getNowait = some (a, c')) :
    c'.limit = c.limit ∧ c.items = a :: c'.items ∧ c'.entered = c.entered ∧ c'.left = c.left ++ [a] := by
  unfold getNowait at h
  split at h
  · cases h
  · rename_i hitems
    cases h
    exact ⟨rfl, hitems, rfl, rfl⟩

theorem left_prefix (c : Channel α) : c.left <+: c.entered := ⟨c.items, c.conserved⟩

end Channel

end Async
