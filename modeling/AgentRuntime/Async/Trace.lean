/-!
# Traces of a labelled transition relation

A run of `Step` read off its labels, growing at the end like the log of a program. An invariant of
traces is proved once, by `Trace.invariant`, from what one step preserves.
-/

set_option autoImplicit false

namespace Async

variable {S A : Type}

/-- `Trace Step s as s'`: the labels `as` lead from `s` to `s'`. -/
inductive Trace (Step : S → A → S → Prop) : S → List A → S → Prop where
  | nil (s : S) : Trace Step s [] s
  | snoc {s s' s'' : S} {as : List A} {a : A} :
      Trace Step s as s' → Step s' a s'' → Trace Step s (as ++ [a]) s''

/-- An action of a log that grew by one is the new one, or was there before. -/
theorem snoc_split {as pre post : List A} {a b : A} (h : as ++ [a] = pre ++ b :: post) :
    (as = pre ∧ a = b ∧ post = []) ∨ ∃ post', post = post' ++ [a] ∧ as = pre ++ b :: post' := by
  rcases List.eq_nil_or_concat post with rfl | ⟨post', c, rfl⟩
  · obtain ⟨has, hab⟩ := List.append_inj' h rfl
    exact .inl ⟨has, (List.cons.inj hab).1, rfl⟩
  · rw [List.concat_eq_append] at h ⊢
    rw [← List.cons_append, ← List.append_assoc] at h
    obtain ⟨has, hac⟩ := List.append_inj' h rfl
    obtain rfl : a = c := (List.cons.inj hac).1
    exact .inr ⟨post', rfl, has⟩

theorem snoc_eq_append_cons {as pre post : List A} {a b : A}
    (h : as ++ [a] = pre ++ b :: post) : as = pre ∧ a = b ∨ ∃ post', as = pre ++ b :: post' :=
  (snoc_split h).imp (fun h => ⟨h.1, h.2.1⟩) fun ⟨post', _, has⟩ => ⟨post', has⟩

/-- A place in a log that grew by one is the last one, or was there before. -/
theorem getElem?_snoc {as : List A} {a b : A} {k : Nat} (h : (as ++ [a])[k]? = some b) :
    (as[k]? = some b ∧ (as ++ [a]).take k = as.take k) ∨ a = b ∧ (as ++ [a]).take k = as := by
  rcases Nat.lt_or_ge k as.length with hlt | hge
  · rw [List.getElem?_append_left hlt] at h
    exact .inl ⟨h, List.take_append_of_le_length (Nat.le_of_lt hlt)⟩
  · obtain ⟨hlt, -⟩ := List.getElem?_eq_some_iff.mp h
    rw [List.length_append, List.length_singleton] at hlt
    obtain rfl : k = as.length := by omega
    rw [List.getElem?_concat_length] at h
    exact .inr ⟨Option.some.inj h, List.take_left⟩

namespace Trace

variable {Step : S → A → S → Prop}

theorem append {s s' s'' : S} {as bs : List A} (h : Trace Step s as s')
    (h' : Trace Step s' bs s'') : Trace Step s (as ++ bs) s'' := by
  induction h' with
  | nil => simpa using h
  | snoc _ hstep ih => rw [← List.append_assoc]; exact ih.snoc hstep

/-- What holds at the start and is preserved by every step holds along every trace. -/
theorem invariant {s : S} {I : S → List A → Prop} (hnil : I s [])
    (hstep : ∀ {s' s'' as a}, I s' as → Step s' a s'' → I s'' (as ++ [a])) {s' : S} {as : List A}
    (h : Trace Step s as s') : I s' as := by
  induction h with
  | nil => exact hnil
  | snoc _ hs ih => exact hstep ih hs

end Trace

end Async
