import Mathlib.Data.List.Nodup
import Mathlib.Data.List.Perm.Subperm
import AgentRuntime.Jsonutil

/-!
# Equality of JSON data

Python's `==` on JSON data is an equivalence where the keys of every mapping are distinct, as those
of a dict are.

* `Value.keyed` — distinct keys, at every depth;
* `Value.pyEq_trans`, `Value.pyEq_symm`.
-/

set_option autoImplicit false

namespace AgentRuntime

namespace Value

mutual

/-- The keys of every mapping in the value are distinct. -/
def keyed : Value → Bool
  | list xs | tuple xs => keyedItems xs
  | dict kvs | proxy kvs => decide (kvs.map Prod.fst).Nodup && keyedFields kvs
  | _ => true

def keyedItems : List Value → Bool
  | [] => true
  | x :: xs => keyed x && keyedItems xs

def keyedFields : List (String × Value) → Bool
  | [] => true
  | (_, v) :: kvs => keyed v && keyedFields kvs

end

theorem keyedFields_mem {kvs : List (String × Value)} (h : keyedFields kvs = true) {kv : String × Value}
    (hkv : kv ∈ kvs) : kv.2.keyed = true := by
  induction kvs with
  | nil => cases hkv
  | cons kv' kvs ih =>
    obtain ⟨k, v⟩ := kv'
    simp only [keyedFields, Bool.and_eq_true] at h
    rcases List.mem_cons.mp hkv with rfl | hkv
    · exact h.1
    · exact ih h.2 hkv

theorem pyFound_iff {kvs kws : List (String × Value)} :
    pyFound kvs kws = true ↔ ∀ kv ∈ kvs, ∃ kw ∈ kws, kw.1 = kv.1 ∧ pyEq kv.2 kw.2 = true := by
  induction kvs with
  | nil => exact iff_of_true rfl fun _ h => by cases h
  | cons kv kvs ih =>
    obtain ⟨k, v⟩ := kv
    simp only [pyFound, Bool.and_eq_true, List.any_eq_true, ih, List.forall_mem_cons, beq_iff_eq]

/-- Two mappings are equal when they have the same number of entries, and those of the one are
found in the other. -/
theorem pyEq_fields {v w : Value} {kvs : List (String × Value)} (hv : v.fields? = some kvs) :
    v.pyEq w = true ↔ ∃ kws, w.fields? = some kws ∧ kvs.length = kws.length ∧
      pyFound kvs kws = true := by
  cases v with
  | dict kvs' | proxy kvs' =>
    cases hv
    cases w <;> simp [pyEq, fields?]
  | _ => cases hv

/-- Numbers are equal when their values are. -/
theorem pyEq_num {v w : Value} {q : Rat} (hv : v.num? = some q) :
    v.pyEq w = true ↔ w.num? = some q := by
  cases v with
  | bool _ | int _ | float _ =>
    simp only [pyEq, beq_iff_eq, hv]
    exact eq_comm
  | _ => cases hv

mutual

theorem pyEq_trans : ∀ {u v w : Value}, u.pyEq v = true → v.pyEq w = true → u.pyEq w = true
  | .none, v, w, h, h' => by
    cases v <;> first | exact h' | cases h
  | .bool b, v, w, h, h' => by
    have hv := (pyEq_num (v := .bool b) rfl).mp h
    exact (pyEq_num rfl).mpr ((pyEq_num hv).mp h')
  | .int n, v, w, h, h' => by
    have hv := (pyEq_num (v := .int n) rfl).mp h
    exact (pyEq_num rfl).mpr ((pyEq_num hv).mp h')
  | .float q, v, w, h, h' => by
    have hv := (pyEq_num (v := .float q) rfl).mp h
    exact (pyEq_num rfl).mpr ((pyEq_num hv).mp h')
  | .str s, v, w, h, h' => by
    cases v with
    | str s' =>
      simp only [pyEq, beq_iff_eq] at h
      rw [h]
      exact h'
    | _ => cases h
  | .list xs, v, w, h, h' => by
    cases v with
    | list ys =>
      cases w with
      | list zs =>
        simp only [pyEq] at h h' ⊢
        exact pyEqs_trans h h'
      | _ => cases h'
    | _ => cases h
  | .tuple xs, v, w, h, h' => by
    cases v with
    | tuple ys =>
      cases w with
      | tuple zs =>
        simp only [pyEq] at h h' ⊢
        exact pyEqs_trans h h'
      | _ => cases h'
    | _ => cases h
  | .dict kvs, v, w, h, h' => by
    obtain ⟨kws, hv, hlen, hfound⟩ := (pyEq_fields (v := .dict kvs) rfl).mp h
    obtain ⟨kzs, hw, hlen', hfound'⟩ := (pyEq_fields hv).mp h'
    exact (pyEq_fields rfl).mpr ⟨kzs, hw, hlen.trans hlen', pyFound_trans hfound hfound'⟩
  | .proxy kvs, v, w, h, h' => by
    obtain ⟨kws, hv, hlen, hfound⟩ := (pyEq_fields (v := .proxy kvs) rfl).mp h
    obtain ⟨kzs, hw, hlen', hfound'⟩ := (pyEq_fields hv).mp h'
    exact (pyEq_fields rfl).mpr ⟨kzs, hw, hlen.trans hlen', pyFound_trans hfound hfound'⟩

theorem pyEqs_trans : ∀ {xs ys zs : List Value}, pyEqs xs ys = true → pyEqs ys zs = true →
    pyEqs xs zs = true
  | [], ys, zs, h, h' => by
    cases ys <;> first | exact h' | cases h
  | x :: xs, ys, zs, h, h' => by
    cases ys with
    | nil => cases h
    | cons y ys =>
      cases zs with
      | nil => cases h'
      | cons z zs =>
        simp only [pyEqs, Bool.and_eq_true] at h h' ⊢
        exact ⟨pyEq_trans h.1 h'.1, pyEqs_trans h.2 h'.2⟩

theorem pyFound_trans : ∀ {kvs kws kzs : List (String × Value)}, pyFound kvs kws = true →
    pyFound kws kzs = true → pyFound kvs kzs = true
  | [], _, _, _, _ => rfl
  | (k, v) :: kvs, kws, kzs, h, h' => by
    simp only [pyFound, Bool.and_eq_true, List.any_eq_true, beq_iff_eq] at h ⊢
    obtain ⟨⟨kw, hkw, hk, heq⟩, hrest⟩ := h
    obtain ⟨kz, hkz, hk', heq'⟩ := pyFound_iff.mp h' kw hkw
    exact ⟨⟨kz, hkz, hk'.trans hk, pyEq_trans heq heq'⟩, pyFound_trans hrest h'⟩

end

/-- Distinct keys, as many, all found: the keys are the same. -/
theorem keys_of_pyFound {kvs kws : List (String × Value)} (hn : (kvs.map Prod.fst).Nodup)
    (hlen : kvs.length = kws.length) (h : pyFound kvs kws = true) :
    (kvs.map Prod.fst).Perm (kws.map Prod.fst) := by
  refine (List.subperm_of_subset hn fun k hk => ?_).perm_of_length_le (by simp [hlen])
  obtain ⟨kv, hkv, rfl⟩ := List.mem_map.mp hk
  obtain ⟨kw, hkw, heq, -⟩ := pyFound_iff.mp h kv hkv
  exact List.mem_map.mpr ⟨kw, hkw, heq⟩

theorem pyFound_symm {kvs kws : List (String × Value)} (hk : (kvs.map Prod.fst).Nodup)
    (hw : (kws.map Prod.fst).Nodup) (hlen : kvs.length = kws.length) (h : pyFound kvs kws = true)
    (hflip : ∀ kv ∈ kvs, ∀ kw ∈ kws, pyEq kv.2 kw.2 = true → pyEq kw.2 kv.2 = true) :
    pyFound kws kvs = true := by
  refine pyFound_iff.mpr fun kw hkw => ?_
  have hmem : kw.1 ∈ kvs.map Prod.fst :=
    (keys_of_pyFound hk hlen h).mem_iff.mpr (List.mem_map.mpr ⟨kw, hkw, rfl⟩)
  obtain ⟨kv, hkv, hkey⟩ := List.mem_map.mp hmem
  obtain ⟨kw', hkw', hkey', heq⟩ := pyFound_iff.mp h kv hkv
  -- one key, one entry
  obtain rfl : kw' = kw := List.inj_on_of_nodup_map hw hkw' hkw (hkey'.trans hkey)
  exact ⟨kv, hkv, hkey, hflip kv hkv kw' hkw' heq⟩

mutual

theorem pyEq_symm : ∀ {v w : Value}, v.keyed = true → w.keyed = true → v.pyEq w = true →
    w.pyEq v = true
  | .none, w, _, _, h => by
    cases w <;> first | rfl | cases h
  | .bool b, w, _, _, h => (pyEq_num ((pyEq_num (v := .bool b) rfl).mp h)).mpr rfl
  | .int n, w, _, _, h => (pyEq_num ((pyEq_num (v := .int n) rfl).mp h)).mpr rfl
  | .float q, w, _, _, h => (pyEq_num ((pyEq_num (v := .float q) rfl).mp h)).mpr rfl
  | .str s, w, _, _, h => by
    cases w with
    | str s' =>
      simp only [pyEq, beq_iff_eq] at h ⊢
      exact h.symm
    | _ => cases h
  | .list xs, w, hv, hw, h => by
    cases w with
    | list ys =>
      simp only [pyEq, keyed] at h hv hw ⊢
      exact pyEqs_symm hv hw h
    | _ => cases h
  | .tuple xs, w, hv, hw, h => by
    cases w with
    | tuple ys =>
      simp only [pyEq, keyed] at h hv hw ⊢
      exact pyEqs_symm hv hw h
    | _ => cases h
  | .dict kvs, w, hv, hw, h => by
    obtain ⟨kws, hfields, hlen, hfound⟩ := (pyEq_fields (v := .dict kvs) rfl).mp h
    have hw' : keyed (.dict kws) = true := by
      cases w with
      | dict _ | proxy _ => cases hfields; exact hw
      | _ => cases hfields
    refine (pyEq_fields hfields).mpr ⟨kvs, rfl, hlen.symm, ?_⟩
    simp only [keyed, Bool.and_eq_true, decide_eq_true_eq] at hv hw'
    exact pyFound_symm hv.1 hw'.1 hlen hfound (pyFound_flip hv.2 hw'.2 hfound)
  | .proxy kvs, w, hv, hw, h => by
    obtain ⟨kws, hfields, hlen, hfound⟩ := (pyEq_fields (v := .proxy kvs) rfl).mp h
    have hw' : keyed (.dict kws) = true := by
      cases w with
      | dict _ | proxy _ => cases hfields; exact hw
      | _ => cases hfields
    refine (pyEq_fields hfields).mpr ⟨kvs, rfl, hlen.symm, ?_⟩
    simp only [keyed, Bool.and_eq_true, decide_eq_true_eq] at hv hw'
    exact pyFound_symm hv.1 hw'.1 hlen hfound (pyFound_flip hv.2 hw'.2 hfound)

theorem pyEqs_symm : ∀ {xs ys : List Value}, keyedItems xs = true → keyedItems ys = true →
    pyEqs xs ys = true → pyEqs ys xs = true
  | [], ys, _, _, h => by
    cases ys <;> first | rfl | cases h
  | x :: xs, ys, hx, hy, h => by
    cases ys with
    | nil => cases h
    | cons y ys =>
      simp only [pyEqs, keyedItems, Bool.and_eq_true] at h hx hy ⊢
      exact ⟨pyEq_symm hx.1 hy.1 h.1, pyEqs_symm hx.2 hy.2 h.2⟩

/-- What is found is equal the other way round, too. -/
theorem pyFound_flip : ∀ {kvs kws : List (String × Value)}, keyedFields kvs = true →
    keyedFields kws = true → pyFound kvs kws = true →
    ∀ kv ∈ kvs, ∀ kw ∈ kws, pyEq kv.2 kw.2 = true → pyEq kw.2 kv.2 = true
  | [], _, _, _, _, _, hkv, _, _, _ => by cases hkv
  | (k, v) :: kvs, kws, hk, hw, h, kv, hkv, kw, hkw, heq => by
    simp only [keyedFields, pyFound, Bool.and_eq_true] at hk h
    rcases List.mem_cons.mp hkv with rfl | hkv
    · exact pyEq_symm hk.1 (keyedFields_mem hw hkw) heq
    · exact pyFound_flip hk.2 hw h.2 kv hkv kw hkw heq

end

end Value

end AgentRuntime
