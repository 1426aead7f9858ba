import AgentRuntime.Adapters.Openai
import AgentRuntime.Fields
import Mathlib.Data.List.Nodup

/-!
# Ids of assembled calls

A fragment without an id of the provider gets one that names its index. It may be the explicit id of
another fragment.

* `assembleCalls_ok`, `assembleCalls_error` — what the loop returns, and when it fails;
* `fallbackId_injective` — two generated ids are distinct;
* `assembleToolCalls_adapter` — when it fails with `AdapterError`;
* `assembleToolCalls_distinct` — when all ids are distinct.
-/

set_option autoImplicit false

namespace AgentRuntime.OpenaiAdapter

variable {json : JsonModule} {fragments : FragmentTable}

/-- The explicit ids are pairwise distinct. -/
def ExplicitDistinct (fragments : FragmentTable) : Prop :=
  ∀ i j item item', fragments.lookup i = some item → fragments.lookup j = some item' →
    item.callId ≠ "" → item.callId = item'.callId → i = j

/-- The explicit id of a fragment is the one that another fragment, without an id, gets. -/
def Clash (fragments : FragmentTable) : Prop :=
  ∃ i j item item', fragments.lookup i = some item ∧ fragments.lookup j = some item' ∧
    item'.callId = "" ∧ item.callId = fallbackId j

/-- The arguments of a fragment are a JSON object. -/
def ToolFragment.Readable (json : JsonModule) (item : ToolFragment) : Prop :=
  ∃ parsed, json.loads item.rawArguments = .ok (.dict parsed)

/-- The arguments of a fragment are no JSON, or none that is an object. -/
def ToolFragment.Rejected (json : JsonModule) (item : ToolFragment) : Prop :=
  (∃ message, json.loads item.rawArguments = .error (.jsonDecodeError message)) ∨
    ∃ value, json.loads item.rawArguments = .ok value ∧ ∀ parsed, value ≠ .dict parsed

def Readable (json : JsonModule) (fragments : FragmentTable) : Prop :=
  ∀ index item, fragments.lookup index = some item → item.Readable json

/-- Some fragment is rejected, and those before it are read. -/
def RejectedFirst (json : JsonModule) (fragments : FragmentTable) : Prop :=
  ∃ index item, fragments.lookup index = some item ∧ item.Rejected json ∧
    ∀ index' item', fragments.lookup index' = some item' → index' < index → item'.Readable json

/-- The calls can be told apart, or the adapter has failed. -/
def CallsDistinct : Except Exc (List ToolCall) → Prop
  | .error e => e.isAdapter = true
  | .ok calls => (calls.map (·.callId)).Nodup

/-! ## The loop -/

theorem assembleCall_ok {index : Int} {item : ToolFragment} {call : ToolCall}
    (h : assembleCall json index item = .ok call) :
    ∃ parsed, json.loads item.rawArguments = .ok (.dict parsed) ∧
      call = ⟨item.idAt index, item.name, freezeMapping parsed⟩ := by
  unfold assembleCall at h
  split at h
  · cases h
  · cases h
  · rename_i parsed hparsed
    cases h
    exact ⟨parsed, hparsed, rfl⟩
  · cases h

theorem ToolFragment.Rejected.not_readable {item : ToolFragment} (h : item.Rejected json) :
    ¬ item.Readable json := by
  rintro ⟨parsed, hparsed⟩
  rcases h with ⟨message, hloads⟩ | ⟨value, hloads, hvalue⟩
  · rw [hloads] at hparsed
    cases hparsed
  · rw [hloads] at hparsed
    exact hvalue parsed (Except.ok.inj hparsed)

/-- The pass fails where the arguments are not read, with `AdapterError` where they are rejected. -/
theorem assembleCall_error {index : Int} {item : ToolFragment} {e : Exc}
    (h : assembleCall json index item = .error e) :
    ¬ item.Readable json ∧ (e.isAdapter = true ↔ item.Rejected json) := by
  unfold assembleCall at h
  split at h
  · rename_i message hloads
    cases h
    have hrejected : item.Rejected json := .inl ⟨message, hloads⟩
    exact ⟨hrejected.not_readable, iff_of_true rfl hrejected⟩
  · rename_i kind message hloads
    cases h
    refine ⟨fun ⟨parsed, hparsed⟩ => ?_, iff_of_false Bool.false_ne_true ?_⟩
    · rw [hloads] at hparsed
      cases hparsed
    · rintro (⟨message', hloads'⟩ | ⟨value, hloads', -⟩) <;>
        · rw [hloads] at hloads'
          cases hloads'
  · cases h
  · rename_i value hvalue hloads
    cases h
    have hrejected : item.Rejected json := .inr ⟨value, hloads, hvalue⟩
    exact ⟨hrejected.not_readable, iff_of_true rfl hrejected⟩

/-- The fragment at an index of the table. -/
def fragmentAt (fragments : FragmentTable) (index : Int) : ToolFragment :=
  (fragments.lookup index).getD {}

theorem assembleCalls_ok {indices : List Int} : ∀ {calls : List ToolCall},
    assembleCalls json fragments indices = .ok calls →
      List.Forall₂ (fun index call => assembleCall json index (fragmentAt fragments index) = .ok call)
        indices calls := by
  induction indices with
  | nil =>
    intro calls h
    cases h
    exact .nil
  | cons index indices ih =>
    intro calls h
    rw [assembleCalls] at h
    cases hcall : assembleCall json index ((fragments.lookup index).getD {}) with
    | error e =>
      rw [hcall] at h
      cases h
    | ok call =>
      rw [hcall] at h
      cases hrest : assembleCalls json fragments indices with
      | error e =>
        rw [hrest] at h
        cases h
      | ok rest =>
        rw [hrest] at h
        cases h
        exact .cons hcall (ih hrest)

/-- The loop fails at the first pass that does. -/
theorem assembleCalls_error {indices : List Int} {e : Exc}
    (h : assembleCalls json fragments indices = .error e) :
    ∃ before index after, indices = before ++ index :: after ∧
      assembleCall json index (fragmentAt fragments index) = .error e ∧
      ∀ index' ∈ before, (fragmentAt fragments index').Readable json := by
  induction indices with
  | nil => cases h
  | cons index indices ih =>
    rw [assembleCalls] at h
    cases hcall : assembleCall json index ((fragments.lookup index).getD {}) with
    | error e' =>
      rw [hcall] at h
      cases h
      exact ⟨[], index, indices, rfl, hcall, by simp⟩
    | ok call =>
      rw [hcall] at h
      obtain ⟨parsed, hparsed, -⟩ := assembleCall_ok hcall
      cases hrest : assembleCalls json fragments indices with
      | error e' =>
        rw [hrest] at h
        cases h
        obtain ⟨before, index', after, rfl, herror, hbefore⟩ := ih hrest
        refine ⟨index :: before, index', after, rfl, herror, ?_⟩
        rintro i (_ | ⟨_, hi⟩)
        · exact ⟨parsed, hparsed⟩
        · exact hbefore i hi
      | ok rest =>
        rw [hrest] at h
        cases h

theorem forall₂_mem_left {α β : Type} {R : α → β → Prop} {as : List α} {bs : List β}
    (h : List.Forall₂ R as bs) {a : α} (ha : a ∈ as) : ∃ b ∈ bs, R a b := by
  induction h with
  | nil => cases ha
  | cons hab _ ih =>
    rcases List.mem_cons.mp ha with rfl | ha
    · exact ⟨_, List.mem_cons_self, hab⟩
    · obtain ⟨b, hb, hR⟩ := ih ha
      exact ⟨b, List.mem_cons_of_mem _ hb, hR⟩

theorem mem_sortedIndices {index : Int} :
    index ∈ sortedIndices fragments ↔ ∃ item, fragments.lookup index = some item := by
  unfold sortedIndices
  rw [(List.mergeSort_perm _ _).mem_iff, ← AList.mem_keys, ← AList.lookup_isSome,
    Option.isSome_iff_exists]

theorem sortedIndices_nodup (fragments : FragmentTable) : (sortedIndices fragments).Nodup :=
  (List.mergeSort_perm _ _).nodup_iff.mpr fragments.keys_nodup

theorem sortedIndices_sorted (fragments : FragmentTable) :
    (sortedIndices fragments).Pairwise (· ≤ ·) := by
  have h := List.pairwise_mergeSort (fun (a b c : Int) (hab : decide (a ≤ b) = true) (hbc : decide (b ≤ c) = true) =>
    (by simp only [decide_eq_true_eq] at hab hbc ⊢; omega : decide (a ≤ c) = true))
    (fun a b => by simp only [Bool.or_eq_true, decide_eq_true_eq]; omega) fragments.keys
  exact h.imp fun hle => of_decide_eq_true hle

theorem fragmentAt_eq {index : Int} {item : ToolFragment} (h : fragments.lookup index = some item) :
    fragmentAt fragments index = item := by
  unfold fragmentAt
  rw [h]
  rfl

/-- The failure of the loop over the sorted indices is that of the least index whose arguments are not
read. -/
theorem assembleToolCalls_error {e : Exc} (h : assembleToolCalls json fragments = .error e) :
    ∃ index item, fragments.lookup index = some item ∧ ¬ item.Readable json ∧
      (e.isAdapter = true ↔ item.Rejected json) ∧
      ∀ index' item', fragments.lookup index' = some item' → index' < index → item'.Readable json := by
  obtain ⟨before, index, after, hsorted, herror, hbefore⟩ := assembleCalls_error h
  have hpairwise := sortedIndices_sorted fragments
  rw [hsorted] at hpairwise
  obtain ⟨item, hitem⟩ := mem_sortedIndices.mp (hsorted ▸ List.mem_append_right _ List.mem_cons_self)
  rw [fragmentAt_eq hitem] at herror
  obtain ⟨hunread, hadapter⟩ := assembleCall_error herror
  refine ⟨index, item, hitem, hunread, hadapter, fun index' item' hitem' hlt => ?_⟩
  have hmem : index' ∈ before ++ index :: after := hsorted ▸ mem_sortedIndices.mpr ⟨item', hitem'⟩
  rcases List.mem_append.mp hmem with hmem | hmem
  · have hread := hbefore index' hmem
    rwa [fragmentAt_eq hitem'] at hread
  · have hle : index ≤ index' := by
      rcases List.mem_cons.mp hmem with rfl | hmem
      · exact le_refl _
      · exact (List.pairwise_cons.mp (List.pairwise_append.mp hpairwise).2.1).1 index' hmem
    omega

/-- Everything is read, or nothing is returned. -/
theorem assembleToolCalls_ok_iff :
    (∃ calls, assembleToolCalls json fragments = .ok calls) ↔ Readable json fragments := by
  constructor
  · rintro ⟨calls, h⟩ index item hitem
    obtain ⟨call, -, hcall⟩ := forall₂_mem_left (assembleCalls_ok h) (mem_sortedIndices.mpr ⟨item, hitem⟩)
    obtain ⟨parsed, hparsed, -⟩ := assembleCall_ok hcall
    rw [fragmentAt_eq hitem] at hparsed
    exact ⟨parsed, hparsed⟩
  · intro hreadable
    cases h : assembleToolCalls json fragments with
    | ok calls => exact ⟨calls, rfl⟩
    | error e =>
      obtain ⟨index, item, hitem, hunread, -⟩ := assembleToolCalls_error h
      exact absurd (hreadable index item hitem) hunread

/-- It fails with `AdapterError` exactly if the first fragment that is not read is rejected. -/
theorem assembleToolCalls_adapter {e : Exc} (h : assembleToolCalls json fragments = .error e) :
    e.isAdapter = true ↔ RejectedFirst json fragments := by
  obtain ⟨index, item, hitem, hunread, hadapter, hbefore⟩ := assembleToolCalls_error h
  rw [hadapter]
  refine ⟨fun hrejected => ⟨index, item, hitem, hrejected, hbefore⟩, ?_⟩
  rintro ⟨index', item', hitem', hrejected, hbefore'⟩
  rcases lt_trichotomy index index' with hlt | rfl | hlt
  · exact absurd (hbefore' index item hitem hlt) hunread
  · rw [hitem] at hitem'
    cases hitem'
    exact hrejected
  · exact absurd (hbefore index' item' hitem' hlt) hrejected.not_readable

/-! ## Ids -/

theorem fallbackId_injective {i j : Int} (h : fallbackId i = fallbackId j) : i = j := by
  have hlist := congrArg String.toList h
  unfold fallbackId at hlist
  rw [String.toList_append, String.toList_append] at hlist
  exact Fields.int_inj (List.append_cancel_left hlist)

theorem fallbackId_ne_empty (i : Int) : fallbackId i ≠ "" := by
  intro h
  have hlist := congrArg String.toList h
  unfold fallbackId at hlist
  rw [String.toList_append] at hlist
  exact absurd (congrArg List.length hlist) (by simp)

/-- The ids of the calls, index by index. -/
theorem assembleToolCalls_ids {calls : List ToolCall}
    (h : assembleToolCalls json fragments = .ok calls) :
    calls.map (·.callId) =
      (sortedIndices fragments).map fun index => (fragmentAt fragments index).idAt index := by
  have hall := assembleCalls_ok h
  clear h
  generalize sortedIndices fragments = indices at hall ⊢
  induction hall with
  | nil => rfl
  | cons hcall _ ih =>
    obtain ⟨parsed, -, rfl⟩ := assembleCall_ok hcall
    rw [List.map_cons, List.map_cons, ih]

/-- Two fragments have the same id only where an explicit one clashes. -/
theorem idAt_injective (hexplicit : ExplicitDistinct fragments) (hclash : ¬ Clash fragments)
    {i j : Int} {item item' : ToolFragment} (hi : fragments.lookup i = some item)
    (hj : fragments.lookup j = some item') (h : item.idAt i = item'.idAt j) : i = j := by
  unfold ToolFragment.idAt at h
  by_cases hitem : item.callId = ""
  · rw [if_pos hitem] at h
    by_cases hitem' : item'.callId = ""
    · rw [if_pos hitem'] at h
      exact fallbackId_injective h
    · rw [if_neg hitem'] at h
      exact absurd ⟨j, i, item', item, hj, hi, hitem, h.symm⟩ hclash
  · rw [if_neg hitem] at h
    by_cases hitem' : item'.callId = ""
    · rw [if_pos hitem'] at h
      exact absurd ⟨i, j, item, item', hi, hj, hitem', h⟩ hclash
    · rw [if_neg hitem'] at h
      exact hexplicit i j item item' hi hj hitem h

/-- Two calls of a clash have the same id. -/
theorem clash_not_distinct (hreadable : Readable json fragments) (hclash : Clash fragments) :
    ¬ CallsDistinct (assembleToolCalls json fragments) := by
  obtain ⟨i, j, item, item', hi, hj, hempty, hsame⟩ := hclash
  obtain ⟨calls, h⟩ := assembleToolCalls_ok_iff.mpr hreadable
  rw [h]
  intro hnodup
  change (calls.map (·.callId)).Nodup at hnodup
  rw [assembleToolCalls_ids h] at hnodup
  have hids : (fragmentAt fragments i).idAt i = (fragmentAt fragments j).idAt j := by
    rw [fragmentAt_eq hi, fragmentAt_eq hj]
    unfold ToolFragment.idAt
    rw [if_pos hempty, if_neg (hsame ▸ fallbackId_ne_empty j), hsame]
  have hij : i = j := List.inj_on_of_nodup_map hnodup (mem_sortedIndices.mpr ⟨item, hi⟩)
    (mem_sortedIndices.mpr ⟨item', hj⟩) hids
  subst hij
  rw [hi] at hj
  cases hj
  exact fallbackId_ne_empty i (hsame.symm.trans hempty)

/-- **Call ids.** Where the explicit ids are distinct, the adapter fails or all ids are distinct exactly
if the first fragment that is not read is rejected, or all are read and no explicit id is the one that
another fragment gets. -/
theorem assembleToolCalls_distinct (hexplicit : ExplicitDistinct fragments) :
    CallsDistinct (assembleToolCalls json fragments) ↔
      RejectedFirst json fragments ∨ (Readable json fragments ∧ ¬ Clash fragments) := by
  cases h : assembleToolCalls json fragments with
  | error e =>
    have hunreadable : ¬ Readable json fragments := fun hreadable => by
      obtain ⟨calls, hok⟩ := assembleToolCalls_ok_iff.mpr hreadable
      rw [h] at hok
      cases hok
    change e.isAdapter = true ↔ _
    rw [assembleToolCalls_adapter h]
    exact ⟨.inl, Or.rec id fun hread => absurd hread.1 hunreadable⟩
  | ok calls =>
    have hreadable : Readable json fragments := assembleToolCalls_ok_iff.mp ⟨calls, h⟩
    constructor
    · intro hdistinct
      refine .inr ⟨hreadable, fun hclash => clash_not_distinct hreadable hclash ?_⟩
      rw [h]
      exact hdistinct
    · rintro (⟨index, item, hitem, hrejected, -⟩ | ⟨-, hclash⟩)
      · exact absurd (hreadable index item hitem) hrejected.not_readable
      · change (calls.map (·.callId)).Nodup
        rw [assembleToolCalls_ids h]
        apply (sortedIndices_nodup fragments).map_on
        intro i hi j hj hids
        obtain ⟨item, hi⟩ := mem_sortedIndices.mp hi
        obtain ⟨item', hj⟩ := mem_sortedIndices.mp hj
        rw [fragmentAt_eq hi, fragmentAt_eq hj] at hids
        exact idAt_injective hexplicit hclash hi hj hids

/-! ## A clash -/

/-- A `json` that reads the empty object. -/
def emptyObjects : JsonModule where
  dumps _ := "\x7b\x7d"
  loads text :=
    if text = "\x7b\x7d" then .ok (.dict [])
    else .error (.jsonDecodeError "Expecting value: line 1 column 1 (char 0)")

/-- The provider gives its calls 0 and 2 an id, and call 1 none. -/
def threeFragments (first last : String) : FragmentTable :=
  (((∅ : FragmentTable).insert 2 { callId := last, name := "search" }).insert 1
    { callId := "", name := "search" }).insert 0 { callId := first, name := "search" }

section ThreeFragments

variable {first last : String}

theorem threeFragments_lookup {i : Int} {item : ToolFragment}
    (h : (threeFragments first last).lookup i = some item) :
    item.arguments = "" ∧
      (i = 0 ∧ item.callId = first ∨ i = 1 ∧ item.callId = "" ∨ i = 2 ∧ item.callId = last) := by
  unfold threeFragments at h
  by_cases h₀ : i = 0
  · subst h₀
    rw [AList.lookup_insert] at h
    cases h
    exact ⟨rfl, .inl ⟨rfl, rfl⟩⟩
  · rw [AList.lookup_insert_ne h₀] at h
    by_cases h₁ : i = 1
    · subst h₁
      rw [AList.lookup_insert] at h
      cases h
      exact ⟨rfl, .inr (.inl ⟨rfl, rfl⟩)⟩
    · rw [AList.lookup_insert_ne h₁] at h
      by_cases h₂ : i = 2
      · subst h₂
        rw [AList.lookup_insert] at h
        cases h
        exact ⟨rfl, .inr (.inr ⟨rfl, rfl⟩)⟩
      · rw [AList.lookup_insert_ne h₂] at h
        cases h

theorem threeFragments_explicit (hne : first ≠ last) :
    ExplicitDistinct (threeFragments first last) := by
  intro i j item item' hi hj hitem hsame
  rcases (threeFragments_lookup hi).2 with ⟨rfl, hid⟩ | ⟨rfl, hid⟩ | ⟨rfl, hid⟩ <;>
    rcases (threeFragments_lookup hj).2 with ⟨rfl, hid'⟩ | ⟨rfl, hid'⟩ | ⟨rfl, hid'⟩ <;>
    grind

theorem threeFragments_readable : Readable emptyObjects (threeFragments first last) := by
  intro index item h
  refine ⟨[], ?_⟩
  unfold ToolFragment.rawArguments
  rw [if_pos (threeFragments_lookup h).1]
  rfl

end ThreeFragments

theorem threeFragments_distinct :
    CallsDistinct (assembleToolCalls emptyObjects (threeFragments "call-0" "call-3")) := by
  refine (assembleToolCalls_distinct (threeFragments_explicit (by decide))).mpr
    (.inr ⟨threeFragments_readable, ?_⟩)
  rintro ⟨i, j, item, item', hi, hj, hempty, hsame⟩
  -- Only call 1 gets an id, `call-1`.
  have hj₁ : j = 1 := by
    rcases (threeFragments_lookup hj).2 with ⟨-, hid⟩ | ⟨rfl, -⟩ | ⟨-, hid⟩
    · rw [hid] at hempty
      exact absurd hempty (by decide)
    · rfl
    · rw [hid] at hempty
      exact absurd hempty (by decide)
  subst hj₁
  rcases (threeFragments_lookup hi).2 with ⟨-, hid⟩ | ⟨-, hid⟩ | ⟨-, hid⟩ <;>
    · rw [hid] at hsame
      exact absurd hsame (by decide)

/-- The provider calls its first call `call-1`, which is what its second one gets. -/
theorem threeFragments_clash : ExplicitDistinct (threeFragments "call-1" "call-3") ∧
    ¬ CallsDistinct (assembleToolCalls emptyObjects (threeFragments "call-1" "call-3")) :=
  ⟨threeFragments_explicit (by decide), clash_not_distinct threeFragments_readable
    ⟨0, 1, { callId := "call-1", name := "search" }, { callId := "", name := "search" }, rfl, rfl, rfl,
      rfl⟩⟩

end AgentRuntime.OpenaiAdapter
