import AgentRuntime.Context.Pairing
import Mathlib.Logic.Function.Iterate

/-!
# What trimming deletes

`ToolGroupCompressor.compress` goes through the selections of the paired view in one order: without
its oldest group, without its two oldest ones, and so on; then without its oldest plain turns. It
returns the first of them that fits.

* `withoutGroups`, `withoutTurns`, `Cut` — these selections;
* `core` — what is left when nothing may go any more;
* `Oldest.cut`, `Oldest.core` — what one pass of the loop deletes;
* `trimGroups_spec` — what is returned, and when the loop gives up.
-/

set_option autoImplicit false

namespace AgentRuntime

variable {parts before after : List Part} {p : Part}

/-! ## Selections -/

/-- The `k` oldest groups are deleted. -/
def withoutGroups (k : Nat) (parts : List Part) : List Part := (List.eraseP Part.isGroup)^[k] parts

/-- No group is left. -/
def plainParts (parts : List Part) : List Part := parts.filter fun p => !p.isGroup

/-- The `j` oldest turns are deleted; the last message is no candidate. -/
def withoutTurns (j : Nat) (parts : List Part) : List Part :=
  (List.eraseP fun p => !p.isSystem)^[j] parts.dropLast ++ parts.getLast?.toList

/-- Some of the oldest groups have been deleted, or all of them and some of the oldest turns. -/
def Cut (parts parts' : List Part) : Prop :=
  (∃ k, parts' = withoutGroups k parts) ∨ ∃ j, parts' = withoutTurns j (plainParts parts)

/-- The system messages and the last one. -/
def irreducible (parts : List Part) : List Part :=
  (parts.dropLast.filter fun p => p.isSystem) ++ parts.getLast?.toList

/-- What may never go: without the groups, the system messages and the last message. -/
def core (parts : List Part) : List Part := irreducible (plainParts parts)

theorem dropLast_append_getLast? {α : Type} (xs : List α) :
    xs.dropLast ++ xs.getLast?.toList = xs := by
  cases hlast : xs.getLast? with
  | none =>
    rw [List.getLast?_eq_none_iff] at hlast
    rw [hlast]
    rfl
  | some x =>
    obtain ⟨ys, rfl⟩ := List.getLast?_eq_some_iff.mp hlast
    rw [List.dropLast_concat]
    rfl

/-- The first match is deleted. -/
theorem eraseP_split {α : Type} {q : α → Bool} {before after : List α} {a : α}
    (hbefore : ∀ b ∈ before, q b = false) (ha : q a = true) :
    (before ++ a :: after).eraseP q = before ++ after := by
  have hnone : ∀ b ∈ before, ¬ q b = true := fun b hb => by
    rw [hbefore b hb]
    exact Bool.false_ne_true
  rw [List.eraseP_append_right _ hnone, List.eraseP_cons_of_pos ha]

theorem filter_eraseP {α : Type} (q : α → Bool) (xs : List α) :
    ((xs.eraseP q).filter fun a => !q a) = xs.filter fun a => !q a := by
  induction xs with
  | nil => rfl
  | cons x xs ih =>
    rw [List.eraseP_cons]
    cases hx : q x with
    | true =>
      rw [cond_true, List.filter_cons_of_neg]
      rw [hx]
      exact Bool.false_ne_true
    | false =>
      rw [cond_false, List.filter_cons, List.filter_cons, ih]

theorem plainParts_withoutGroups (k : Nat) (parts : List Part) :
    plainParts (withoutGroups k parts) = plainParts parts := by
  induction k generalizing parts with
  | zero => rfl
  | succ k ih =>
    unfold withoutGroups at ih ⊢
    rw [Function.iterate_succ_apply, ih]
    exact filter_eraseP Part.isGroup parts

theorem plainParts_eq_self (h : ∀ p ∈ parts, p.isGroup = false) : plainParts parts = parts :=
  List.filter_eq_self.mpr fun p hp => by
    rw [h p hp]
    rfl

/-! ## One pass -/

/-- Deleting the oldest group. -/
theorem withoutGroups_succ (k : Nat) (hbefore : ∀ q ∈ before, q.isGroup = false)
    (hp : p.isGroup = true) :
    withoutGroups (k + 1) (before ++ p :: after) = withoutGroups k (before ++ after) := by
  unfold withoutGroups
  rw [Function.iterate_succ_apply, eraseP_split hbefore hp]

theorem withoutGroups_of_plain (k : Nat) (h : ∀ p ∈ parts, p.isGroup = false) :
    withoutGroups k parts = parts := by
  have hfix : parts.eraseP Part.isGroup = parts := List.eraseP_of_forall_not fun p hp => by
    rw [h p hp]
    exact Bool.false_ne_true
  exact Function.iterate_fixed hfix k

theorem withoutTurns_zero (parts : List Part) : withoutTurns 0 parts = parts :=
  dropLast_append_getLast? parts

/-- What is left of plain messages when one goes. -/
theorem plain_of_delete (h : ∀ q ∈ before ++ p :: after, q.isGroup = false) :
    ∀ q ∈ before ++ after, q.isGroup = false := by
  intro q hq
  apply h
  rcases List.mem_append.mp hq with hq | hq
  · exact List.mem_append_left _ hq
  · exact List.mem_append_right _ (List.mem_cons_of_mem _ hq)

theorem getLast?_delete {α : Type} {before after : List α} {a : α} (hafter : after ≠ []) :
    (before ++ a :: after).getLast? = (before ++ after).getLast? := by
  rw [List.getLast?_append_of_ne_nil _ (List.cons_ne_nil _ _),
    List.getLast?_append_of_ne_nil _ hafter, List.getLast?_cons_of_ne_nil hafter]

/-- Deleting the oldest turn: it is not the last. -/
theorem withoutTurns_succ (j : Nat) (hbefore : ∀ q ∈ before, q.isSystem = true)
    (hp : p.isSystem = false) (hafter : after ≠ []) :
    withoutTurns (j + 1) (before ++ p :: after) = withoutTurns j (before ++ after) := by
  have hinit : (before ++ p :: after).dropLast = before ++ p :: after.dropLast := by
    rw [List.dropLast_append_of_ne_nil (List.cons_ne_nil _ _), List.dropLast_cons_of_ne_nil hafter]
  have herase : (before ++ p :: after.dropLast).eraseP (fun p => !p.isSystem) =
      (before ++ after).dropLast := by
    rw [List.dropLast_append_of_ne_nil hafter]
    apply eraseP_split
    · intro q hq
      rw [hbefore q hq]
      rfl
    · rw [hp]
      rfl
  unfold withoutTurns
  rw [Function.iterate_succ_apply, hinit, getLast?_delete hafter, herase]

namespace Oldest

/-- One pass goes on with the selections. -/
theorem cut (h : Oldest parts before p after) {parts' : List Part} (hcut : Cut (before ++ after) parts') :
    Cut parts parts' := by
  obtain ⟨rfl, hkind⟩ := h
  rcases hkind with ⟨hp, hbefore⟩ | ⟨hplain, hp, hafter, hbefore⟩
  · -- the oldest group goes
    have hone : before ++ after = withoutGroups 1 (before ++ p :: after) :=
      (withoutGroups_succ 0 hbefore hp).symm
    rcases hcut with ⟨k, rfl⟩ | ⟨j, rfl⟩
    · exact .inl ⟨k + 1, (withoutGroups_succ k hbefore hp).symm⟩
    · refine .inr ⟨j, ?_⟩
      rw [hone, plainParts_withoutGroups]
  · -- no group is left: the oldest turn goes
    have hrest := plain_of_delete hplain
    rw [Cut, plainParts_eq_self hplain]
    rcases hcut with ⟨k, rfl⟩ | ⟨j, rfl⟩
    · refine .inr ⟨1, ?_⟩
      rw [withoutGroups_of_plain k hrest, withoutTurns_succ 0 hbefore hp hafter, withoutTurns_zero]
    · refine .inr ⟨j + 1, ?_⟩
      rw [plainParts_eq_self hrest, withoutTurns_succ j hbefore hp hafter]

/-- One pass keeps what may never go. -/
theorem core (h : Oldest parts before p after) : core (before ++ after) = core parts := by
  obtain ⟨rfl, hkind⟩ := h
  unfold AgentRuntime.core
  rcases hkind with ⟨hp, hbefore⟩ | ⟨hplain, hp, hafter, hbefore⟩
  · have hone : before ++ after = withoutGroups 1 (before ++ p :: after) :=
      (withoutGroups_succ 0 hbefore hp).symm
    rw [hone, plainParts_withoutGroups]
  · have hrest := plain_of_delete hplain
    rw [plainParts_eq_self hplain, plainParts_eq_self hrest]
    unfold irreducible
    rw [getLast?_delete hafter, List.dropLast_append_of_ne_nil hafter,
      List.dropLast_append_of_ne_nil (List.cons_ne_nil _ _), List.dropLast_cons_of_ne_nil hafter,
      List.filter_append, List.filter_append, List.filter_cons_of_neg]
    rw [hp]
    exact Bool.false_ne_true

end Oldest

/-! ## The loop -/

/-- Without a victim, everything that is left may never go. -/
theorem oldestPlainTurn_none : ∀ {parts : List Part} {index : Nat},
    (∀ p ∈ parts, p.isGroup = false) → oldestPlainTurn index (view parts) = none →
      ∀ p ∈ parts.dropLast, p.isSystem = true
  | [], _, _, _, p, hp => by cases hp
  | .group m results hm :: parts, _, hplain, _, _, _ => by cases hplain _ List.mem_cons_self
  | [.plain m hm], _, _, _, p, hp => by cases hp
  | .plain m hm :: .group m' results hm' :: parts, _, hplain, _, _, _ => by
    cases hplain (.group m' results hm') (List.mem_cons_of_mem _ List.mem_cons_self)
  | .plain m hm :: .plain m' hm' :: parts, index, hplain, h, p, hp => by
    change oldestPlainTurn index (m :: m' :: view parts) = none at h
    rw [oldestPlainTurn] at h
    split at h
    · rename_i hsystem
      have hrest : ∀ p ∈ Part.plain m' hm' :: parts, p.isGroup = false := fun p hp =>
        hplain p (List.mem_cons_of_mem _ hp)
      rw [List.dropLast_cons_of_ne_nil (List.cons_ne_nil _ _)] at hp
      rcases List.mem_cons.mp hp with rfl | hp
      · exact hsystem
      · exact oldestPlainTurn_none hrest h p hp
    · cases h

theorem core_of_stuck (h : oldestSpan (view parts) = none) : core parts = parts := by
  unfold oldestSpan at h
  obtain ⟨hgroup, hturn⟩ := Option.or_eq_none_iff.mp h
  have hplain := oldestToolGroup_none hgroup
  have hsystem := oldestPlainTurn_none hplain hturn
  unfold core
  rw [plainParts_eq_self hplain]
  unfold irreducible
  rw [List.filter_eq_self.mpr hsystem]
  exact dropLast_append_getLast? parts

section Loop

variable {estimate : List Message → Except Exc Int} {budgetTokens : Int}

/-- A pass of the loop, and how it ends. -/
theorem trim_cases (estimate : List Message → Except Exc Int) (budgetTokens : Int) (compressed : Bool)
    (parts : List Part) :
    (∃ e, estimate (view parts) = .error e ∧
      trim estimate budgetTokens compressed (view parts) = .error e) ∨
    ∃ total, estimate (view parts) = .ok total ∧
      (total ≤ budgetTokens ∧
        trim estimate budgetTokens compressed (view parts) = .ok (view parts, compressed) ∨
      budgetTokens < total ∧ core parts = parts ∧
        trim estimate budgetTokens compressed (view parts) =
          .error (.contextBudget "required context exceeds the token budget") ∨
      budgetTokens < total ∧ ∃ before p after, Oldest parts before p after ∧
        (view (before ++ after)).length < (view parts).length ∧
        trim estimate budgetTokens compressed (view parts) =
          trim estimate budgetTokens true (view (before ++ after))) := by
  rw [trim]
  cases htotal : estimate (view parts) with
  | error e => exact .inl ⟨e, rfl, rfl⟩
  | ok total =>
    refine .inr ⟨total, rfl, ?_⟩
    dsimp only
    by_cases hover : budgetTokens < total
    · rw [if_pos hover]
      split
      · rename_i hnone
        exact .inr (.inl ⟨hover, core_of_stuck hnone, rfl⟩)
      · rename_i span hspan
        obtain ⟨before, p, after, hold, hdelete⟩ := oldestSpan_view hspan
        have hlen := deleteSpan_length hspan
        rw [hdelete] at hlen ⊢
        exact .inr (.inr ⟨hover, before, p, after, hold, hlen, rfl⟩)
    · rw [if_neg hover]
      exact .inl ⟨Int.not_lt.mp hover, rfl⟩

/-- What the loop returns is a selection, and shorter if anything was deleted. -/
theorem trim_cut (n : Nat) : ∀ {compressed : Bool} {parts : List Part} {result : List Message}
    {compressed' : Bool}, (view parts).length = n →
    trim estimate budgetTokens compressed (view parts) = .ok (result, compressed') →
      ∃ parts', result = view parts' ∧ Cut parts parts' ∧ core parts' = core parts ∧
        (∃ total, estimate result = .ok total ∧ total ≤ budgetTokens) ∧
        (result = view parts ∧ compressed' = compressed ∨
          result.length < (view parts).length ∧ compressed' = true) := by
  induction n using Nat.strong_induction_on with
  | _ n ih =>
    intro compressed parts result compressed' hn h
    rcases trim_cases estimate budgetTokens compressed parts with ⟨e, -, htrim⟩ |
      ⟨total, htotal, ⟨hfits, htrim⟩ | ⟨-, -, htrim⟩ | ⟨-, before, p, after, hold, hlen, htrim⟩⟩
    · rw [htrim] at h
      cases h
    · rw [htrim] at h
      cases h
      exact ⟨parts, rfl, .inl ⟨0, rfl⟩, rfl, ⟨total, htotal, hfits⟩, .inl ⟨rfl, rfl⟩⟩
    · rw [htrim] at h
      cases h
    · rw [htrim] at h
      obtain ⟨parts', hresult, hcut, hcore, hfits, hflag⟩ := ih _ (hn ▸ hlen) rfl h
      refine ⟨parts', hresult, hold.cut hcut, hcore.trans hold.core, hfits, .inr ?_⟩
      rcases hflag with ⟨hsame, hflag⟩ | ⟨hless, hflag⟩
      · rw [hsame]
        exact ⟨hlen, hflag⟩
      · exact ⟨hless.trans hlen, hflag⟩

/-- The loop gives up where a selection cannot be measured, or where what may never go is too much. -/
theorem trim_error (n : Nat) : ∀ {compressed : Bool} {parts : List Part} {e : Exc},
    (view parts).length = n → trim estimate budgetTokens compressed (view parts) = .error e →
      (∃ parts', Cut parts parts' ∧ estimate (view parts') = .error e) ∨
        e = .contextBudget "required context exceeds the token budget" ∧
          ∃ total, estimate (view (core parts)) = .ok total ∧ budgetTokens < total := by
  induction n using Nat.strong_induction_on with
  | _ n ih =>
    intro compressed parts e hn h
    rcases trim_cases estimate budgetTokens compressed parts with ⟨e', he, htrim⟩ |
      ⟨total, htotal, ⟨-, htrim⟩ | ⟨hover, hcore, htrim⟩ | ⟨-, before, p, after, hold, hlen, htrim⟩⟩
    · rw [htrim] at h
      cases h
      exact .inl ⟨parts, .inl ⟨0, rfl⟩, he⟩
    · rw [htrim] at h
      cases h
    · rw [htrim] at h
      cases h
      rw [hcore]
      exact .inr ⟨rfl, total, htotal, hover⟩
    · rw [htrim] at h
      rcases ih _ (hn ▸ hlen) rfl h with ⟨parts', hcut, he⟩ | ⟨he, total, htotal, hover⟩
      · exact .inl ⟨parts', hold.cut hcut, he⟩
      · rw [hold.core] at htotal
        exact .inr ⟨he, total, htotal, hover⟩

end Loop

/-! ## What is returned -/

theorem iterate_eraseP_sublist {α : Type} (q : α → Bool) (k : Nat) :
    ∀ xs : List α, ((List.eraseP q)^[k] xs).Sublist xs := by
  induction k with
  | zero => exact fun xs => List.Sublist.refl xs
  | succ k ih =>
    intro xs
    rw [Function.iterate_succ_apply]
    exact (ih _).trans List.eraseP_sublist

theorem withoutTurns_sublist (j : Nat) (parts : List Part) : (withoutTurns j parts).Sublist parts := by
  have herased := (iterate_eraseP_sublist (fun p => !p.isSystem) j parts.dropLast).append_right
    parts.getLast?.toList
  rw [dropLast_append_getLast?] at herased
  exact herased

theorem Cut.sublist {parts' : List Part} (h : Cut parts parts') : parts'.Sublist parts := by
  rcases h with ⟨k, rfl⟩ | ⟨j, rfl⟩
  · exact iterate_eraseP_sublist Part.isGroup k parts
  · exact (withoutTurns_sublist j (plainParts parts)).trans List.filter_sublist

theorem core_sublist (parts : List Part) : (core parts).Sublist parts := by
  have hirreducible : (irreducible (plainParts parts)).Sublist (plainParts parts) := by
    have hfiltered := (List.filter_sublist (p := fun p => p.isSystem)
      (l := (plainParts parts).dropLast)).append_right (plainParts parts).getLast?.toList
    rw [dropLast_append_getLast?] at hfiltered
    exact hfiltered
  exact hirreducible.trans List.filter_sublist

theorem view_sublist {parts parts' : List Part} (h : parts'.Sublist parts) :
    (view parts').Sublist (view parts) := h.flatMap Part.messages

section Compress

variable {messages : List Message} {budgetTokens reservedTokens : Int} {estimator : TokenEstimator}

/-- The core costs more than the budget. -/
def CoreExceeds (estimator : TokenEstimator) (budgetTokens reservedTokens : Int) (parts : List Part) :
    Prop :=
  ∃ total, estimateMessages (view (core parts)) estimator reservedTokens = .ok total ∧
    budgetTokens < total

/-- The trimmed view: it fits, it is a selection of the paired view, and the flag says whether anything
was deleted. -/
structure Selected (messages : List Message) (estimator : TokenEstimator)
    (budgetTokens reservedTokens : Int) (parts : List Part) (result : List Message)
    (compressed : Bool) : Prop where
  fits : ∃ total, estimateMessages result estimator reservedTokens = .ok total ∧ total ≤ budgetTokens
  fixpoint : pairToolMessages result = result
  systems : systems result = systems (pairToolMessages messages)
  cut : ∃ parts', result = view parts' ∧ Cut parts parts'
  flag : compressed = false ↔ result = pairToolMessages messages

theorem trimGroups_selected {parts : List Part} (hparts : view parts = pairToolMessages messages)
    {result : List Message} {compressed : Bool}
    (h : trimGroups messages budgetTokens estimator reservedTokens = .ok (result, compressed)) :
    Selected messages estimator budgetTokens reservedTokens parts result compressed := by
  unfold trimGroups at h
  have htrimmed := trim_trimmed _ _ _ _ (wellFormed_pairToolMessages messages) h
  rw [← hparts] at h
  obtain ⟨parts', hresult, hcut, -, hfits, hflag⟩ := trim_cut _ rfl h
  refine ⟨hfits, pairToolMessages_wellFormed htrimmed.wellFormed, htrimmed.systems,
    ⟨parts', hresult, hcut⟩, ?_⟩
  rw [← hparts]
  rcases hflag with ⟨hsame, hflag⟩ | ⟨hless, hflag⟩
  · rw [hflag]
    exact ⟨fun _ => hsame, fun _ => rfl⟩
  · rw [hflag]
    constructor
    · exact fun hfalse => Bool.noConfusion hfalse
    · intro hsame
      rw [hsame] at hless
      exact absurd hless (Nat.lt_irrefl _)

/-- Trimming fails only for the budget, and exactly when a text cannot be measured or the core costs
too much. -/
theorem trimGroups_error (hest : estimator.NonNegative) {parts : List Part}
    (hparts : view parts = pairToolMessages messages) :
    (∀ e, trimGroups messages budgetTokens estimator reservedTokens = .error e →
      ∃ complaint, e = .contextBudget complaint) ∧
    ((∃ e, trimGroups messages budgetTokens estimator reservedTokens = .error e) ↔
      ¬ estimator.Measures (pairToolMessages messages) ∨
        CoreExceeds estimator budgetTokens reservedTokens parts) := by
  unfold trimGroups
  rw [← hparts]
  -- how an estimate of a selection may fail
  have hestimate : ∀ {parts' : List Part} {e : Exc},
      estimateMessages (view parts') estimator reservedTokens = .error e →
        e = .contextBudget "unestimable message content" ∧ ¬ estimator.Measures (view parts') := by
    intro parts' e he
    rw [estimateMessages_eq hest] at he
    split at he
    · cases he
    · rename_i hnot
      cases he
      exact ⟨rfl, hnot⟩
  refine ⟨fun e he => ?_, fun ⟨e, he⟩ => ?_, fun hwhy => ?_⟩
  · rcases trim_error _ rfl he with ⟨parts', -, he⟩ | ⟨he, -⟩
    · exact ⟨_, (hestimate he).1⟩
    · exact ⟨_, he⟩
  · rcases trim_error _ rfl he with ⟨parts', hcut, he⟩ | ⟨-, total, htotal, hover⟩
    · -- a selection that cannot be measured
      refine .inl fun hall => (hestimate he).2 ?_
      exact (costs_sublist hest (view_sublist hcut.sublist) hall).1
    · exact .inr ⟨total, htotal, hover⟩
  · -- what would be returned can be measured, and costs at least as much as the core
    cases htrim : trim (estimateMessages · estimator reservedTokens) budgetTokens false (view parts) with
    | error e => exact ⟨e, rfl⟩
    | ok returned =>
      obtain ⟨result, compressed⟩ := returned
      exfalso
      by_cases hall : estimator.Measures (view parts)
      · obtain ⟨coreTotal, hcoreTotal, hover⟩ := hwhy.resolve_left (not_not.mpr hall)
        obtain ⟨parts', rfl, hcut, hcore, ⟨total, htotal, hfits⟩, -⟩ := trim_cut _ rfl htrim
        have hmeasured := (costs_sublist hest (view_sublist hcut.sublist) hall).1
        obtain ⟨hcoreMeasured, hless⟩ :=
          costs_sublist hest (view_sublist (core_sublist parts')) hmeasured
        rw [hcore] at hcoreMeasured hless
        rw [estimateMessages_eq hest, if_pos hmeasured] at htotal
        rw [estimateMessages_eq hest, if_pos hcoreMeasured] at hcoreTotal
        cases htotal
        cases hcoreTotal
        omega
      · rcases trim_cases (estimateMessages · estimator reservedTokens) budgetTokens false parts with
          ⟨e, -, he⟩ | ⟨total, htotal, -⟩
        · rw [he] at htrim
          cases htrim
        · rw [estimateMessages_eq hest, if_neg hall] at htotal
          cases htotal

/-- **Trimming.** The compressor returns a selection of the paired view that fits, or fails for the
budget; it fails exactly when some text cannot be measured, or when the paired view without its groups,
reduced to its system messages and its last message, still exceeds the budget. -/
theorem trimGroups_spec (messages : List Message) (budgetTokens reservedTokens : Int)
    (estimator : TokenEstimator) (hest : estimator.NonNegative) :
    ∃ parts, view parts = pairToolMessages messages ∧
      (∀ result compressed,
        trimGroups messages budgetTokens estimator reservedTokens = .ok (result, compressed) →
          Selected messages estimator budgetTokens reservedTokens parts result compressed) ∧
      (∀ e, trimGroups messages budgetTokens estimator reservedTokens = .error e →
        ∃ complaint, e = .contextBudget complaint) ∧
      ((∃ e, trimGroups messages budgetTokens estimator reservedTokens = .error e) ↔
        ¬ estimator.Measures (pairToolMessages messages) ∨
          CoreExceeds estimator budgetTokens reservedTokens parts) := by
  obtain ⟨parts, hparts⟩ := wellFormed_pairToolMessages messages
  obtain ⟨hwhy, hiff⟩ := trimGroups_error hest hparts
  exact ⟨parts, hparts, fun _ _ h => trimGroups_selected hparts h, hwhy, hiff⟩

/-- A question, a call and its result, which the model waits for. -/
def toolTurn : List Message :=
  [{ role := .user, content := some "find it" },
    { role := .assistant, toolCalls := [⟨"c1", "search", []⟩] },
    { role := .tool, content := some "found", toolCallId := some "c1" }]

theorem toolTurn_selected : ∃ parts result,
    trimGroups toolTurn 4 (charQuarterEstimator fun _ => "{}") 0 = .ok (result, true) ∧
      Selected toolTurn (charQuarterEstimator fun _ => "{}") 4 0 parts result true := by
  obtain ⟨parts, -, hselected, -⟩ := trimGroups_spec toolTurn 4 0 (charQuarterEstimator fun _ => "{}")
    (charQuarterEstimator_nonNegative _)
  have hreturned : (trimGroups toolTurn 4 (charQuarterEstimator fun _ => "{}") 0).toOption.map (·.2) =
      some true := by decide +kernel
  cases htrim : trimGroups toolTurn 4 (charQuarterEstimator fun _ => "{}") 0 with
  | error e =>
    rw [htrim] at hreturned
    cases hreturned
  | ok returned =>
    obtain ⟨result, compressed⟩ := returned
    rw [htrim] at hreturned
    obtain rfl : compressed = true := Option.some.inj hreturned
    exact ⟨parts, result, rfl, hselected result true htrim⟩

end Compress

end AgentRuntime
