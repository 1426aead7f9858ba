import AgentRuntime.Context.Summaries
import AgentRuntime.Context.Trimming

/-!
# Compression in stages

What is compressed was compressed before: a prompt that shrinks from step to step, or a view that a host hands back.

* `trim_staged` — deleting down to one budget, and from there to a smaller one, is deleting at once;
* `Compressor.OfPackage` — the two compressors of the package;
* `compression_staged` — trimming composes, and what any of the two returned stays as it is.
-/

set_option autoImplicit false

namespace AgentRuntime

open Async

/-- The same view, compressed if it was compressed before. -/
def flagged (compressed : Bool) (returned : Except Exc (List Message × Bool)) : Except Exc (List Message × Bool) :=
  returned.map fun r => (r.1, compressed || r.2)

theorem flagged_flagged (compressed compressed' : Bool) (returned : Except Exc (List Message × Bool)) :
    flagged compressed (flagged compressed' returned) = flagged (compressed || compressed') returned := by
  cases returned with
  | error e => rfl
  | ok r => simp only [flagged, Except.map, Bool.or_assoc]

section Loop

variable {estimate : List Message → Except Exc Int} {budgetTokens budgetTokens' : Int} {paired view : List Message}
  {compressed compressed' : Bool} {total : Int} {span : Nat × Nat}

/-! ## A pass of the loop -/

theorem trim_fits (htotal : estimate paired = .ok total) (hle : total ≤ budgetTokens) :
    trim estimate budgetTokens compressed paired = .ok (paired, compressed) := by
  rw [trim, htotal]
  dsimp only
  rw [if_neg (Int.not_lt.mpr hle)]

theorem trim_stuck (htotal : estimate paired = .ok total) (hover : budgetTokens < total)
    (hspan : oldestSpan paired = none) :
    trim estimate budgetTokens compressed paired =
      .error (.contextBudget "required context exceeds the token budget") := by
  rw [trim, htotal]
  dsimp only
  rw [if_pos hover]
  split
  · rfl
  · rename_i span' hspan'
    rw [hspan] at hspan'
    cases hspan'

theorem trim_delete (htotal : estimate paired = .ok total) (hover : budgetTokens < total)
    (hspan : oldestSpan paired = some span) :
    trim estimate budgetTokens compressed paired = trim estimate budgetTokens true (deleteSpan paired span) := by
  rw [trim, htotal]
  dsimp only
  rw [if_pos hover]
  split
  · rename_i hnone
    rw [hspan] at hnone
    cases hnone
  · rename_i span' hspan'
    obtain rfl : span = span' := Option.some.inj (hspan.symm.trans hspan')
    rfl

theorem trim_error_of (compressed : Bool) {e : Exc} (he : estimate paired = .error e) :
    trim estimate budgetTokens compressed paired = .error e := by
  rw [trim, he]

/-! ## The whole loop -/

/-- The flag is only handed on. -/
theorem trim_flagged (compressed : Bool) (paired : List Message) :
    trim estimate budgetTokens compressed paired = flagged compressed (trim estimate budgetTokens false paired) := by
  induction compressed, paired using trim.induct estimate budgetTokens with
  | case1 compressed paired e he => rw [trim_error_of _ he, trim_error_of _ he]; rfl
  | case2 compressed paired total htotal hover hnone =>
    rw [trim_stuck htotal hover hnone, trim_stuck htotal hover hnone]
    rfl
  | case3 compressed paired total htotal hover span hspan ih =>
    rw [trim_delete htotal hover hspan, trim_delete htotal hover hspan, ih, flagged_flagged, Bool.or_true]
  | case4 compressed paired total htotal hfits =>
    rw [trim_fits htotal (Int.not_lt.mp hfits), trim_fits htotal (Int.not_lt.mp hfits), flagged, Except.map,
      Bool.or_false]

/-- The loop for the smaller budget goes the way of the other one, and further. -/
theorem trim_staged (hle : budgetTokens ≤ budgetTokens') (compressed : Bool) (paired : List Message)
    (h : trim estimate budgetTokens' compressed paired = .ok (view, compressed')) :
    trim estimate budgetTokens compressed paired = flagged compressed' (trim estimate budgetTokens false view) := by
  induction compressed, paired using trim.induct estimate budgetTokens' with
  | case1 compressed paired e he =>
    rw [trim_error_of _ he] at h
    cases h
  | case2 compressed paired total htotal hover hnone =>
    rw [trim_stuck htotal hover hnone] at h
    cases h
  | case3 compressed paired total htotal hover span hspan ih =>
    rw [trim_delete htotal hover hspan] at h
    rw [trim_delete htotal (by omega) hspan]
    exact ih h
  | case4 compressed paired total htotal hfits =>
    rw [trim_fits htotal (Int.not_lt.mp hfits)] at h
    cases h
    exact trim_flagged _ _

end Loop

/-! ## Compressors -/

/-- The compressors of the package. -/
inductive Compressor.OfPackage : Compressor → Prop
  | trimming : OfPackage toolGroupCompressor
  | summarizing (keepRecentUnits : Int) (source : String) : OfPackage (summarizingCompressor keepRecentUnits source)

section Compress

variable {messages view : List Message} {estimator : TokenEstimator} {budgetTokens reservedTokens total : Int}
  {compressor : Compressor}

theorem trimGroups_usable {compressed : Bool}
    (h : trimGroups messages budgetTokens estimator reservedTokens = .ok (view, compressed)) :
    Usable messages budgetTokens reservedTokens estimator view := by
  have htrimmed := trimGroups_trimmed h
  have hsystems : systems view = systems (pairToolMessages messages) ++ [] := by
    rw [htrimmed.systems, systems_pairToolMessages, List.append_nil]
  exact usable_of_systems (pairToolMessages_wellFormed htrimmed.wellFormed) hsystems htrimmed.fits

/-- Whatever a compressor of the package returns is usable. -/
theorem Compressor.OfPackage.usable (h : compressor.OfPackage) {w w' : World} {turns : List Turn} {compressed : Bool}
    (hrun : (compressor.compress messages budgetTokens estimator reservedTokens).run w turns =
      .done (view, compressed) w') : Usable messages budgetTokens reservedTokens estimator view := by
  cases h with
  | trimming =>
    refine run_anything (fun r => Usable messages budgetTokens reservedTokens estimator r.1)
      (wp_anything_ofExcept w fun r hr => ?_) hrun
    obtain ⟨view', compressed'⟩ := r
    exact trimGroups_usable hr
  | summarizing keepRecentUnits source =>
    exact run_anything (fun r => Usable messages budgetTokens reservedTokens estimator r.1)
      (summarizingCompressor_usable keepRecentUnits source w) hrun

/-- A paired view that fits is left as it is. -/
theorem Compressor.OfPackage.leaves (h : compressor.OfPackage) (hpaired : pairToolMessages view = view)
    (htotal : estimateMessages view estimator reservedTokens = .ok total) (hle : total ≤ budgetTokens) :
    compressor.compress view budgetTokens estimator reservedTokens = pure (view, false) := by
  cases h with
  | trimming =>
    change Gen.ofExcept (trimGroups view budgetTokens estimator reservedTokens) = _
    rw [trimGroups, hpaired, trim_fits htotal hle]
    rfl
  | summarizing keepRecentUnits source =>
    have htotal' : estimateMessages (pairToolMessages view) estimator reservedTokens = .ok total := by
      rw [hpaired]
      exact htotal
    rw [summarizingCompressor_fits keepRecentUnits source htotal' hle, hpaired]

end Compress

/-- **Compression composes.** If the messages were trimmed to some budget, trimming what is left of them to a smaller
one is trimming them to it at once, errors and flag included, and leaves a part of what was left. And whatever one of
the compressors returned, by itself or with a summary, any of them returns as it is, and without a question, for the
same budget and for larger ones. -/
theorem compression_staged (messages : List Message) (estimator : TokenEstimator) (reservedTokens : Int)
    {budgetTokens budgetTokens' : Int} (hle : budgetTokens ≤ budgetTokens') :
    (∀ view compressed, trimGroups messages budgetTokens' estimator reservedTokens = .ok (view, compressed) →
      trimGroups messages budgetTokens estimator reservedTokens =
          flagged compressed (trimGroups view budgetTokens estimator reservedTokens) ∧
        ∀ view' compressed', trimGroups messages budgetTokens estimator reservedTokens = .ok (view', compressed') →
          view'.Sublist view) ∧
    ∀ compressor compressor' : Compressor, compressor.OfPackage → compressor'.OfPackage →
      ∀ w turns view compressed w', (compressor.compress messages budgetTokens estimator reservedTokens).run w turns =
          .done (view, compressed) w' →
        compressor'.compress view budgetTokens' estimator reservedTokens = pure (view, false) := by
  refine ⟨fun view compressed htrim => ?_, fun compressor compressor' h h' w turns view compressed w' hrun => ?_⟩
  · have hpaired := (trimGroups_usable htrim).fixpoint
    have hstaged : trimGroups messages budgetTokens estimator reservedTokens =
        flagged compressed (trimGroups view budgetTokens estimator reservedTokens) := by
      unfold trimGroups at htrim ⊢
      rw [hpaired]
      exact trim_staged hle false _ htrim
    refine ⟨hstaged, fun view' compressed' htrim' => ?_⟩
    rw [hstaged] at htrim'
    cases hview : trimGroups view budgetTokens estimator reservedTokens with
    | error e =>
      rw [hview] at htrim'
      cases htrim'
    | ok returned =>
      rw [hview] at htrim'
      cases htrim'
      obtain ⟨parts, hparts⟩ := wellFormed_pairToolMessages view
      obtain ⟨parts', hresult, hcut⟩ := (trimGroups_selected hparts hview).cut
      rw [hresult, ← hpaired, ← hparts]
      exact view_sublist hcut.sublist
  · obtain ⟨hpaired, -, total, htotal, hfits⟩ := h.usable hrun
    exact h'.leaves hpaired htotal (by omega)

/-- Three turns, of which the last two fit, and then only the last. -/
def threeTurns : List Message :=
  ["first question", "second question", "go on"].map fun text => { role := .user, content := some text }

theorem threeTurns_staged : ∃ view : List Message, view.length = 2 ∧
    trimGroups threeTurns 6 (charQuarterEstimator fun _ => "{}") 0 = .ok (view, true) ∧
    trimGroups threeTurns 2 (charQuarterEstimator fun _ => "{}") 0 =
      flagged true (trimGroups view 2 (charQuarterEstimator fun _ => "{}") 0) := by
  have hreturned : (trimGroups threeTurns 6 (charQuarterEstimator fun _ => "{}") 0).toOption.map
      (fun r => (r.1.length, r.2)) = some (2, true) := by decide +kernel
  cases htrim : trimGroups threeTurns 6 (charQuarterEstimator fun _ => "{}") 0 with
  | error e =>
    rw [htrim] at hreturned
    cases hreturned
  | ok returned =>
    obtain ⟨view, compressed⟩ := returned
    rw [htrim] at hreturned
    obtain ⟨hlength, rfl⟩ : view.length = 2 ∧ compressed = true := by
      simpa [Except.toOption] using hreturned
    have hstaged := (compression_staged threeTurns (charQuarterEstimator fun _ => "{}") 0
      (show (2 : Int) ≤ 6 by decide)).1 view true htrim
    exact ⟨view, hlength, rfl, hstaged.1⟩

end AgentRuntime
