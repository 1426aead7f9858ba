import AgentRuntime.Context.Pairing

/-!
# What is summarized

`SummarizingCompressor.compress` divides the paired view: the system messages stay, the oldest units are
summarized, the others are kept. A view that still overflows is trimmed.

* `Division` — the units that are summarized, and those that are kept;
* `summaryView`, `withSummary` — the view that is put together, and what becomes of it;
* `summarizingCompressor_eq` — the compressor, as one question to the summarizer at most;
* `summarizingCompressor_spec` — what it asks, and what it returns.
-/

set_option autoImplicit false

namespace AgentRuntime

open Async

theorem trimGroups_trimmed {prompt view : List Message} {budgetTokens reservedTokens : Int}
    {estimator : TokenEstimator} {compressed : Bool}
    (h : trimGroups prompt budgetTokens estimator reservedTokens = .ok (view, compressed)) :
    Trimmed (estimateMessages · estimator reservedTokens) budgetTokens prompt view := by
  obtain ⟨hwell, hsystems, hfits⟩ := trim_trimmed _ _ _ _ (wellFormed_pairToolMessages prompt) h
  exact ⟨hwell, hsystems.trans (systems_pairToolMessages prompt), hfits⟩

/-! ## Division -/

/-- The messages that are not of the system. -/
def nonSystem (ms : List Message) : List Message := ms.filter fun m => !m.isSystem

/-- Whole units, the oldest of which are dropped: together they are the messages that are not of the system. -/
structure Division (paired : List Message) (dropped kept : List (List Message)) : Prop where
  units : dropped ++ kept = groupMessages (nonSystem paired)
  whole : ∀ unit ∈ dropped ++ kept, ∃ p : Part, unit = p.messages
  partition : dropped.flatten ++ kept.flatten = nonSystem paired

theorem groupMessages_nonSystem {paired : List Message} (h : WellFormed paired) :
    ∃ parts : List Part, groupMessages (nonSystem paired) = parts.map Part.messages ∧
      view parts = nonSystem paired := by
  obtain ⟨parts, rfl⟩ := h
  refine ⟨parts.filter fun p => !p.isSystem, ?_, ?_⟩
  · unfold nonSystem
    rw [view_filter_not_system, groupMessages_view]
  · exact (view_filter_not_system parts).symm

theorem division {paired : List Message} (h : WellFormed paired) (cut : Nat) :
    Division paired ((groupMessages (nonSystem paired)).take cut)
      ((groupMessages (nonSystem paired)).drop cut) := by
  obtain ⟨parts, hunits, hview⟩ := groupMessages_nonSystem h
  constructor
  · exact List.take_append_drop cut _
  · intro unit hunit
    rw [List.take_append_drop, hunits] at hunit
    obtain ⟨p, -, hp⟩ := List.mem_map.mp hunit
    exact ⟨p, hp.symm⟩
  · rw [← List.flatten_append, List.take_append_drop, hunits, flatten_messages, hview]

/-! ## The summary -/

section Summary

variable (paired : List Message) (kept : List (List Message)) (source : String)
  (budgetTokens reservedTokens : Int) (estimator : TokenEstimator)

def summaryMessage (text : String) : Message :=
  { role := .system, content := some text, name := some source }

/-- The system messages, the summary, and the units that are kept. -/
def summaryView (text : String) : List Message :=
  systems paired ++ [summaryMessage source text] ++ kept.flatten

/-- What becomes of the view: it is trimmed if it still overflows. -/
def settleView (view : List Message) : Except Exc (List Message × Bool) :=
  match estimateMessages view estimator reservedTokens with
  | .error e => .error e
  | .ok total =>
    if total > budgetTokens then
      match trimGroups view budgetTokens estimator reservedTokens with
      | .error e => .error e
      | .ok (trimmed, _) => .ok (trimmed, true)
    else .ok (view, true)

def withSummary (text : String) : Except Exc (List Message × Bool) :=
  settleView budgetTokens reservedTokens estimator (summaryView paired kept source text)

/-- What is returned with a summary. -/
structure Summarized (text : String) (result : List Message) : Prop where
  fixpoint : pairToolMessages result = result
  systems : systems result = systems paired ++ [summaryMessage source text]
  fits : ∃ total, estimateMessages result estimator reservedTokens = .ok total ∧ total ≤ budgetTokens
  view : ∀ total,
    estimateMessages (summaryView paired kept source text) estimator reservedTokens = .ok total →
      total ≤ budgetTokens → result = summaryView paired kept source text
  trimmed : ∀ total,
    estimateMessages (summaryView paired kept source text) estimator reservedTokens = .ok total →
      budgetTokens < total → ∃ compressed,
        trimGroups (summaryView paired kept source text) budgetTokens estimator reservedTokens =
          .ok (result, compressed)

variable {paired kept source budgetTokens reservedTokens estimator}

theorem systems_nonSystem (ms : List Message) : systems (nonSystem ms) = [] := by
  unfold systems nonSystem
  rw [List.filter_filter, List.filter_eq_nil_iff]
  intro m _
  cases m.isSystem <;> exact Bool.false_ne_true

theorem Division.systems_view {dropped : List (List Message)} (h : Division paired dropped kept)
    (text : String) :
    systems (summaryView paired kept source text) =
      systems paired ++ [summaryMessage source text] := by
  have hkept : systems kept.flatten = [] := by
    have hnone := systems_nonSystem paired
    rw [← h.partition, systems_append] at hnone
    exact (List.append_eq_nil_iff.mp hnone).2
  have htwice : systems (systems paired) = systems paired := by
    unfold systems
    rw [List.filter_filter]
    simp only [Bool.and_self]
  unfold summaryView
  rw [systems_append, systems_append, hkept, htwice, List.append_nil]
  rfl

theorem Division.wellFormed_view {dropped : List (List Message)} (h : Division paired dropped kept)
    (text : String) : WellFormed (summaryView paired kept source text) := by
  have hkept : WellFormed kept.flatten := by
    have hwhole : ∀ unit ∈ kept, ∃ p : Part, unit = p.messages := fun unit hunit =>
      h.whole unit (List.mem_append_right _ hunit)
    clear h
    induction kept with
    | nil => exact ⟨[], rfl⟩
    | cons unit kept ih =>
      obtain ⟨p, rfl⟩ := hwhole unit List.mem_cons_self
      obtain ⟨parts, hparts⟩ := ih fun unit hunit => hwhole unit (List.mem_cons_of_mem _ hunit)
      exact ⟨p :: parts, by rw [view_cons, hparts, List.flatten_cons]⟩
  have hsummary : WellFormed [summaryMessage source text] := wellFormed_plain fun m hm => by
    rw [List.mem_singleton.mp hm]
    exact Message.isPlain_of_isSystem rfl
  exact ((wellFormed_systems paired).append hsummary).append hkept

theorem Division.summarized {dropped : List (List Message)} (h : Division paired dropped kept)
    {text : String} {result : List Message} {compressed : Bool}
    (hresult : withSummary paired kept source budgetTokens reservedTokens estimator text =
      .ok (result, compressed)) :
    compressed = true ∧ Summarized paired kept source budgetTokens reservedTokens estimator text result := by
  unfold withSummary settleView at hresult
  cases htotal : estimateMessages (summaryView paired kept source text) estimator reservedTokens with
  | error e =>
    rw [htotal] at hresult
    cases hresult
  | ok total =>
    rw [htotal] at hresult
    dsimp only at hresult
    by_cases hover : total > budgetTokens
    · rw [if_pos hover] at hresult
      cases htrim : trimGroups (summaryView paired kept source text) budgetTokens estimator
          reservedTokens with
      | error e =>
        rw [htrim] at hresult
        cases hresult
      | ok returned =>
        rw [htrim] at hresult
        cases hresult
        have htrimmed := trimGroups_trimmed htrim
        refine ⟨rfl, pairToolMessages_wellFormed htrimmed.wellFormed, ?_, htrimmed.fits, ?_, ?_⟩
        · rw [htrimmed.systems, h.systems_view]
        · intro total' htotal' hfits
          rw [htotal] at htotal'
          cases htotal'
          omega
        · exact fun _ _ _ => ⟨returned.2, htrim⟩
    · rw [if_neg hover] at hresult
      cases hresult
      refine ⟨rfl, pairToolMessages_wellFormed (h.wellFormed_view text), h.systems_view text,
        ⟨total, htotal, by omega⟩, fun _ _ _ => rfl, ?_⟩
      intro total' htotal' hover'
      rw [htotal] at htotal'
      cases htotal'
      omega

end Summary

/-! ## The compressor -/

section Compressor

variable {messages : List Message} {budgetTokens reservedTokens : Int} {estimator : TokenEstimator}

/-- The end of `compress`, once the view has been put together. -/
theorem ofExcept_settle (view : List Message) (budgetTokens reservedTokens : Int)
    (estimator : TokenEstimator) :
    (Gen.ofExcept (estimateMessages view estimator reservedTokens) >>= fun total =>
      if total > budgetTokens then
        Gen.ofExcept (trimGroups view budgetTokens estimator reservedTokens) >>= fun returned =>
          pure (returned.1, true)
      else pure (view, true) : Gen Empty (List Message × Bool)) =
      Gen.ofExcept (settleView budgetTokens reservedTokens estimator view) := by
  unfold settleView
  cases estimateMessages view estimator reservedTokens with
  | error e => rfl
  | ok total =>
    change (if total > budgetTokens then _ else _) = _
    dsimp only
    split
    · cases trimGroups view budgetTokens estimator reservedTokens with
      | error e => rfl
      | ok returned => rfl
    · rfl

/-- A returned view: well formed, with every system message, and within the budget. -/
structure Usable (messages : List Message) (budgetTokens reservedTokens : Int)
    (estimator : TokenEstimator) (result : List Message) : Prop where
  fixpoint : pairToolMessages result = result
  systems : ∀ m ∈ messages, m.isSystem = true → m ∈ result
  fits : ∃ total, estimateMessages result estimator reservedTokens = .ok total ∧ total ≤ budgetTokens

theorem usable_of_systems {result more : List Message} (hfixpoint : pairToolMessages result = result)
    (hsystems : systems result = systems (pairToolMessages messages) ++ more)
    (hfits : ∃ total, estimateMessages result estimator reservedTokens = .ok total ∧
      total ≤ budgetTokens) :
    Usable messages budgetTokens reservedTokens estimator result := by
  refine ⟨hfixpoint, fun m hm hsystem => ?_, hfits⟩
  have hmem : m ∈ systems result := by
    rw [hsystems, systems_pairToolMessages]
    exact List.mem_append_left _ (List.mem_filter.mpr ⟨hm, hsystem⟩)
  exact (List.mem_filter.mp hmem).1

/-- Nothing is known of what goes on beside the compressor. -/
def anything : RunContract Unit Empty where
  rely _ _ _ _ := True
  await _ _ := True
  hang _ _ := True
  yield _ _ _ := True
  resume _ _ _ _ _ _ := True

theorem wp_anything_ofExcept {α : Type} {result : Except Exc α} {Good : α → Prop} (w : World)
    (h : ∀ a, result = .ok a → Good a) :
    ((Gen.ofExcept result : Gen Empty α) w).wp anything (fun _ a _ => Good a) (fun _ _ _ => True) () := by
  cases result with
  | error e => trivial
  | ok a => exact h a rfl

theorem run_anything {α : Type} (Good : α → Prop) {p : Gen Empty α} {w w' : World} {turns : List Turn}
    {a : α} (h : (p w).wp anything (fun _ a _ => Good a) (fun _ _ _ => True) ())
    (hrun : p.run w turns = .done a w') : Good a := by
  have hmeets := Node.wp_play (D := fun _ _ => True) id (fun _ => trivial) (turns.map Turn.toMove) h
    (fun _ _ _ => trivial)
  unfold Gen.run at hrun
  rw [hrun] at hmeets
  exact hmeets

section Cases

variable {total : Int} (keepRecentUnits : Int) (source : String)

theorem summarizingCompressor_error {e : Exc}
    (he : estimateMessages (pairToolMessages messages) estimator reservedTokens = .error e) :
    (summarizingCompressor keepRecentUnits source).compress messages budgetTokens estimator
      reservedTokens = Proc.throw e := by
  unfold summarizingCompressor
  dsimp only
  rw [he]
  rfl

/-- A view that fits is returned as it is. -/
theorem summarizingCompressor_fits
    (htotal : estimateMessages (pairToolMessages messages) estimator reservedTokens = .ok total)
    (hle : total ≤ budgetTokens) :
    (summarizingCompressor keepRecentUnits source).compress messages budgetTokens estimator
      reservedTokens = pure (pairToolMessages messages, false) := by
  unfold summarizingCompressor
  dsimp only
  rw [htotal]
  change (if total ≤ budgetTokens then _ else _) = _
  rw [if_pos hle]

/-- The compressor awaits nothing but one summary, and only where something is old enough. -/
theorem summarizingCompressor_eq
    (htotal : estimateMessages (pairToolMessages messages) estimator reservedTokens = .ok total)
    (hover : budgetTokens < total) :
    ∃ dropped kept, Division (pairToolMessages messages) dropped kept ∧
      kept.length = min (dropped ++ kept).length (max 1 keepRecentUnits).toNat ∧
      (summarizingCompressor keepRecentUnits source).compress messages budgetTokens estimator
          reservedTokens =
        if dropped.flatten.isEmpty then
          Gen.ofExcept (trimGroups (pairToolMessages messages) budgetTokens estimator reservedTokens)
        else
          hostAsk (Query.summarize dropped.flatten (max 1 (budgetTokens / 4))) >>= fun text =>
            Gen.ofExcept (withSummary (pairToolMessages messages) kept source budgetTokens
              reservedTokens estimator text) := by
  have hdivision := division (wellFormed_pairToolMessages messages)
    ((groupMessages (nonSystem (pairToolMessages messages))).length - (max 1 keepRecentUnits).toNat)
  refine ⟨_, _, hdivision, ?_, ?_⟩
  · rw [List.take_append_drop, List.length_drop]
    omega
  unfold summarizingCompressor nonSystem
  dsimp only
  rw [htotal]
  change (if total ≤ budgetTokens then _ else _) = _
  rw [if_neg (by omega)]
  congr 1
  refine congrArg _ (funext fun text => ?_)
  exact ofExcept_settle _ budgetTokens reservedTokens estimator

/-- Whatever the summarizer answers, a view that is returned is usable. -/
theorem summarizingCompressor_usable (w : World) :
    ((summarizingCompressor keepRecentUnits source).compress messages budgetTokens estimator
      reservedTokens w).wp anything
        (fun _ r _ => Usable messages budgetTokens reservedTokens estimator r.1) (fun _ _ _ => True) () := by
  cases htotal : estimateMessages (pairToolMessages messages) estimator reservedTokens with
  | error e =>
    rw [summarizingCompressor_error keepRecentUnits source htotal]
    trivial
  | ok total =>
    by_cases hle : total ≤ budgetTokens
    · rw [summarizingCompressor_fits keepRecentUnits source htotal hle]
      exact usable_of_systems (pairToolMessages_wellFormed (wellFormed_pairToolMessages messages))
        (List.append_nil _).symm ⟨total, htotal, hle⟩
    · obtain ⟨dropped, kept, hdivision, -, heq⟩ :=
        summarizingCompressor_eq keepRecentUnits source htotal (Int.not_le.mp hle)
      rw [heq]
      split
      · apply wp_anything_ofExcept
        intro returned htrim
        have htrimmed := trimGroups_trimmed htrim
        have hsystems := htrimmed.systems.trans (List.append_nil _).symm
        exact usable_of_systems (pairToolMessages_wellFormed htrimmed.wellFormed) hsystems htrimmed.fits
      · refine (Proc.wp_bind' _ _ w ()).mpr ((Proc.wp_tryCatch _ _ w ()).mpr
          ((Proc.wp_ask w ()).mpr ⟨trivial, fun w' => ⟨fun text _ => ?_, fun e _ => trivial⟩⟩))
        apply wp_anything_ofExcept
        intro returned hresult
        have hsummarized := (hdivision.summarized hresult).2
        exact usable_of_systems hsummarized.fixpoint hsummarized.systems hsummarized.fits

end Cases

/-- **Summaries.** A view that fits is returned without a question. Otherwise the oldest units are passed
to the summarizer as they are, the other ones are kept, and together they are all that is not of the
system; what is put together is returned if it fits, or else trimmed. Every returned view is usable. -/
theorem summarizingCompressor_spec (messages : List Message)
    (budgetTokens reservedTokens keepRecentUnits : Int) (source : String) (estimator : TokenEstimator) :
    let paired := pairToolMessages messages
    let compress := (summarizingCompressor keepRecentUnits source).compress messages budgetTokens
      estimator reservedTokens
    (∀ e, estimateMessages paired estimator reservedTokens = .error e → compress = Proc.throw e) ∧
    (∀ total, estimateMessages paired estimator reservedTokens = .ok total → total ≤ budgetTokens →
      compress = pure (paired, false)) ∧
    (∀ total, estimateMessages paired estimator reservedTokens = .ok total → budgetTokens < total →
      ∃ dropped kept, Division paired dropped kept ∧
        kept.length = min (dropped ++ kept).length (max 1 keepRecentUnits).toNat ∧
        compress = (if dropped.flatten.isEmpty then
            Gen.ofExcept (trimGroups paired budgetTokens estimator reservedTokens)
          else
            hostAsk (Query.summarize dropped.flatten (max 1 (budgetTokens / 4))) >>= fun text =>
              Gen.ofExcept (withSummary paired kept source budgetTokens reservedTokens estimator text)) ∧
        ∀ text result compressed,
          withSummary paired kept source budgetTokens reservedTokens estimator text =
            .ok (result, compressed) →
          compressed = true ∧
            Summarized paired kept source budgetTokens reservedTokens estimator text result) ∧
    ∀ w turns result compressed w', compress.run w turns = .done (result, compressed) w' →
      Usable messages budgetTokens reservedTokens estimator result := by
  intro paired compress
  refine ⟨fun e => summarizingCompressor_error keepRecentUnits source,
    fun total => summarizingCompressor_fits keepRecentUnits source, ?_, ?_⟩
  · intro total htotal hover
    obtain ⟨dropped, kept, hdivision, hlength, heq⟩ :=
      summarizingCompressor_eq keepRecentUnits source htotal hover
    refine ⟨dropped, kept, hdivision, hlength, heq, ?_⟩
    exact fun text result compressed h => hdivision.summarized h
  · intro w turns result compressed w' hrun
    exact run_anything (fun r => Usable messages budgetTokens reservedTokens estimator r.1)
      (summarizingCompressor_usable keepRecentUnits source w) hrun

end Compressor

end AgentRuntime
