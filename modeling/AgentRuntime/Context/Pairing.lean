import AgentRuntime.Context.Views

/-!
# What pairing selects

`pair_tool_messages` is a selection of the history: a subsequence that is well formed, with every
message that is neither a call nor a result, and with every group that was there already.

* `pairToolMessages_sublist` — nothing is added, and nothing changes places;
* `pairToolMessages_group` — a group in the middle of any history is kept;
* `pairToolMessages_selects` — the whole of it.
-/

set_option autoImplicit false

namespace AgentRuntime

variable {m : Message} {results : List Message}

/-- What the inner loop collects, and what it leaves, are a subsequence once results are skipped. -/
theorem collected_dropWhile_sublist (needed : Finset String) (ms : List Message) :
    ((collectResults needed ∅ ms).2.2.dropWhile Message.isTool).Sublist ms := by
  have hleft : ((collectResults needed ∅ ms).2.2).Sublist ms := by
    have hright := List.sublist_append_right (collectResults needed ∅ ms).1
      (collectResults needed ∅ ms).2.2
    rw [collectResults_append needed ms ∅] at hright
    exact hright
  exact (List.dropWhile_sublist _).trans hleft

/-- Pairing selects a subsequence of the history. -/
theorem pairToolMessages_sublist (ms : List Message) : (pairToolMessages ms).Sublist ms := by
  induction ms using pairToolMessages.induct with
  | case1 =>
    rw [pairToolMessages]
  | case2 m ms hcalls hcard ih =>
    rw [pairToolMessages, if_pos hcalls, if_pos hcard]
    exact (ih.trans (List.dropWhile_sublist _)).cons m
  | case3 m ms hcalls hcard found hfound ih =>
    rw [pairToolMessages, if_pos hcalls, if_neg hcard]
    dsimp only
    rw [if_pos hfound, List.cons_append]
    apply List.Sublist.cons_cons
    have hsplit : found.1 ++ found.2.2 = ms := collectResults_append m.callIds.toFinset ms ∅
    have hrest : (found.1 ++ pairToolMessages found.2.2).Sublist (found.1 ++ found.2.2) :=
      ih.append_left found.1
    rw [hsplit] at hrest
    exact hrest
  | case4 m ms hcalls hcard found hfound ih =>
    rw [pairToolMessages, if_pos hcalls, if_neg hcard]
    dsimp only
    rw [if_neg hfound]
    exact (ih.trans (collected_dropWhile_sublist m.callIds.toFinset ms)).cons m
  | case5 m ms hcalls htool ih =>
    rw [pairToolMessages, if_neg hcalls, if_pos htool]
    exact ih.cons m
  | case6 m ms hcalls htool ih =>
    rw [pairToolMessages, if_neg hcalls, if_neg htool]
    exact ih.cons_cons m

/-- A complete group is kept where it is, whatever comes before it and behind it. -/
theorem pairToolMessages_group (hgroup : Completes m results) (before after : List Message) :
    pairToolMessages (before ++ m :: (results ++ after)) =
      pairToolMessages before ++ m :: (results ++ pairToolMessages after) := by
  -- The call message is no result, so what comes before it is paired for itself.
  rw [pairToolMessages_append (Message.isTool_of_callsTools hgroup.calls)]
  have hkept := pairToolMessages_part (.group m results hgroup) after
  exact congrArg (pairToolMessages before ++ ·) hkept

theorem pairToolMessages_wellFormed {ms : List Message} (h : WellFormed ms) :
    pairToolMessages ms = ms := by
  obtain ⟨parts, rfl⟩ := h
  exact pairToolMessages_view parts

theorem filter_plain_pairToolMessages (ms : List Message) :
    (pairToolMessages ms).filter Message.isPlain = ms.filter Message.isPlain := by
  apply filter_pairToolMessages
  · intro m hm
    unfold Message.isPlain
    rw [hm]
    rfl
  · intro m hm
    unfold Message.isPlain
    rw [hm, Bool.not_true, Bool.and_false]

/-- **Pairing selects.** The view is well formed and a subsequence of the history; every message that
is neither a call nor a result is in it, and every complete group; a well-formed history is its own
view. -/
theorem pairToolMessages_selects (ms : List Message) :
    WellFormed (pairToolMessages ms) ∧ (pairToolMessages ms).Sublist ms ∧
      (pairToolMessages ms).filter Message.isPlain = ms.filter Message.isPlain ∧
      (∀ before m results after, Completes m results → ms = before ++ m :: (results ++ after) →
        pairToolMessages ms = pairToolMessages before ++ m :: (results ++ pairToolMessages after)) ∧
      (WellFormed ms → pairToolMessages ms = ms) ∧
      pairToolMessages (pairToolMessages ms) = pairToolMessages ms := by
  have hwell := wellFormed_pairToolMessages ms
  refine ⟨hwell, pairToolMessages_sublist ms, filter_plain_pairToolMessages ms, ?_,
    pairToolMessages_wellFormed, pairToolMessages_wellFormed hwell⟩
  intro before m results after hgroup hms
  subst hms
  exact pairToolMessages_group hgroup before after

end AgentRuntime
