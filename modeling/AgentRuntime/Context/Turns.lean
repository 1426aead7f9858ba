import AgentRuntime.Context.Trimming

/-!
# The current turn

Trimming never deletes the last message when it takes turns away, but the last message may be the
result of a tool, and then it goes with its group.

* `view_getLast?_isTool`, `view_getLast?_delete` — the last message of a view, and of what is left of it;
* `LastStays` — the current turn is no result of a tool, or a group may stay;
* `trimGroups_keeps_last` — it survives in exactly these cases.
-/

set_option autoImplicit false

namespace AgentRuntime

variable {parts before after : List Part} {p : Part}

/-! ## The last message -/

/-- The last message of a part. -/
theorem Part.messages_getLast? (p : Part) :
    ∃ m, p.messages.getLast? = some m ∧ m.isTool = p.isGroup := by
  cases p with
  | plain m hm =>
    unfold Message.isPlain at hm
    simp only [Bool.and_eq_true, Bool.not_eq_true'] at hm
    exact ⟨m, rfl, hm.2⟩
  | group m results hm =>
    change ∃ r, (m :: results).getLast? = some r ∧ r.isTool = true
    rw [List.getLast?_cons_of_ne_nil hm.results_ne_nil]
    refine ⟨results.getLast hm.results_ne_nil, List.getLast?_eq_some_getLast _, ?_⟩
    exact hm.tools _ (List.getLast_mem _)

theorem Part.messages_ne_nil (p : Part) : p.messages ≠ [] := by
  cases p with
  | plain m hm => exact List.cons_ne_nil _ _
  | group m results hm => exact List.cons_ne_nil _ _

theorem view_concat_getLast? (parts : List Part) (p : Part) :
    (view (parts ++ [p])).getLast? = p.messages.getLast? := by
  rw [view_append, view_cons, view_nil, List.append_nil,
    List.getLast?_append_of_ne_nil _ p.messages_ne_nil]

/-- The last message of a view tells what its last part is. -/
theorem view_getLast?_isTool {parts : List Part} {m : Message} (h : (view parts).getLast? = some m) :
    ∃ init p, parts = init ++ [p] ∧ m.isTool = p.isGroup := by
  rcases List.eq_nil_or_concat parts with rfl | ⟨init, p, rfl⟩
  · cases h
  · rw [List.concat_eq_append] at h ⊢
    obtain ⟨m', hlast, htool⟩ := p.messages_getLast?
    rw [view_concat_getLast?, hlast] at h
    cases h
    exact ⟨init, p, rfl, htool⟩

/-- Deleting a part that is not the last keeps the last message. -/
theorem view_getLast?_delete (hafter : after ≠ []) :
    (view (before ++ p :: after)).getLast? = (view (before ++ after)).getLast? := by
  have hne : view after ≠ [] := by
    obtain ⟨q, rest, rfl⟩ := List.exists_cons_of_ne_nil hafter
    rw [view_cons]
    exact List.append_ne_nil_of_left_ne_nil q.messages_ne_nil _
  rw [view_append, view_append, view_cons,
    List.getLast?_append_of_ne_nil _ (List.append_ne_nil_of_right_ne_nil _ hne),
    List.getLast?_append_of_ne_nil _ hne, List.getLast?_append_of_ne_nil _ hne]

theorem Oldest.after_ne_nil (h : Oldest parts before p after)
    (hlast : ∀ m ∈ (view parts).getLast?, m.isTool = false) : after ≠ [] := by
  rintro rfl
  obtain ⟨rfl, hkind⟩ := h
  rcases hkind with ⟨hp, -⟩ | ⟨-, -, hafter, -⟩
  · obtain ⟨m, hm, htool⟩ := p.messages_getLast?
    have hfalse := hlast m (by rw [view_concat_getLast?]; exact hm)
    rw [htool, hp] at hfalse
    cases hfalse
  · exact hafter rfl

/-- With a group left, one of them goes. -/
theorem Oldest.group (h : Oldest parts before p after) (hgroup : 0 < parts.countP Part.isGroup) :
    p.isGroup = true ∧ ∀ q ∈ before, q.isGroup = false := by
  rcases h.kind with hp | ⟨hplain, -⟩
  · exact hp
  · exfalso
    have hnone : parts.countP Part.isGroup = 0 := List.countP_eq_zero.mpr fun q hq => by
      rw [hplain q hq]
      exact Bool.false_ne_true
    omega

theorem countP_withoutGroups (k : Nat) : ∀ parts : List Part,
    (withoutGroups k parts).countP Part.isGroup = parts.countP Part.isGroup - k := by
  induction k with
  | zero => exact fun _ => rfl
  | succ k ih =>
    intro parts
    have hone : (parts.eraseP Part.isGroup).countP Part.isGroup =
        parts.countP Part.isGroup - 1 := by
      by_cases hany : ∃ p ∈ parts, p.isGroup = true
      · obtain ⟨p, hp, hgroup⟩ := hany
        obtain ⟨a, before, after, hbefore, ha, hsplit, herase⟩ := List.exists_of_eraseP hp hgroup
        rw [herase, hsplit, List.countP_append, List.countP_append, List.countP_cons_of_pos ha]
        omega
      · have hnone : ∀ p ∈ parts, ¬ p.isGroup = true := fun p hp hgroup => hany ⟨p, hp, hgroup⟩
        rw [List.eraseP_of_forall_not hnone, List.countP_eq_zero.mpr hnone]
    calc (withoutGroups (k + 1) parts).countP Part.isGroup
        = (withoutGroups k (parts.eraseP Part.isGroup)).countP Part.isGroup := by
          unfold withoutGroups
          rw [Function.iterate_succ_apply]
      _ = parts.countP Part.isGroup - 1 - k := by rw [ih, hone]
      _ = parts.countP Part.isGroup - (k + 1) := by omega

/-! ## The loop -/

section LastTurn

variable {estimate : List Message → Except Exc Int} {budgetTokens : Int}

/-- The view fits once some of its groups, but not all of them, are deleted. -/
def FitsWithGroup (estimate : List Message → Except Exc Int) (budgetTokens : Int) (parts : List Part) :
    Prop :=
  ∃ k < parts.countP Part.isGroup, ∃ total,
    estimate (view (withoutGroups k parts)) = .ok total ∧ total ≤ budgetTokens

/-- The current turn is not the result of a tool, or a group may stay. -/
def LastStays (estimate : List Message → Except Exc Int) (budgetTokens : Int) (parts : List Part) :
    Prop :=
  (∀ m ∈ (view parts).getLast?, m.isTool = false) ∨ FitsWithGroup estimate budgetTokens parts

/-- One pass of the loop, where the current turn stays. -/
theorem LastStays.step (h : LastStays estimate budgetTokens parts) {total : Int}
    (htotal : estimate (view parts) = .ok total) (hover : budgetTokens < total)
    (hold : Oldest parts before p after) :
    after ≠ [] ∧ LastStays estimate budgetTokens (before ++ after) := by
  rcases h with hlast | ⟨k, hk, total', htotal', hfits⟩
  · have hafter := hold.after_ne_nil hlast
    refine ⟨hafter, .inl ?_⟩
    rw [hold.split, view_getLast?_delete hafter] at hlast
    exact hlast
  · obtain ⟨hp, hbefore⟩ := hold.group (by omega)
    obtain ⟨rfl, -⟩ := hold
    cases k with
    | zero =>
      -- nothing had to go
      exfalso
      have hsame : total' = total := by
        have heq := htotal'.symm.trans htotal
        cases heq
        rfl
      omega
    | succ k =>
      have hnone : before.countP Part.isGroup = 0 := List.countP_eq_zero.mpr fun q hq => by
        rw [hbefore q hq]
        exact Bool.false_ne_true
      rw [List.countP_append, List.countP_cons_of_pos hp, hnone] at hk
      rw [withoutGroups_succ k hbefore hp] at htotal'
      refine ⟨?_, .inr ⟨k, ?_, total', htotal', hfits⟩⟩
      · rintro rfl
        rw [List.countP_nil] at hk
        omega
      · rw [List.countP_append, hnone]
        omega

theorem trim_keeps_last (n : Nat) : ∀ {compressed : Bool} {parts : List Part} {result : List Message}
    {compressed' : Bool}, (view parts).length = n → LastStays estimate budgetTokens parts →
    trim estimate budgetTokens compressed (view parts) = .ok (result, compressed') →
      result.getLast? = (view parts).getLast? := by
  induction n using Nat.strong_induction_on with
  | _ n ih =>
    intro compressed parts result compressed' hn hstays h
    rcases trim_cases estimate budgetTokens compressed parts with ⟨e, -, htrim⟩ |
      ⟨total, htotal, ⟨-, htrim⟩ | ⟨-, -, htrim⟩ | ⟨hover, before, p, after, hold, hlen, htrim⟩⟩
    · rw [htrim] at h
      cases h
    · rw [htrim] at h
      cases h
      rfl
    · rw [htrim] at h
      cases h
    · rw [htrim] at h
      obtain ⟨hafter, hstays'⟩ := hstays.step htotal hover hold
      rw [ih _ (hn ▸ hlen) rfl hstays' h, hold.split, view_getLast?_delete hafter]

/-- **The current turn.** The final message of a returned view is the final message of the paired view
exactly when that is no result of a tool, or the view fits while a group is left. -/
theorem trimGroups_keeps_last (messages : List Message) (budgetTokens reservedTokens : Int)
    (estimator : TokenEstimator) :
    ∃ parts, view parts = pairToolMessages messages ∧ ∀ result compressed,
      trimGroups messages budgetTokens estimator reservedTokens = .ok (result, compressed) →
        (result.getLast? = (pairToolMessages messages).getLast? ↔
          LastStays (estimateMessages · estimator reservedTokens) budgetTokens parts) := by
  obtain ⟨parts, hparts⟩ := wellFormed_pairToolMessages messages
  refine ⟨parts, hparts, fun result compressed h => ?_⟩
  unfold trimGroups at h
  rw [← hparts] at h ⊢
  constructor
  · intro hlast
    obtain ⟨parts', rfl, hcut, -, ⟨total, htotal, hfits⟩, -⟩ := trim_cut _ rfl h
    by_cases htool : ∀ m ∈ (view parts).getLast?, m.isTool = false
    · exact .inl htool
    · -- the last part of what is returned is a group, so only groups have gone
      simp only [not_forall, Bool.not_eq_false] at htool
      obtain ⟨m, hm, htool⟩ := htool
      obtain ⟨init, p, hsplit, hp⟩ := view_getLast?_isTool (hlast.trans hm)
      rw [htool] at hp
      have hmem : p ∈ parts' := by
        rw [hsplit]
        exact List.mem_append_right _ List.mem_cons_self
      have hcount : 0 < parts'.countP Part.isGroup := List.countP_pos_iff.mpr ⟨p, hmem, hp.symm⟩
      rcases hcut with ⟨k, rfl⟩ | ⟨j, rfl⟩
      · rw [countP_withoutGroups] at hcount
        exact .inr ⟨k, by omega, total, htotal, hfits⟩
      · have hplain := (withoutTurns_sublist j (plainParts parts)).subset hmem
        have hnot := (List.mem_filter.mp hplain).2
        rw [← hp] at hnot
        cases hnot
  · exact fun hstays => trim_keeps_last _ rfl hstays h

end LastTurn

/-- The result that the model waits for is deleted with its group. -/
theorem toolTurn_dropped : ¬ ∀ result compressed,
    trimGroups toolTurn 4 (charQuarterEstimator fun _ => "{}") 0 = .ok (result, compressed) →
      result.getLast? = (pairToolMessages toolTurn).getLast? := by
  intro hkept
  have hreturned : (trimGroups toolTurn 4 (charQuarterEstimator fun _ => "{}") 0).toOption.map
      (fun r => r.1.getLast?.map (·.role)) = some (some .user) := by decide +kernel
  have hpaired : (pairToolMessages toolTurn).getLast?.map (·.role) = some .tool := by decide +kernel
  cases htrim : trimGroups toolTurn 4 (charQuarterEstimator fun _ => "{}") 0 with
  | error e =>
    rw [htrim] at hreturned
    cases hreturned
  | ok returned =>
    rw [htrim] at hreturned
    have hlast : returned.1.getLast?.map (·.role) = some .user := Option.some.inj hreturned
    rw [hkept returned.1 returned.2 htrim, hpaired] at hlast
    cases hlast

end AgentRuntime
