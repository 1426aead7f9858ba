import AgentRuntime.Recording.Submission

/-!
# What a call leaves to a run

* `Commits.runStatus` — only `finalize_run` sets the status of a run;
* `FinalizedAs` — every committed finalization of a run left a status in `K`; calls on behalf of others leave
  that alone;
* `finalizeRun_spec` — `finalize_run` commits its status, or replays an earlier finalization, or
  raises and commits nothing.
-/

set_option autoImplicit false

namespace AgentRuntime

/-- What `run_status` may be, after a finalization with the status. -/
abbrev Prior : Type := RunStatus → Option RunStatus → Prop

namespace MemoryTranscript

/-! ## Finalization -/

/-- Every committed finalization of the run, that a replay would accept, left a status in `K`. -/
def FinalizedAs (K : Prior) (runId : String) (t : MemoryTranscript) : Prop :=
  ∀ status op, t.ops (finalizeOp runId status) = some op → finalizeAnswer runId status op = .ok () →
    K status (t.runStatus runId)

variable {K : Prior} {runId : String} {t t' : MemoryTranscript}

theorem FinalizedAs.same (h : t.FinalizedAs K runId) (ho : t'.ops = t.ops)
    (hs : t'.runStatus runId = t.runStatus runId) : t'.FinalizedAs K runId := by
  intro status op hop ha
  rw [hs]
  exact h status op (by rw [← ho]; exact hop) ha

/-- A replay of `finalize_run` answers for a finalization of the very run. -/
theorem finalizeAnswer_ok {status : RunStatus} {op : CommittedOp}
    (h : finalizeAnswer runId status op = .ok ()) : op.kind = .runFinal ∧ op.runId = runId := by
  unfold finalizeAnswer replay at h
  split at h
  · cases h
  · rename_i heq
    split at heq
    · cases heq
    · rename_i hkind
      split at heq
      · cases heq
      · rename_i hrun
        exact ⟨by simpa using fun hk => hkind (.inl hk), by simpa using fun hr => hrun (.inl hr)⟩

/-- A first submission leaves the statuses alone, but for a finalization. -/
theorem Commits.runStatus {c : Call} {receipts : List MessageReceipt} {batch : Option BatchReceipt}
    {r : Reply} (h : t.Commits c receipts batch r t') (hc : ∀ status, c ≠ .finalizeRun runId status) :
    t'.runStatus runId = t.runStatus runId := by
  cases h with
  | input a | unrecordedCalls _ => rfl
  | text _ _ hup | toolCalls _ _ hup => cases hup <;> rfl
  | toolResults _ _ _ => rw [(appendAll_frame _ _ _).2.2.2]
  | runFinal other status =>
    exact Function.update_of_ne (fun heq => hc status (by rw [heq])) _ _

/-- `finalize_run` leaves its status, or that of an earlier finalization; or it raises, and nothing
is finalized. -/
theorem finalizeRun_spec (h : t.FinalizedAs K runId) (status : RunStatus) :
    match t.finalizeRun runId status with
    | (.ok _, t') => t'.runStatus runId = some status ∨ K status (t'.runStatus runId)
    | (.error _, t') => t'.FinalizedAs K runId := by
  unfold finalizeRun once
  by_cases hfail : finalizeOp runId status ∈ t.failOps
  · rw [if_pos hfail]
    exact h.same rfl rfl
  · rw [if_neg hfail]
    cases ho : t.ops (finalizeOp runId status) with
    | none => exact .inl (Function.update_self ..)
    | some existing =>
      cases ha : finalizeAnswer runId status existing with
      | ok _ =>
        dsimp only
        rw [ha]
        exact .inr (h status existing ho ha)
      | error _ =>
        dsimp only
        rw [ha]
        exact h

/-- Calls on behalf of others leave the finalization of the run alone. -/
theorem FinalizedAs.exec (h : t.FinalizedAs K runId) (c : Call)
    (hc : ∀ status, c ≠ .finalizeRun runId status) :
    (c.exec t).2.FinalizedAs K runId ∧ (c.exec t).2.runStatus runId = t.runStatus runId := by
  have hout := t.exec_outcome c
  generalize (c.exec t).1 = result at hout
  generalize (c.exec t).2 = t' at hout ⊢
  cases hout with
  | failed hrej => exact ⟨h.same hrej.ops (by rw [hrej.runStatus]), by rw [hrej.runStatus]⟩
  | replayed _ _ | skipped _ _ _ _ => exact ⟨h, rfl⟩
  | @committed receipts batch r t₁ _ _ _ hcommit =>
    have hstatus : (t₁.storeOp (c.operation receipts batch)).runStatus runId = t.runStatus runId :=
      hcommit.runStatus hc
    refine ⟨fun status op hop ha => ?_, hstatus⟩
    rw [hstatus]
    rcases storeOp_ops hop with ⟨-, rfl⟩ | hold
    · -- an operation of the run and of this kind is a finalization of the run
      obtain ⟨hkind, hrun⟩ := finalizeAnswer_ok ha
      cases c with
      | finalizeRun other status' => exact absurd (congrArg (Call.finalizeRun · status') hrun) (hc _)
      | _ => cases hkind
    · exact h status op (hcommit.ops ▸ hold) ha

/-- No finalization of the run is committed. -/
def Unfinalized (runId : String) (t : MemoryTranscript) : Prop :=
  ∀ status op, t.ops (finalizeOp runId status) = some op → ¬ (op.kind = .runFinal ∧ op.runId = runId)

theorem Unfinalized.finalizedAs (h : t.Unfinalized runId) :
    t.FinalizedAs (fun _ _ => False) runId :=
  fun status op ho ha => h status op ho (finalizeAnswer_ok ha)

/-- A status that ends a run. -/
def Final (status : Option RunStatus) : Prop := ∃ s, status = some s ∧ s ≠ .running

/-- Nobody finalizes the run as RUNNING. -/
abbrev Recorded (runId : String) (t : MemoryTranscript) : Prop :=
  Reachable (fun _ c => c ≠ .finalizeRun runId .running) t

/-- Every finalization on record has left a status that ends the run. -/
theorem Recorded.finalizedAs (h : t.Recorded runId) : t.FinalizedAs (fun _ => Final) runId := by
  induction h with
  | empty _ => exact fun status op ho _ => by cases ho
  | failure opId _ ih => exact ih.same rfl rfl
  | @call t c _ hc ih =>
    by_cases hfinal : ∃ status, c = .finalizeRun runId status
    · obtain ⟨status, rfl⟩ := hfinal
      have hspec := finalizeRun_spec ih status
      change (t.finalizeRun runId status).2.FinalizedAs (fun _ => Final) runId
      rcases hr : t.finalizeRun runId status with ⟨r, t'⟩
      rw [hr] at hspec
      cases r with
      | error _ => exact hspec
      | ok _ =>
        have hleft : Final (t'.runStatus runId) :=
          hspec.elim (fun hs => ⟨status, hs, fun he => hc (by rw [he])⟩) id
        exact fun _ _ _ _ => hleft
    · exact (ih.exec c fun status he => hfinal ⟨status, he⟩).1

end MemoryTranscript

end AgentRuntime
