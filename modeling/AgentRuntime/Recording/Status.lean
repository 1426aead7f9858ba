import AgentRuntime.Recording.Frame

/-!
# The recorded status

What `run_status` says after the finalizations of a run, by any number of runs that share its id.

* `newest` — the value that came last among those that came for the first time;
* `Finalized` — a history, with the finalizations of a run that returned;
* `finalizeRun_status_iff` — `run_status` is the newest finalization, and a finalization leaves its own
  status exactly if it is new, or the newest one anyway.
-/

set_option autoImplicit false

namespace AgentRuntime

/-- Of a list, latest first, the entry that came last among the first occurrences. -/
def newest {α : Type} [DecidableEq α] : List α → Option α
  | [] => none
  | s :: earlier => if s ∈ earlier then newest earlier else some s

namespace MemoryTranscript

variable {runId : String} {t : MemoryTranscript} {earlier : List RunStatus}

/-- A history of a transcript: calls and injected failures, and the statuses that `finalize_run` of
the run has returned for, latest first. -/
inductive Finalized (runId : String) : MemoryTranscript → List RunStatus → Prop where
  | empty (unrecordedTools : List String) : Finalized runId (.empty unrecordedTools) []
  | failure {t : MemoryTranscript} {earlier : List RunStatus} (opId : String) :
    Finalized runId t earlier → Finalized runId (t.injectWriteFailure opId) earlier
  | call {t : MemoryTranscript} {earlier : List RunStatus} (c : Call) :
    Finalized runId t earlier → (∀ status, c ≠ .finalizeRun runId status) →
      Finalized runId (c.exec t).2 earlier
  | raised {t : MemoryTranscript} {earlier : List RunStatus} {status : RunStatus} {e : Exc} :
    Finalized runId t earlier → ((Call.finalizeRun runId status).exec t).1 = .error e →
      Finalized runId ((Call.finalizeRun runId status).exec t).2 earlier
  | returned {t : MemoryTranscript} {earlier : List RunStatus} {status : RunStatus} {r : Reply} :
    Finalized runId t earlier → ((Call.finalizeRun runId status).exec t).1 = .ok r →
      Finalized runId ((Call.finalizeRun runId status).exec t).2 (status :: earlier)

/-- The finalization of the run with the status is on file. -/
def Settled (t : MemoryTranscript) (runId : String) (status : RunStatus) : Prop :=
  ∃ op, t.ops (finalizeOp runId status) = some op ∧ Matches (.finalizeRun runId status) op

/-- The operations on file settle the same, and the status is the same. -/
structure Alike (runId : String) (t t' : MemoryTranscript) : Prop where
  status : t'.runStatus runId = t.runStatus runId
  settled : ∀ status, t'.Settled runId status ↔ t.Settled runId status

theorem Rejected.alike {t' : MemoryTranscript} (h : t.Rejected t') : Alike runId t t' :=
  ⟨by rw [h.runStatus], fun _ => by simp only [Settled, h.ops]⟩

/-- The other calls, and the finalizations of other runs. -/
theorem exec_alike (t : MemoryTranscript) (c : Call) (hc : ∀ status, c ≠ .finalizeRun runId status) :
    Alike runId t (c.exec t).2 := by
  have hout := t.exec_outcome c
  generalize (c.exec t).1 = result at hout
  generalize (c.exec t).2 = t' at hout ⊢
  cases hout with
  | failed hrej => exact hrej.alike
  | replayed _ _ | skipped _ _ _ _ => exact ⟨rfl, fun _ => Iff.rfl⟩
  | @committed receipts batch r t₁ _ ho _ hcommit =>
    refine ⟨hcommit.runStatus hc, fun status => ⟨?_, ?_⟩⟩
    · rintro ⟨op, hop, hm⟩
      rcases storeOp_ops hop with ⟨-, rfl⟩ | hold
      · -- an operation of the run and of this kind is a finalization of the run
        cases c with
        | finalizeRun other status' => exact absurd (congrArg (Call.finalizeRun · status') hm.runId) (hc _)
        | _ => cases hm.kind
      · exact ⟨op, hcommit.ops ▸ hold, hm⟩
    · rintro ⟨op, hop, hm⟩
      refine ⟨op, ?_, hm⟩
      have hne : finalizeOp runId status ≠ c.opId := fun heq => by
        rw [heq, ho] at hop
        cases hop
      change Function.update _ _ _ _ = _
      rw [show (c.operation _ _).logicalOpId = c.opId from rfl, Function.update_of_ne hne, hcommit.ops,
        hop]

/-- The status and the operations on file are those of the finalizations. -/
structure Tallies (t : MemoryTranscript) (runId : String) (earlier : List RunStatus) : Prop where
  status : t.runStatus runId = newest earlier
  settled : ∀ status, t.Settled runId status ↔ status ∈ earlier

theorem Tallies.alike {t' : MemoryTranscript} (h : t.Tallies runId earlier) (ha : Alike runId t t') :
    t'.Tallies runId earlier :=
  ⟨ha.status.trans h.status, fun status => (ha.settled status).trans (h.settled status)⟩

/-- A finalization that returns was settled already, or is settled now with its status. -/
theorem Tallies.returned (h : t.Tallies runId earlier) {status : RunStatus} {r : Reply}
    (hr : ((Call.finalizeRun runId status).exec t).1 = .ok r) :
    ((Call.finalizeRun runId status).exec t).2.Tallies runId (status :: earlier) := by
  have hout := t.exec_outcome (.finalizeRun runId status)
  rw [hr] at hout
  generalize ((Call.finalizeRun runId status).exec t).2 = t' at hout ⊢
  cases hout with
  | replayed ho ha =>
    have hmem : status ∈ earlier := (h.settled status).mp ⟨_, ho, (answer_ok ha).1⟩
    refine ⟨?_, fun s => ?_⟩
    · rw [newest, if_pos hmem]
      exact h.status
    · rw [h.settled, List.mem_cons]
      exact ⟨.inr, fun hs => hs.elim (fun heq => heq ▸ hmem) id⟩
  | skipped hc _ _ _ => cases hc
  | committed _ ho _ hcommit =>
    have hnew : status ∉ earlier := fun hmem => by
      obtain ⟨op, hop, -⟩ := (h.settled status).mpr hmem
      rw [show finalizeOp runId status = (Call.finalizeRun runId status).opId from rfl, ho] at hop
      cases hop
    cases hcommit with
    | text hk _ _ => rcases hk with hk | hk <;> cases hk
    | runFinal =>
      refine ⟨?_, fun s => ?_⟩
      · rw [newest, if_neg hnew]
        exact Function.update_self ..
      · rw [List.mem_cons]
        constructor
        · rintro ⟨op, hop, hm⟩
          rcases storeOp_ops hop with ⟨-, rfl⟩ | hold
          · have hvalue := hm.payload
            simp only [Call.operation, Call.payload, Payload.sameKey, beq_iff_eq] at hvalue
            exact .inl (RunStatus.value_inj hvalue).symm
          · exact .inr ((h.settled s).mp ⟨op, hold, hm⟩)
        · rintro (rfl | hmem)
          · exact ⟨_, Function.update_self .., rfl, Payload.sameKey_refl _, rfl, rfl, rfl,
              fun _ hp => by cases hp⟩
          · obtain ⟨op, hop, hm⟩ := (h.settled s).mpr hmem
            refine ⟨op, ?_, hm⟩
            have hne : finalizeOp runId s ≠ (Call.finalizeRun runId status).opId := fun heq => by
              rw [heq, ho] at hop
              cases hop
            exact (Function.update_of_ne hne _ _).trans hop

theorem Finalized.tallies (h : t.Finalized runId earlier) : t.Tallies runId earlier := by
  induction h with
  | empty tools => exact ⟨rfl, fun _ => iff_of_false (fun ⟨_, ho, _⟩ => by cases ho) (fun hm => by cases hm)⟩
  | failure opId _ ih => exact ⟨ih.status, ih.settled⟩
  | call c _ hc ih => exact ih.alike (exec_alike _ c hc)
  | @raised t earlier status e _ he ih =>
    have hout := t.exec_outcome (.finalizeRun runId status)
    rw [he] at hout
    generalize ((Call.finalizeRun runId status).exec t).2 = t' at hout ⊢
    cases hout with
    | failed hrej => exact ih.alike hrej.alike
  | returned _ hr ih => exact ih.returned hr

/-- **The recorded status.** After every history `run_status` is the newest finalization of the run;
so a finalization that returns leaves its status exactly if the run was not finalized with it before,
or with no other status since. -/
theorem finalizeRun_status_iff (t : MemoryTranscript) (runId : String) (earlier : List RunStatus)
    (h : t.Finalized runId earlier) (status : RunStatus) (r : Reply)
    (hr : ((Call.finalizeRun runId status).exec t).1 = .ok r) :
    ((Call.finalizeRun runId status).exec t).2.runStatus runId = some status ↔
      (status ∈ earlier → newest earlier = some status) := by
  rw [(h.tallies.returned hr).status, newest]
  by_cases hmem : status ∈ earlier
  · simp [hmem]
  · simp [hmem]

/-- A run that has failed, after it had succeeded. -/
def failedAgain : MemoryTranscript :=
  ((Call.finalizeRun "r" .failed).exec ((Call.finalizeRun "r" .succeeded).exec empty).2).2

/-- It succeeds once more, and stays failed. -/
theorem failedAgain_status :
    failedAgain.Finalized "r" [.failed, .succeeded] ∧
      ((Call.finalizeRun "r" .succeeded).exec failedAgain).1 = .ok .finalized ∧
      ((Call.finalizeRun "r" .succeeded).exec failedAgain).2.runStatus "r" = some .failed :=
  ⟨.returned (r := .finalized) (.returned (r := .finalized) (.empty []) rfl) rfl, rfl, rfl⟩

theorem failedAgain_failed :
    ((Call.finalizeRun "r" .failed).exec failedAgain).2.runStatus "r" = some .failed :=
  (finalizeRun_status_iff failedAgain "r" [.failed, .succeeded]
    (.returned (r := .finalized) (.returned (r := .finalized) (.empty []) rfl) rfl) .failed .finalized
    rfl).mpr fun _ => rfl

end MemoryTranscript

end AgentRuntime
