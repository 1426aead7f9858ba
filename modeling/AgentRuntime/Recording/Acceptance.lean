import AgentRuntime.Recording.Isolation
import AgentRuntime.Recording.Reuse

/-!
# Calls that are accepted

Which calls the recorder accepts while no failure is injected, and what an accepted call leaves on file.

* `Acceptable` — a first submission that passes its checks, or one that finds its own operation on file;
* `Stands` — what a call has left on file once it returned; `Stands.exec` — nothing takes it away;
* `Acceptable.stands` — an acceptable call returns, and stands.
-/

set_option autoImplicit false

namespace AgentRuntime

namespace MemoryTranscript

variable {t : MemoryTranscript} {c : Call} {reply : Reply}

/-- What a call that returned has left on file. -/
structure Stands (t : MemoryTranscript) (c : Call) (reply : Reply) : Prop where
  filed : ∃ op, t.ops c.opId = some op ∧ Matches c op ∧
    ∀ r, reply = .message r → op.messageReceipt.map (·.replayed) = some r.replayed
  message : ∀ r, reply = .message r →
    r.logicalOpId = c.opId ∧ (t.messages r.messageId).isSome = true
  batch : ∀ b, reply = .batch b → t.committedBatch b = some b ∧
    ∃ a id, c = .recordToolCalls a ∧ b = batchOf a id

theorem isSome_grow {id : String} {t' : MemoryTranscript} (hg : t.Grows t')
    (h : (t.messages id).isSome = true) : (t'.messages id).isSome = true := by
  obtain ⟨m, hm⟩ := Option.isSome_iff_exists.mp h
  obtain ⟨m', hm', -⟩ := hg.role id m hm
  exact Option.isSome_iff_exists.mpr ⟨m', hm'⟩

theorem exec_committedBatch {b b' : BatchReceipt} (h : t.committedBatch b = some b') (c : Call) :
    (c.exec t).2.committedBatch b = some b' := by
  obtain ⟨op, ho, hb⟩ := Option.bind_eq_some_iff.mp h
  exact Option.bind_eq_some_iff.mpr ⟨op, exec_ops ho c, hb⟩

theorem Stands.exec (h : t.Stands c reply) (hc : t.Consistent) (c' : Call) :
    (c'.exec t).2.Stands c reply where
  filed := by
    obtain ⟨op, ho, hop⟩ := h.filed
    exact ⟨op, exec_ops ho c', hop⟩
  message r hr := ⟨(h.message r hr).1, isSome_grow (hc.exec c').2.1 (h.message r hr).2⟩
  batch b hb := ⟨exec_committedBatch (h.batch b hb).1 c', (h.batch b hb).2⟩

/-! ## Accepted calls -/

/-- A first submission that passes the checks of the recorder, or a repetition of what is on file. -/
inductive Acceptable (t : MemoryTranscript) (c : Call) : Prop where
  | first (ho : t.ops c.opId = none) (hchecked : t.Checked c)
      (hresults : ∀ a, c = .recordToolResults a → ∃ b, t.Answers a b ∧ b.recordingRequired = true ∧
        ∀ result ∈ a.results, (knownCall b.calls result.callId).isSome = true)
  | again {op : CommittedOp} (ho : t.ops c.opId = some op) (hm : Matches c op)
      (hkind : c.kind ≠ .toolCalls) (hecho : ∃ reply, echo op c = .ok reply)

/-- A message that is handed out again is that of the operation on file. -/
theorem echo_message {op : CommittedOp} {r : MessageReceipt} (h : echo op c = .ok (.message r)) :
    op.messageReceipt.map (·.replayed) = some r ∧ r.replayed = r := by
  cases c with
  | recordInput _ | recordTextDelta _ | recordTextFinal _ =>
    simp only [echo] at h
    split at h
    · rename_i hop
      cases h
      rw [hop]
      exact ⟨rfl, rfl⟩
    · cases h
  | recordToolCalls _ =>
    simp only [echo] at h
    split at h <;> cases h
  | recordToolResults _ | finalizeRun _ _ => cases h

theorem echo_batch {op : CommittedOp} {b : BatchReceipt} (h : echo op c = .ok (.batch b)) :
    c.kind = .toolCalls := by
  cases c with
  | recordInput _ | recordTextDelta _ | recordTextFinal _ =>
    simp only [echo] at h
    split at h <;> cases h
  | recordToolCalls _ => rfl
  | recordToolResults _ | finalizeRun _ _ => cases h

section Returned

variable (hc : t.Consistent) (hl : t.Labelled)
include hc hl

/-- The receipt of a message that a call hands out names the call, and a stored message. -/
theorem exec_message {r : MessageReceipt} (h : (c.exec t).1 = .ok (.message r)) :
    r.logicalOpId = c.opId ∧ ((c.exec t).2.messages r.messageId).isSome = true := by
  have hmem : Receipt.message r ∈ (Reply.message r).receipts := List.mem_singleton_self _
  exact ⟨(exec_labelled hl hc h _ hmem).1, ((hc.exec c).2.2 _ h _ hmem).2⟩

/-- A first submission that returns stands, unless its batch is outside the transcript. -/
theorem Commits.stands {receipts : List MessageReceipt} {batch : Option BatchReceipt}
    {t₁ : MemoryTranscript} (h : t.Commits c receipts batch reply t₁) (hu : t.unrecordedTools = [])
    (hreply : c.exec t = (.ok reply, t₁.storeOp (c.operation receipts batch))) :
    (c.exec t).2.Stands c reply := by
  have hfile : (c.exec t).2.ops c.opId = some (c.operation receipts batch) := by
    rw [hreply]
    exact Function.update_self ..
  have hself : Matches c (c.operation receipts batch) := by
    refine ⟨rfl, Payload.sameKey_refl _, rfl, rfl, rfl, fun r hr => ?_⟩
    change c.previous?.map _ = _
    rw [hr]
    rfl
  have hexec : (c.exec t).1 = .ok reply := congrArg Prod.fst hreply
  refine ⟨⟨_, hfile, hself, fun r hr => ?_⟩, fun r hr => ?_, fun b hb => ?_⟩
  · cases h with
    | input _ | text _ _ _ =>
      cases hr
      rfl
    | toolCalls _ _ _ | unrecordedCalls _ | toolResults _ _ _ | runFinal _ _ => cases hr
  · rw [hr] at hexec
    exact exec_message hc hl hexec
  · cases h with
    | input _ | text _ _ _ | toolResults _ _ _ | runFinal _ _ => cases hb
    | unrecordedCalls hrec =>
      unfold unrecorded at hrec
      rw [if_pos (List.isEmpty_iff.mpr hu)] at hrec
      cases hrec
    | @toolCalls a _ id _ _ _ _ _ =>
      cases hb
      exact ⟨Option.bind_eq_some_iff.mpr ⟨_, hfile, rfl⟩, a, id, rfl, rfl⟩

/-- **An acceptable call returns**, and stands, if nothing makes it fail. -/
theorem Acceptable.stands (h : t.Acceptable c) (hf : c.opId ∉ t.failOps) (hu : t.unrecordedTools = []) :
    ∃ reply, (c.exec t).1 = .ok reply ∧ (c.exec t).2.Stands c reply := by
  cases h with
  | again ho hm hkind hecho =>
    obtain ⟨reply, hecho⟩ := hecho
    have hexec : c.exec t = (.ok reply, t) := by
      rw [exec_answer hf ho, answer_of_matches hm, hecho]
    have hok : (c.exec t).1 = .ok reply := congrArg Prod.fst hexec
    refine ⟨reply, hok, ⟨_, exec_ops ho c, hm, fun r hr => ?_⟩, fun r hr => ?_, fun b hb => ?_⟩
    · obtain ⟨hop, hreplayed⟩ := echo_message (hr ▸ hecho)
      rw [hop, hreplayed]
    · rw [hr] at hok
      exact exec_message hc hl hok
    · exact absurd (echo_batch (hb ▸ hecho)) hkind
  | first ho hchecked hresults =>
    have hreturns : ∃ reply, (c.exec t).1 = .ok reply := by
      by_cases hkind : c.kind = .toolResults
      · cases c with
        | recordToolResults a =>
          obtain ⟨b, hb, -, hknown⟩ := hresults a rfl
          have haccepts : t.Accepts a := ⟨b, hb, fun _ => hknown⟩
          rcases hc.results a hf ho with ⟨hok, -⟩ | ⟨-, hrefused⟩
          · exact hok
          · exact absurd haccepts hrefused
        | _ => cases hkind
      · refine hc.commits hf ho hchecked hkind fun a _ => ⟨false, ?_⟩
        unfold unrecorded
        rw [if_pos (List.isEmpty_iff.mpr hu)]
    obtain ⟨reply, hok⟩ := hreturns
    refine ⟨reply, hok, ?_⟩
    have hout := t.exec_outcome c
    rw [hok] at hout
    generalize hnext : (c.exec t).2 = t' at hout
    rw [← hnext]
    cases hout with
    | replayed ho' _ =>
      rw [ho] at ho'
      cases ho'
    | @skipped a b he _ hb hreq =>
      obtain ⟨b', hb', hreq', -⟩ := hresults a he
      obtain rfl : b = b' := Option.some.inj (hb.committed.symm.trans hb'.committed)
      rw [hreq] at hreq'
      cases hreq'
    | committed _ _ _ hcommit => exact hcommit.stands hc hl hu (Prod.ext hok hnext)

end Returned

end MemoryTranscript

end AgentRuntime
