import AgentRuntime.Jsonutil.Equality
import AgentRuntime.Recording.Invariants

/-!
# Reusing a logical operation id

Two calls of one method under one logical operation id, the second in any state after the first.

* `Agrees` — the two calls have run, step, target, attempt and payload in common;
* `Refuses` — the call raises a conflict, and at most uses up ids;
* `Slips` — how a second call that does not agree gets away with it;
* `reuse_refused_iff` — a second call agrees or is refused, unless it slips.
-/

set_option autoImplicit false

namespace AgentRuntime

/-! ## Equal payloads -/

def ToolCall.keyed (c : ToolCall) : Prop := (Value.dict c.arguments).keyed = true

/-- The arguments of every tool call in the payload have distinct keys, as those of a dict. -/
def Payload.keyed : Payload → Prop
  | input m => ∀ c ∈ m.toolCalls, c.keyed
  | textFinal _ _ calls _ => ∀ c ∈ calls, c.keyed
  | toolCalls calls _ _ => ∀ c ∈ calls, c.keyed
  | _ => True

theorem ToolCall.sameKey_symm {a b : ToolCall} (ha : a.keyed) (hb : b.keyed)
    (h : a.sameKey b = true) : b.sameKey a = true := by
  simp only [sameKey, Bool.and_eq_true, beq_iff_eq] at h ⊢
  exact ⟨⟨h.1.1.symm, h.1.2.symm⟩, Value.pyEq_symm ha hb h.2⟩

theorem ToolCall.sameKey_trans {a b c : ToolCall} (h : a.sameKey b = true)
    (h' : b.sameKey c = true) : a.sameKey c = true := by
  simp only [sameKey, Bool.and_eq_true, beq_iff_eq] at h h' ⊢
  exact ⟨⟨h.1.1.trans h'.1.1, h.1.2.trans h'.1.2⟩, Value.pyEq_trans h.2 h'.2⟩

theorem sameCallKeys_symm : ∀ {as bs : List ToolCall}, (∀ c ∈ as, c.keyed) → (∀ c ∈ bs, c.keyed) →
    sameCallKeys as bs = true → sameCallKeys bs as = true
  | [], [], _, _, _ => rfl
  | a :: as, b :: bs, ha, hb, h => by
    simp only [sameCallKeys, Bool.and_eq_true, List.forall_mem_cons] at h ha hb ⊢
    exact ⟨ToolCall.sameKey_symm ha.1 hb.1 h.1, sameCallKeys_symm ha.2 hb.2 h.2⟩

theorem sameCallKeys_trans : ∀ {as bs cs : List ToolCall}, sameCallKeys as bs = true →
    sameCallKeys bs cs = true → sameCallKeys as cs = true
  | [], [], _, _, h' => h'
  | a :: as, b :: bs, [], _, h' => by cases h'
  | a :: as, b :: bs, c :: cs, h, h' => by
    simp only [sameCallKeys, Bool.and_eq_true] at h h' ⊢
    exact ⟨ToolCall.sameKey_trans h.1 h'.1, sameCallKeys_trans h.2 h'.2⟩

namespace Payload

theorem sameKey_symm {p q : Payload} (hp : p.keyed) (hq : q.keyed) (h : p.sameKey q = true) :
    q.sameKey p = true := by
  cases p <;> cases q <;>
    simp only [sameKey, Message.sameKey, Bool.and_eq_true, beq_iff_eq, Bool.false_eq_true] at h ⊢
  case input.input m m' =>
    obtain ⟨⟨⟨⟨⟨h₁, h₂⟩, h₃⟩, h₄⟩, h₅⟩, h₆⟩ := h
    exact ⟨⟨⟨⟨⟨h₁.symm, h₂.symm⟩, sameCallKeys_symm hp hq h₃⟩, h₄.symm⟩, h₅.symm⟩, h₆.symm⟩
  case textDelta.textDelta => exact ⟨h.1.symm, h.2.symm⟩
  case textFinal.textFinal =>
    exact ⟨⟨⟨h.1.1.1.symm, h.1.1.2.symm⟩, sameCallKeys_symm hp hq h.1.2⟩, h.2.symm⟩
  case toolCalls.toolCalls => exact ⟨⟨sameCallKeys_symm hp hq h.1.1, h.1.2.symm⟩, h.2.symm⟩
  case toolResults.toolResults => exact h.symm
  case runFinal.runFinal => exact h.symm

theorem sameKey_trans {p q r : Payload} (h : p.sameKey q = true) (h' : q.sameKey r = true) :
    p.sameKey r = true := by
  cases p <;> cases q <;> first | cases h | skip
  all_goals
    cases r <;>
      simp only [sameKey, Message.sameKey, Bool.and_eq_true, beq_iff_eq, Bool.false_eq_true] at h h' ⊢
  case input.input.input =>
    obtain ⟨⟨⟨⟨⟨h₁, h₂⟩, h₃⟩, h₄⟩, h₅⟩, h₆⟩ := h
    obtain ⟨⟨⟨⟨⟨k₁, k₂⟩, k₃⟩, k₄⟩, k₅⟩, k₆⟩ := h'
    exact ⟨⟨⟨⟨⟨h₁.trans k₁, h₂.trans k₂⟩, sameCallKeys_trans h₃ k₃⟩, h₄.trans k₄⟩, h₅.trans k₅⟩,
      h₆.trans k₆⟩
  case textDelta.textDelta.textDelta => exact ⟨h.1.trans h'.1, h.2.trans h'.2⟩
  case textFinal.textFinal.textFinal =>
    exact ⟨⟨⟨h.1.1.1.trans h'.1.1.1, h.1.1.2.trans h'.1.1.2⟩, sameCallKeys_trans h.1.2 h'.1.2⟩,
      h.2.trans h'.2⟩
  case toolCalls.toolCalls.toolCalls =>
    exact ⟨⟨sameCallKeys_trans h.1.1 h'.1.1, h.1.2.trans h'.1.2⟩, h.2.trans h'.2⟩
  case toolResults.toolResults.toolResults => exact h.trans h'
  case runFinal.runFinal.runFinal => exact h.trans h'

end Payload

/-! ## Agreement -/

/-- The attempt, where the method takes one. -/
def Call.attempt? : Call → Option Int
  | recordTextDelta a => some a.attempt
  | recordTextFinal a => some a.attempt
  | recordToolCalls a => some a.attempt
  | _ => none

/-- Two calls have run, step, target, attempt and payload in common. Payloads are compared as
`_payload_key` does: by Python's equality, and for an input without the message id, which the
recorder assigns. -/
structure Agrees (c₁ c₂ : Call) : Prop where
  runId : c₁.runId = c₂.runId
  stepNo : c₁.stepNo? = c₂.stepNo?
  recordTarget : c₁.target? = c₂.target?
  attempt : c₁.attempt? = c₂.attempt?
  payload : c₁.payload.sameKey c₂.payload = true

/-- `IdempotencyError` or `ReceiptMismatchError`. -/
def Conflict (e : Exc) : Prop :=
  ∃ message, e = .error .idempotencyError message none ∨ e = .error .receiptMismatchError message none

namespace MemoryTranscript

variable {t t' : MemoryTranscript} {c c₁ c₂ : Call} {P : MemoryTranscript → Call → Prop}

/-- The call raises a conflict and changes nothing: only the counter of ids may have moved on. -/
def Refuses (t : MemoryTranscript) (c : Call) : Prop :=
  ∃ e n, c.exec t = (.error e, { t with seq := n }) ∧ Conflict e

/-- What comes after a state, by calls that meet a condition and by injected failures. -/
inductive Continues (P : MemoryTranscript → Call → Prop) (t : MemoryTranscript) :
    MemoryTranscript → Prop where
  | refl : Continues P t t
  | call {t' : MemoryTranscript} (c : Call) :
    Continues P t t' → P t' c → Continues P t (c.exec t').2
  | failure {t' : MemoryTranscript} (opId : String) :
    Continues P t t' → Continues P t (t'.injectWriteFailure opId)

theorem Continues.reachable (h : Continues P t t') (ht : t.Reachable P) : t'.Reachable P := by
  induction h with
  | refl => exact ht
  | call c _ hc ih => exact .call c ih hc
  | failure opId _ ih => exact .failure opId ih

theorem Continues.ops (h : Continues P t t') {id : String} {op : CommittedOp}
    (ho : t.ops id = some op) : t'.ops id = some op := by
  induction h with
  | refl => exact ho
  | call c _ _ ih => exact exec_ops ih c
  | failure opId _ ih => exact ih

/-- The arguments of tool calls are dicts. -/
abbrev Keyed (_ : MemoryTranscript) (c : Call) : Prop := c.payload.keyed

/-- The payloads on file are keyed. -/
theorem Reachable.keyed (h : t.Reachable Keyed) {id : String} {op : CommittedOp}
    (ho : t.ops id = some op) : op.payload.keyed := by
  induction h with
  | empty _ => cases ho
  | failure _ _ ih => exact ih ho
  | @call t c _ hc ih =>
    have hout := t.exec_outcome c
    generalize (c.exec t).1 = result at hout
    generalize (c.exec t).2 = t' at hout ho
    cases hout with
    | failed hrej => exact ih (hrej.ops ▸ ho)
    | replayed _ _ | skipped _ _ _ _ => exact ih ho
    | committed _ _ _ hcommit =>
      rcases storeOp_ops ho with ⟨-, rfl⟩ | hold
      · exact hc
      · exact ih (hcommit.ops ▸ hold)

/-! ## Replays -/

theorem replay_conflict {op : CommittedOp} {opId : String} {kind : LogicalOpKind} {payload : Payload}
    {runId : String} {stepNo : Option Int} {target : Option RecordTarget} {previous : Option Receipt}
    {e : Exc} (h : replay op opId kind payload runId stepNo target previous = .error e) :
    Conflict e := by
  unfold replay at h
  split at h
  · cases h
    exact ⟨_, .inl rfl⟩
  · split at h
    · cases h
      exact ⟨_, .inl rfl⟩
    · split at h
      · cases h
        exact ⟨_, .inr rfl⟩
      · cases h

/-- A replay that does not find its own operation raises a conflict. -/
theorem answer_conflict {op : CommittedOp} (h : ¬ Matches c op) :
    ∃ e, c.answer op = .error e ∧ Conflict e := by
  rw [answer_eq]
  cases hreplay : replay op c.opId c.kind c.payload c.runId c.stepNo? c.target? c.previous? with
  | error e => exact ⟨e, rfl, replay_conflict hreplay⟩
  | ok op' =>
    obtain ⟨-, hkind, hpayload, hrun, hstep, htarget, hprevious⟩ := replay_ok hreplay
    exact absurd ⟨hkind, hpayload, hrun, hstep, htarget, hprevious⟩ h

/-- One that does hands out what is on file. -/
theorem answer_of_matches {op : CommittedOp} (h : Matches c op) : c.answer op = echo op c := by
  have hreplay : replay op c.opId c.kind c.payload c.runId c.stepNo? c.target? c.previous? = .ok op := by
    obtain ⟨hkind, hpayload, hrun, hstep, htarget, hprevious⟩ := h
    unfold replay
    rw [if_neg (by simp [hkind, hpayload]), if_neg (by simp [hrun, hstep, htarget]), if_neg]
    rintro ⟨hsome, hne⟩
    obtain ⟨r, hr⟩ := Option.isSome_iff_exists.mp hsome
    rw [hr, hprevious r hr] at hne
    exact hne rfl
  rw [answer_eq, hreplay]
  rfl

/-- It raises no conflict. -/
theorem answer_matches {op : CommittedOp} (h : Matches c op) {e : Exc} (he : c.answer op = .error e) :
    ¬ Conflict e := by
  rw [answer_of_matches h] at he
  rintro ⟨message, rfl | rfl⟩ <;>
  · cases c <;> simp only [echo] at he <;> (try split at he) <;> cases he

theorem exec_answer {op : CommittedOp} (hf : c.opId ∉ t.failOps) (ho : t.ops c.opId = some op) :
    c.exec t = (c.answer op, t) := by
  cases c <;>
  · simp only [Call.opId] at hf ho
    simp only [Call.exec, Call.answer, recordInput, recordTextDelta, recordTextFinal, recordToolCalls,
      recordToolResults, finalizeRun, once, if_neg hf, ho, Prod.map, id]

/-- An injected failure comes first. -/
theorem exec_injected (hf : c.opId ∈ t.failOps) :
    (c.exec t).1 = .error (.recording s!"injected write failure for {c.opId}") := by
  cases c <;>
  · simp only [Call.opId] at hf
    simp only [Call.exec, Call.opId, recordInput, recordTextDelta, recordTextFinal, recordToolCalls,
      recordToolResults, finalizeRun, once, if_pos hf, Prod.map]
    rfl

/-- Two calls that find one operation on file agree, but for the attempt of tool calls. -/
theorem agrees_of_matches {op : CommittedOp} (h₁ : Matches c₁ op) (h₂ : Matches c₂ op)
    (hop : op.payload.keyed) (hc : c₁.payload.keyed) (hkind : c₂.kind ≠ .toolCalls) :
    Agrees c₁ c₂ := by
  have hpayload : c₁.payload.sameKey c₂.payload = true :=
    Payload.sameKey_trans (Payload.sameKey_symm hop hc h₁.payload) h₂.payload
  refine ⟨h₁.runId.symm.trans h₂.runId, h₁.stepNo.symm.trans h₂.stepNo,
    h₁.recordTarget.symm.trans h₂.recordTarget, ?_, hpayload⟩
  -- the attempt of text is part of its payload
  cases c₂ <;> cases c₁ <;> simp only [Call.payload, Payload.sameKey, Bool.and_eq_true, beq_iff_eq,
    Bool.false_eq_true] at hpayload <;> first | rfl | exact congrArg some hpayload.2 | exact absurd rfl hkind

/-! ## Results of a batch outside the transcript -/

/-- A first submission of results that `record_tool_results` accepts. -/
def Accepts (t : MemoryTranscript) (a : ResultsArgs) : Prop :=
  ∃ b, t.Answers a b ∧ (b.recordingRequired = true →
    ∀ result ∈ a.results, (knownCall b.calls result.callId).isSome = true)

/-- The loop over the results raises a conflict, at a result that is not of the batch. -/
theorem pendingResults_conflict {a : ResultsArgs} {calls : List CallRecord} {e : Exc} :
    ∀ {results : List ToolResult} {t t' : MemoryTranscript},
      (∀ record ∈ calls, (t.messages record.messageId).isSome = true) →
      pendingResults a calls t results = (.error e, t') →
      Conflict e ∧ ∃ result ∈ results, knownCall calls result.callId = none
  | [], _, _, _, h => by cases h
  | result :: results, t, t', hstored, h => by
    unfold pendingResults at h
    split at h
    · rename_i hknown
      cases h
      exact ⟨⟨_, .inr rfl⟩, result, List.mem_cons_self, hknown⟩
    · rename_i record hknown
      have hmem : record ∈ calls := List.mem_reverse.mp (List.mem_of_find?_eq_some hknown)
      rw [if_neg (by simpa [Option.isSome_iff_ne_none] using hstored record hmem)] at h
      dsimp only at h
      split at h
      · rename_i heq
        cases h
        obtain ⟨hconf, r, hr, hnone⟩ := pendingResults_conflict (t := (t.nextId a.runId).2) hstored heq
        exact ⟨hconf, r, List.mem_cons_of_mem _ hr, hnone⟩
      · cases h

/-- In a consistent state the first submission of results is accepted, or refused. -/
theorem Consistent.results (h : t.Consistent) (a : ResultsArgs) (hf : a.logicalOpId ∉ t.failOps)
    (ho : t.ops a.logicalOpId = none) :
    (∃ r, ((Call.recordToolResults a).exec t).1 = .ok r) ∧ t.Accepts a ∨
      t.Refuses (.recordToolResults a) ∧ ¬ t.Accepts a := by
  have hexec : (Call.recordToolResults a).exec t = (t.recordToolResults a).map (·.map .messages) id :=
    rfl
  simp only [recordToolResults, once, if_neg hf, ho] at hexec
  cases hb : t.committedBatch a.previousReceipt with
  | none =>
    simp only [hb] at hexec
    refine .inr ⟨⟨_, t.seq, hexec, _, .inr rfl⟩, fun haccepts => ?_⟩
    obtain ⟨b, hans, -⟩ := haccepts
    rw [hans.committed] at hb
    cases hb
  | some b =>
    have hown : ∀ b', t.Answers a b' → b' = b := fun b' hans =>
      Option.some.inj (hans.committed.symm.trans hb)
    simp only [hb] at hexec
    by_cases hid : b.identity = a.previousReceipt.identity
    · by_cases hbound : b.runId ≠ a.runId ∨ b.stepNo ≠ a.stepNo ∨ b.recordTarget ≠ a.recordTarget
      · rw [if_neg (not_not.mpr hid), if_pos hbound] at hexec
        refine .inr ⟨⟨_, t.seq, hexec, _, .inr rfl⟩, fun haccepts => ?_⟩
        obtain ⟨b', hans, -⟩ := haccepts
        obtain rfl := hown b' hans
        rcases hbound with hr | hr | hr
        · exact hr hans.runId
        · exact hr hans.stepNo
        · exact hr hans.recordTarget
      · rw [if_neg (not_not.mpr hid), if_neg hbound] at hexec
        simp only [not_or, not_not] at hbound
        have hans : t.Answers a b := ⟨hb, hid, hbound.1, hbound.2.1, hbound.2.2⟩
        by_cases hreq : b.recordingRequired = false
        · rw [if_pos hreq] at hexec
          exact .inl ⟨⟨_, congrArg Prod.fst hexec⟩, b, hans, fun hr => by rw [hreq] at hr; cases hr⟩
        · rw [if_neg hreq] at hexec
          have hstored : ∀ record ∈ b.calls, (t.messages record.messageId).isSome = true := by
            obtain ⟨op, hop, hbatch⟩ := Option.bind_eq_some_iff.mp hb
            have hsound := (h.ops _ op hop).batch b hbatch
            exact fun record hr => (hsound.listed _ (hsound.calls record hr)).2
          cases hp : pendingResults a b.calls t a.results with
          | mk result t' =>
            simp only [hp] at hexec
            cases result with
            | ok pending =>
              exact .inl ⟨⟨_, congrArg Prod.fst hexec⟩, b, hans, fun _ => (pendingResults_ok hp).2.2⟩
            | error e =>
              obtain ⟨n, rfl, -⟩ := pendingResults_error hp
              obtain ⟨hconf, result, hr, hnone⟩ := pendingResults_conflict hstored hp
              refine .inr ⟨⟨e, n, hexec, hconf⟩, fun haccepts => ?_⟩
              obtain ⟨b', hans', hall⟩ := haccepts
              obtain rfl := hown b' hans'
              have hsome := hall (by simpa using hreq) result hr
              rw [hnone] at hsome
              cases hsome
    · rw [if_pos hid] at hexec
      refine .inr ⟨⟨_, t.seq, hexec, _, .inr rfl⟩, fun haccepts => ?_⟩
      obtain ⟨b', hans, -⟩ := haccepts
      obtain rfl := hown b' hans
      exact hid hans.identity

/-! ## The second call -/

/-- How a second call gets away without agreeing with the first, which found the state `t`. -/
inductive Slips (t t' : MemoryTranscript) (c₁ c₂ : Call) : Prop where
  /-- A failure is injected for the id: the call raises `RecordingError` and uses it up. -/
  | injected (h : c₂.opId ∈ t'.failOps)
  /-- `record_tool_calls` leaves the attempt out of its payload: the call finds its own operation. -/
  | attempt {op : CommittedOp} (hk : c₂.kind = .toolCalls) (ho : t'.ops c₂.opId = some op)
    (hm : Matches c₂ op)
  /-- The first call gave results to a batch outside the transcript and filed nothing; the second
  finds its own operation, filed since, or is accepted as a first submission. -/
  | unfiled {a a' : ResultsArgs} {b : BatchReceipt} (h₁ : c₁ = .recordToolResults a)
    (ho : t.ops c₁.opId = none) (hb : t.Answers a b) (hreq : b.recordingRequired = false)
    (h₂ : c₂ = .recordToolResults a')
    (hin : (∃ op, t'.ops c₂.opId = some op ∧ Matches c₂ op) ∨
      t'.ops c₂.opId = none ∧ t'.Accepts a')

/-- **Reuse of an operation id.** After a call that returned, and whatever came in between, a second
call of the same method under the same id agrees with it or is refused, unless it slips. -/
theorem reuse_refused_iff (t t' : MemoryTranscript) (c₁ c₂ : Call) (r : Reply)
    (hreach : t.Reachable Keyed) (h₁ : c₁.payload.keyed) (hfirst : (c₁.exec t).1 = .ok r)
    (hlater : Continues Keyed (c₁.exec t).2 t') (hkind : c₁.kind = c₂.kind)
    (hid : c₁.opId = c₂.opId) :
    (Agrees c₁ c₂ ∨ t'.Refuses c₂) ↔ (Agrees c₁ c₂ ∨ ¬ Slips t t' c₁ c₂) := by
  by_cases hagree : Agrees c₁ c₂
  · exact iff_of_true (.inl hagree) (.inl hagree)
  simp only [hagree, false_or]
  have hreach' : t'.Reachable Keyed := hlater.reachable (.call c₁ hreach h₁)
  by_cases hf : c₂.opId ∈ t'.failOps
  · -- an injected failure
    refine iff_of_false ?_ fun hs => hs (.injected hf)
    rintro ⟨e, n, he, message, hconf⟩
    have hexec := exec_injected hf
    rw [he] at hexec
    cases hexec
    rcases hconf with hconf | hconf <;> cases hconf
  cases ho : t'.ops c₂.opId with
  | some op =>
    have hexec := exec_answer hf ho
    by_cases hm : Matches c₂ op
    · refine iff_of_false ?_ fun hs => hs ?_
      · rintro ⟨e, n, he, hconf⟩
        rw [hexec] at he
        exact answer_matches hm (congrArg Prod.fst he) hconf
      · rcases exec_filed hfirst with ⟨op₁, ho₁, hm₁⟩ | ⟨a, b, rfl, hnone, hb, hreq⟩
        · rw [hid] at ho₁
          obtain rfl : op₁ = op := Option.some.inj ((hlater.ops ho₁).symm.trans ho)
          refine .attempt ?_ ho hm
          exact not_not.mp fun hk =>
            hagree (agrees_of_matches hm₁ hm (hreach'.keyed ho) h₁ hk)
        · cases c₂ with
          | recordToolResults a' => exact .unfiled rfl hnone hb hreq rfl (.inl ⟨op, ho, hm⟩)
          | _ => cases hkind
    · obtain ⟨e, he, hconf⟩ := answer_conflict hm
      refine iff_of_true ⟨e, t'.seq, by rw [hexec, he], hconf⟩ ?_
      rintro (h | ⟨-, ho', hm'⟩ | ⟨-, -, -, -, -, ⟨op', ho', hm'⟩ | ⟨ho', -⟩⟩)
      · exact hf h
      · rw [ho] at ho'
        cases ho'
        exact hm hm'
      · rw [ho] at ho'
        cases ho'
        exact hm hm'
      · rw [ho] at ho'
        cases ho'
  | none =>
    rcases exec_filed hfirst with ⟨op₁, ho₁, -⟩ | ⟨a, b, rfl, hnone, hb, hreq⟩
    · rw [hid] at ho₁
      rw [hlater.ops ho₁] at ho
      cases ho
    · cases c₂ with
      | recordToolResults a' =>
        rcases hreach'.consistent.results a' hf ho with ⟨⟨r', hr'⟩, hin⟩ | ⟨hrefused, hout⟩
        · refine iff_of_false ?_ fun hs => hs (.unfiled rfl hnone hb hreq rfl (.inr ⟨ho, hin⟩))
          rintro ⟨e, n, he, -⟩
          rw [he] at hr'
          cases hr'
        · refine iff_of_true hrefused ?_
          rintro (h | ⟨hk, -, -⟩ | ⟨-, -, -, -, h₂, ⟨op', ho', -⟩ | ⟨-, hin⟩⟩)
          · exact hf h
          · cases hk
          · rw [ho] at ho'
            cases ho'
          · cases h₂
            exact hout hin
      | _ => cases hkind

/-- The batch on record, submitted once more: as it was, for another attempt, with a text. -/
def oneCalls : CallsArgs where
  runId := "r"
  stepNo := 1
  recordTarget := ⟨"t"⟩
  calls := [{ callId := "c1", name := "ask" }]
  assistantText := none
  reasoning := none
  logicalOpId := "calls"

def nextAttempt : Call := .recordToolCalls { oneCalls with attempt := 2 }

def otherText : Call := .recordToolCalls { oneCalls with assistantText := some "so" }

/-- The attempt is not compared. -/
theorem nextAttempt_returns :
    ((Call.recordToolCalls oneCalls).exec empty).2 = oneBatch ∧
      (nextAttempt.exec oneBatch).1 =
        .ok (.batch ⟨"r", 1, ⟨"t"⟩, "calls", [⟨"c1", "ask", "msg:r:1"⟩], some "msg:r:1", true, false⟩) ∧
      ¬ Agrees (.recordToolCalls oneCalls) nextAttempt :=
  ⟨rfl, rfl, fun h => by cases h.attempt⟩

theorem otherText_refused : oneBatch.Refuses otherText := by
  have hkeyed : ∀ c ∈ oneCalls.calls, c.keyed := by
    intro c hc
    rw [List.mem_singleton.mp hc]
    rfl
  have hiff := reuse_refused_iff empty oneBatch (.recordToolCalls oneCalls) otherText _ (.empty [])
    hkeyed rfl .refl rfl rfl
  refine (hiff.mpr (.inr ?_)).resolve_left fun h => by cases h.payload
  rintro (h | ⟨-, ho, hm⟩ | ⟨h₁, -⟩)
  · cases h
  · cases ho
    cases hm.payload
  · cases h₁

end MemoryTranscript

end AgentRuntime
