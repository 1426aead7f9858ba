import AgentRuntime.Recording.Invariants

/-!
# Supplied receipts

Whether a first submission that is given a receipt has it verified.

* `Genuine` — a committed operation under the receipt's id has stored a receipt of its identity;
* `Unverified` — a receipt that text gets away with: its message exists, and for a final text an
  operation under its id;
* `supplied_verified_iff` — the receipt is genuine or the call fails, unless it goes unverified.
-/

set_option autoImplicit false

namespace AgentRuntime

/-- The receipts stored with an operation. -/
def CommittedOp.receipts (op : CommittedOp) : List Receipt :=
  op.messageReceipts.map .message ++ op.batchReceipt.toList.map .batch

/-- The operation a receipt says it is of. -/
def Receipt.logicalOpId : Receipt → String
  | message r => r.logicalOpId
  | batch b => b.logicalOpId

namespace MemoryTranscript

variable {t : MemoryTranscript} {c : Call}

/-- The receipt has the stable identity of one stored for a committed operation under its id. -/
def Genuine (t : MemoryTranscript) (r : Receipt) : Prop :=
  ∃ op, t.ops r.logicalOpId = some op ∧ ∃ r' ∈ op.receipts, r'.identity = r.identity

theorem genuine_batch {b b' : BatchReceipt} (h : t.committedBatch b = some b')
    (hid : b'.identity = b.identity) : t.Genuine (.batch b) := by
  obtain ⟨op, ho, hb⟩ := Option.bind_eq_some_iff.mp h
  refine ⟨op, ho, .batch b', List.mem_append_right _ ?_, hid⟩
  rw [hb]
  exact List.mem_singleton_self _

/-- Text, and its receipt is looked up but not compared. -/
structure Unverified (t : MemoryTranscript) (c : Call) (r : Receipt) : Prop where
  text : c.kind = .textDelta ∨ c.kind = .textFinal
  forged : ¬ t.Genuine r
  /-- The message of the receipt is stored; for a final text, an operation under its id too. -/
  checked : t.Checked c
  spared : c.opId ∉ t.failOps

/-- **Supplied receipts.** In a reachable state the receipt given to a first submission is genuine, or
the call raises and changes nothing, exactly if it is not text that goes unverified. -/
theorem supplied_verified_iff (t : MemoryTranscript) (c : Call) (r : Receipt)
    (h : t.Reachable fun _ _ => True) (hprev : c.previous? = some r) (ho : t.ops c.opId = none) :
    (t.Genuine r ∨ ∃ e, (c.exec t).1 = .error e ∧ t.Rejected (c.exec t).2) ↔ ¬ t.Unverified c r := by
  constructor
  · rintro (hgenuine | ⟨e, he, -⟩) ⟨htext, hforged, hchecked, hf⟩
    · exact hforged hgenuine
    · obtain ⟨r', rfl⟩ : ∃ r', r = .message r' := by
        rcases htext with hk | hk <;> cases c <;> cases hk <;>
          obtain ⟨r', -, rfl⟩ := Option.map_eq_some_iff.mp hprev <;> exact ⟨r', rfl⟩
      obtain ⟨-, reply, hr⟩ := h.consistent.accepts hprev hf ho hchecked
      rw [he] at hr
      cases hr
  · intro hv
    have hout := t.exec_outcome c
    generalize (c.exec t).1 = result at hout
    generalize (c.exec t).2 = t' at hout
    cases hout with
    | failed hrej => exact .inr ⟨_, rfl, hrej⟩
    | replayed ho' _ =>
      rw [ho] at ho'
      cases ho'
    | skipped hc _ hb _ =>
      subst hc
      cases hprev
      exact .inl (genuine_batch hb.committed hb.identity)
    | committed hf _ hchecked _ =>
      refine .inl (not_not.mp fun hforged => ?_)
      cases c with
      | recordInput _ | finalizeRun _ _ => cases hprev
      | recordTextDelta a => exact hv ⟨.inl rfl, hforged, hchecked, hf⟩
      | recordTextFinal a => exact hv ⟨.inr rfl, hforged, hchecked, hf⟩
      | recordToolCalls a =>
        obtain ⟨b, hb, rfl⟩ := Option.map_eq_some_iff.mp hprev
        obtain ⟨b', hb', hid⟩ := Option.map_eq_some_iff.mp (hchecked b hb)
        exact hforged (genuine_batch hb' hid)
      | recordToolResults a =>
        cases hprev
        obtain ⟨b', hans⟩ := hchecked
        exact hforged (genuine_batch hans.committed hans.identity)

/-- A receipt of which only the message exists. -/
def forgedReceipt : MessageReceipt := ⟨"msg:r:1", "other", none, ⟨"u"⟩, "never", true⟩

def forgedDelta : Call :=
  .recordTextDelta {
    runId := "r", stepNo := 1, recordTarget := ⟨"t"⟩, text := "b", logicalOpId := "2", attempt := 1
    previousReceipt := some forgedReceipt }

theorem forgedDelta_returns :
    oneDelta.Reachable (fun _ _ => True) ∧
      (forgedDelta.exec oneDelta).1 = .ok (.message ⟨"msg:r:1", "r", some 1, ⟨"t"⟩, "2", false⟩) ∧
      ¬ oneDelta.Genuine (.message forgedReceipt) :=
  ⟨.call _ (.empty []) trivial, rfl, fun ⟨_, ho, _⟩ => by cases ho⟩

/-- The batch on record, said to be of another step. -/
def alteredBatch : BatchReceipt :=
  ⟨"r", 2, ⟨"t"⟩, "calls", [⟨"c1", "ask", "msg:r:1"⟩], some "msg:r:1", true, true⟩

theorem alteredBatch_rejected :
    ∃ e, ((Call.recordToolResults ⟨"r", 2, ⟨"t"⟩, [], "results", alteredBatch⟩).exec oneBatch).1 =
      .error e := by
  have hiff := supplied_verified_iff oneBatch
    (.recordToolResults ⟨"r", 2, ⟨"t"⟩, [], "results", alteredBatch⟩) (.batch alteredBatch)
    (.call _ (.empty []) trivial) rfl rfl
  have hverified := hiff.mpr fun hu => by rcases hu.text with hk | hk <;> cases hk
  rcases hverified with ⟨op, ho, r', hr', hid⟩ | ⟨e, he, -⟩
  · cases ho
    rw [List.mem_singleton.mp hr'] at hid
    cases hid
  · exact ⟨e, he⟩

end MemoryTranscript

end AgentRuntime
