import Mathlib.Logic.Equiv.Basic
import AgentRuntime.Recording.Submission

/-!
# Renaming message ids

What the recorder hands out and keeps on file, with its message ids renamed.

* `Message.rename`, `Receipt.rename`, `Reply.rename`, `Call.rename`, `CommittedOp.rename` — the renaming
  of each kind of data; texts, calls and operation ids stay;
* `identity_rename` — an injective renaming neither joins nor splits the identities of receipts;
* `replay_rename` — a replay of a renamed operation is the renamed replay;
* `exists_perm` — a renaming that takes given numbers of a run to given ones.
-/

set_option autoImplicit false

namespace AgentRuntime

variable {ρ : String → String}

/-! ## The data -/

def Message.rename (ρ : String → String) (m : Message) : Message :=
  { m with messageId := m.messageId.map ρ }

def CallRecord.rename (ρ : String → String) (r : CallRecord) : CallRecord :=
  { r with messageId := ρ r.messageId }

def MessageReceipt.rename (ρ : String → String) (r : MessageReceipt) : MessageReceipt :=
  { r with messageId := ρ r.messageId }

def BatchReceipt.rename (ρ : String → String) (b : BatchReceipt) : BatchReceipt :=
  { b with calls := b.calls.map (·.rename ρ), assistantMessageId := b.assistantMessageId.map ρ }

def Receipt.rename (ρ : String → String) : Receipt → Receipt
  | message r => .message (r.rename ρ)
  | batch b => .batch (b.rename ρ)

def Reply.rename (ρ : String → String) : Reply → Reply
  | message r => .message (r.rename ρ)
  | batch b => .batch (b.rename ρ)
  | messages rs => .messages (rs.map (·.rename ρ))
  | finalized => .finalized

/-- The receipt that is supplied is renamed. -/
def Call.rename (ρ : String → String) : Call → Call
  | recordInput a => .recordInput a
  | recordTextDelta a => .recordTextDelta { a with previousReceipt := a.previousReceipt.map (·.rename ρ) }
  | recordTextFinal a => .recordTextFinal { a with previousReceipt := a.previousReceipt.map (·.rename ρ) }
  | recordToolCalls a => .recordToolCalls { a with previousReceipt := a.previousReceipt.map (·.rename ρ) }
  | recordToolResults a => .recordToolResults { a with previousReceipt := a.previousReceipt.rename ρ }
  | finalizeRun runId status => .finalizeRun runId status

def CommittedOp.rename (ρ : String → String) (op : CommittedOp) : CommittedOp :=
  { op with
    previousReceipt := op.previousReceipt.map (·.rename ρ)
    messageReceipt := op.messageReceipt.map (·.rename ρ)
    messageReceipts := op.messageReceipts.map (·.rename ρ)
    batchReceipt := op.batchReceipt.map (·.rename ρ) }

theorem Reply.receipts_rename (r : Reply) : (r.rename ρ).receipts = r.receipts.map (·.rename ρ) := by
  cases r with
  | message r | batch b | finalized => rfl
  | messages rs =>
    simp only [Reply.rename, Reply.receipts, List.map_map]
    rfl

/-! ## Identities -/

theorem CallRecord.rename_inj (hρ : ρ.Injective) : Function.Injective (CallRecord.rename ρ) := by
  rintro ⟨callId, name, id⟩ ⟨callId', name', id'⟩ h
  simp only [CallRecord.rename, CallRecord.mk.injEq] at h ⊢
  exact ⟨h.1, h.2.1, hρ h.2.2⟩

theorem MessageReceipt.identity_rename (hρ : ρ.Injective) (r r' : MessageReceipt) :
    (r.rename ρ).identity = (r'.rename ρ).identity ↔ r.identity = r'.identity := by
  simp only [MessageReceipt.identity, MessageReceipt.rename, ReceiptIdentity.message.injEq, hρ.eq_iff]

theorem BatchReceipt.identity_rename (hρ : ρ.Injective) (b b' : BatchReceipt) :
    (b.rename ρ).identity = (b'.rename ρ).identity ↔ b.identity = b'.identity := by
  simp only [BatchReceipt.identity, BatchReceipt.rename, ReceiptIdentity.batch.injEq,
    ((CallRecord.rename_inj hρ).list_map).eq_iff, (Option.map_injective hρ).eq_iff]

/-- **Identities.** Two receipts have one identity exactly if the renamed ones have. -/
theorem Receipt.identity_rename (hρ : ρ.Injective) (r r' : Receipt) :
    (r.rename ρ).identity = (r'.rename ρ).identity ↔ r.identity = r'.identity := by
  cases r with
  | message r =>
    cases r' with
    | message r' => exact MessageReceipt.identity_rename hρ r r'
    | batch b' => exact iff_of_false (fun h => by cases h) fun h => by cases h
  | batch b =>
    cases r' with
    | message r' => exact iff_of_false (fun h => by cases h) fun h => by cases h
    | batch b' => exact BatchReceipt.identity_rename hρ b b'

theorem Receipt.identity_rename_option (hρ : ρ.Injective) (r r' : Option Receipt) :
    (r.map (·.rename ρ)).map (·.identity) = (r'.map (·.rename ρ)).map (·.identity) ↔
      r.map (·.identity) = r'.map (·.identity) := by
  cases r with
  | none =>
    cases r' with
    | none => exact Iff.rfl
    | some r' => exact iff_of_false (fun h => by cases h) fun h => by cases h
  | some r =>
    cases r' with
    | none => exact iff_of_false (fun h => by cases h) fun h => by cases h
    | some r' =>
      simp only [Option.map_some, Option.some.injEq]
      exact Receipt.identity_rename hρ r r'

/-! ## Replays -/

namespace MemoryTranscript

/-- **Replays.** The replay of a renamed operation is the renamed replay. -/
theorem replay_rename (hρ : ρ.Injective) (op : CommittedOp) (opId : String) (kind : LogicalOpKind)
    (payload : Payload) (runId : String) (stepNo : Option Int) (target : Option RecordTarget)
    (previous : Option Receipt) :
    replay (op.rename ρ) opId kind payload runId stepNo target (previous.map (·.rename ρ)) =
      (replay op opId kind payload runId stepNo target previous).map (·.rename ρ) := by
  have hidentity : ((op.rename ρ).previousReceipt.map (·.identity) ≠
      (previous.map (·.rename ρ)).map (·.identity)) ↔
        op.previousReceipt.map (·.identity) ≠ previous.map (·.identity) :=
    not_congr (Receipt.identity_rename_option hρ op.previousReceipt previous)
  unfold replay
  simp only [hidentity, Option.isSome_map]
  change (if op.kind ≠ kind ∨ op.payload.sameKey payload = false then _
    else if op.runId ≠ runId ∨ op.stepNo ≠ stepNo ∨ op.recordTarget ≠ target then _ else _) = _
  split_ifs <;> rfl

theorem replayedMessage_rename (x : Except Exc CommittedOp) :
    replayedMessage (x.map (·.rename ρ)) = (replayedMessage x).map (·.rename ρ) := by
  cases x with
  | error e => rfl
  | ok op =>
    simp only [Except.map, replayedMessage, CommittedOp.rename]
    cases op.messageReceipt <;> rfl

theorem replayedBatch_rename (x : Except Exc CommittedOp) :
    replayedBatch (x.map (·.rename ρ)) = (replayedBatch x).map (·.rename ρ) := by
  cases x with
  | error e => rfl
  | ok op =>
    simp only [Except.map, replayedBatch, CommittedOp.rename]
    cases op.batchReceipt <;> rfl

theorem replayedMessages_rename (x : Except Exc CommittedOp) :
    replayedMessages (x.map (·.rename ρ)) = (replayedMessages x).map (List.map (·.rename ρ)) := by
  cases x with
  | error e => rfl
  | ok op =>
    simp only [Except.map, replayedMessages, CommittedOp.rename, List.map_map]
    rfl

theorem message_rename_option (r : Option MessageReceipt) :
    (r.map (·.rename ρ)).map Receipt.message = (r.map Receipt.message).map (·.rename ρ) := by
  cases r <;> rfl

theorem batch_rename_option (r : Option BatchReceipt) :
    (r.map (·.rename ρ)).map Receipt.batch = (r.map Receipt.batch).map (·.rename ρ) := by
  cases r <;> rfl

theorem knownCall_rename (calls : List CallRecord) (callId : String) :
    knownCall (calls.map (·.rename ρ)) callId = (knownCall calls callId).map (·.rename ρ) := by
  unfold knownCall
  rw [← List.map_reverse, List.find?_map]
  rfl

/-! ## A renaming -/

/-- **A renaming.** Distinct numbers of a run can be renamed to distinct numbers, one by one. -/
theorem exists_perm (run : String) (σ : Nat → Nat) : ∀ n : Nat,
    (∀ i j, i ≤ n → j ≤ n → σ i = σ j → i = j) →
      ∃ ρ : Equiv.Perm String, ∀ k, k ≤ n → ρ (msgId run k) = msgId run (σ k)
  | 0, _ => by
    refine ⟨Equiv.swap (msgId run 0) (msgId run (σ 0)), fun k hk => ?_⟩
    obtain rfl := Nat.le_zero.mp hk
    exact Equiv.swap_apply_left _ _
  | n + 1, hσ => by
    obtain ⟨ρ, hρ⟩ := exists_perm run σ n fun i j hi hj => hσ i j (Nat.le_succ_of_le hi) (Nat.le_succ_of_le hj)
    -- the id that gets the new number by now gives way
    refine ⟨ρ.trans (Equiv.swap (ρ (msgId run (n + 1))) (msgId run (σ (n + 1)))), fun k hk => ?_⟩
    rw [Equiv.trans_apply]
    rcases Nat.lt_or_ge n k with hnew | hold
    · obtain rfl : k = n + 1 := by omega
      exact Equiv.swap_apply_left _ _
    · have hapart : ρ (msgId run k) ≠ ρ (msgId run (n + 1)) := by
        intro heq
        have := msgId_inj (ρ.injective heq)
        omega
      have hfree : ρ (msgId run k) ≠ msgId run (σ (n + 1)) := by
        intro heq
        rw [hρ k hold] at heq
        have := hσ k (n + 1) hk (Nat.le_refl _) (msgId_inj heq)
        omega
      rw [Equiv.swap_apply_of_ne_of_ne hapart hfree, hρ k hold]

end MemoryTranscript

end AgentRuntime
