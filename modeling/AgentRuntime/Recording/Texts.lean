import AgentRuntime.Recording.Invariants

/-!
# What a call leaves alone

The messages of a transcript under the calls of everybody.

* `exec_messages`, `exec_textIds`, `exec_order` — a stored message, an identity of text and the order
  of a target change only under a call that is about them; a TOOL message never does;
* `text` — the text message of a run, step, target and attempt; `Upserted.text` — what a text write
  makes of it;
* `exec_wrote` — a first submission of text that returns has written it.
-/

set_option autoImplicit false

namespace AgentRuntime

namespace MemoryTranscript

variable {t t' t₁ : MemoryTranscript} {c : Call} {n : Nat}

/-! ## Messages -/

theorem appendAll_messages (run : String) (target : RecordTarget) {id : String} {m : Message} :
    ∀ (results : List ToolResult) {t : MemoryTranscript} {n : Nat}, t.Tables n →
      t.messages id = some m →
      (t.appendAll target (pendingOf run n results)).messages id = some m
  | [], _, _, _, hm => hm
  | result :: results, t, n, ht, hm => by
    refine appendAll_messages run target results (ht.append run target (resultMessage result)) ?_
    rw [messages_append, if_neg]
    · exact hm
    · rintro rfl
      rw [ht.fresh run] at hm
      cases hm

theorem Upserted.messages {w : Call.TextWrite} {id id' : String} {created : Bool} {m : Message}
    (h : t.Upserted w id created t₁) (ht : t.Tables t.seq) (hm : t.messages id' = some m) :
    t₁.messages id' = some m ∨ t.textIds w.key = some id' := by
  cases h with
  | created hkey =>
    refine .inl ?_
    rw [messages_append, if_neg]
    · exact hm
    · rintro rfl
      rw [ht.fresh] at hm
      cases hm
  | @updated id current hkey _ =>
    by_cases heq : id' = id
    · exact .inr (heq ▸ hkey)
    · refine .inl ?_
      simp only [replaceMessage]
      rw [Function.update_of_ne heq]
      exact hm

theorem Commits.messages {receipts : List MessageReceipt} {batch : Option BatchReceipt} {r : Reply}
    {id : String} {m : Message} (h : t.Commits c receipts batch r t₁) (ht : t.Tables t.seq)
    (hm : t.messages id = some m) :
    t₁.messages id = some m ∨ ∃ w, c.textWrite? = some w ∧ t.textIds w.key = some id := by
  cases h with
  | input a =>
    refine .inl ?_
    rw [messages_append, if_neg]
    · exact hm
    · rintro rfl
      rw [ht.fresh] at hm
      cases hm
  | text _ hw hup | toolCalls _ hw hup =>
    exact (hup.messages ht hm).imp_right fun hkey => ⟨_, hw, hkey⟩
  | unrecordedCalls _ | runFinal _ _ => exact .inl hm
  | @toolResults a b _ _ _ =>
    have hcounted : ({ t with seq := t.seq + a.results.length } : MemoryTranscript).Tables t.seq :=
      ht.same rfl rfl
    exact .inl (appendAll_messages a.runId a.recordTarget a.results hcounted hm)

/-- A stored message changes only under a write to its own text. -/
theorem exec_messages (hc : t.Consistent) (c : Call) {id : String} {m : Message}
    (hm : t.messages id = some m) :
    (c.exec t).2.messages id = some m ∨ ∃ w, c.textWrite? = some w ∧ t.textIds w.key = some id := by
  have hout := t.exec_outcome c
  generalize (c.exec t).1 = result at hout
  generalize (c.exec t).2 = t' at hout ⊢
  cases hout with
  | failed hrej => exact .inl (by rw [hrej.messages]; exact hm)
  | replayed _ _ | skipped _ _ _ _ => exact .inl hm
  | committed _ _ _ hcommit => exact hcommit.messages hc.tables hm

/-- A TOOL message is never written again. -/
theorem exec_toolMessage (hc : t.Consistent) (c : Call) {id : String} {m : Message}
    (hm : t.messages id = some m) (hrole : m.role = .tool) : (c.exec t).2.messages id = some m := by
  rcases exec_messages hc c hm with hsame | ⟨w, -, hkey⟩
  · exact hsame
  · obtain ⟨-, m', hm', hrole'⟩ := hc.texts.listed w.key id hkey
    obtain rfl := Option.some.inj (hm.symm.trans hm')
    rw [hrole] at hrole'
    cases hrole'

theorem exec_unrecordedTools (t : MemoryTranscript) (c : Call) :
    (c.exec t).2.unrecordedTools = t.unrecordedTools := by
  have hout := t.exec_outcome c
  generalize (c.exec t).1 = result at hout
  generalize (c.exec t).2 = t' at hout ⊢
  cases hout with
  | failed hrej => exact hrej.unrecordedTools
  | replayed _ _ | skipped _ _ _ _ => rfl
  | committed _ _ _ hcommit => exact hcommit.switches.2

/-- No failure is injected by a call. -/
theorem exec_failOps_subset (t : MemoryTranscript) (c : Call) : (c.exec t).2.failOps ⊆ t.failOps := by
  have hout := t.exec_outcome c
  generalize (c.exec t).1 = result at hout
  generalize (c.exec t).2 = t' at hout ⊢
  cases hout with
  | failed hrej => exact fun _ => hrej.failOps _
  | replayed _ _ | skipped _ _ _ _ => exact List.Subset.refl _
  | committed _ _ _ hcommit => exact fun _ h => hcommit.switches.1 ▸ h

/-! ## Identities of text -/

theorem Upserted.textIds {w : Call.TextWrite} {id : String} {created : Bool} {key : TextKey}
    (h : t.Upserted w id created t₁) : t₁.textIds key = t.textIds key ∨ w.key = key := by
  cases h with
  | created _ =>
    by_cases heq : key = w.key
    · exact .inr heq.symm
    · exact .inl (Function.update_of_ne heq _ _)
  | updated _ _ => exact .inl rfl

/-- An identity of text is given by a write to that text. -/
theorem exec_textIds (t : MemoryTranscript) (c : Call) (key : TextKey) :
    (c.exec t).2.textIds key = t.textIds key ∨ ∃ w, c.textWrite? = some w ∧ w.key = key := by
  have hout := t.exec_outcome c
  generalize (c.exec t).1 = result at hout
  generalize (c.exec t).2 = t' at hout ⊢
  cases hout with
  | failed hrej => exact .inl (by rw [hrej.textIds])
  | replayed _ _ | skipped _ _ _ _ => exact .inl rfl
  | committed _ _ _ hcommit =>
    cases hcommit with
    | input _ | unrecordedCalls _ | runFinal _ _ => exact .inl rfl
    | text _ hw hup | toolCalls _ hw hup => exact hup.textIds.imp_right fun hkey => ⟨_, hw, hkey⟩
    | toolResults _ _ _ => exact .inl (congrFun (appendAll_frame _ _ _).2.1 key)

/-- An operation is filed under the id of its call. -/
theorem exec_unfiled {opId : String} (h : t.ops opId = none) (hne : opId ≠ c.opId) :
    (c.exec t).2.ops opId = none := by
  have hout := t.exec_outcome c
  generalize (c.exec t).1 = result at hout
  generalize (c.exec t).2 = t' at hout ⊢
  cases hout with
  | failed hrej => rw [hrej.ops, h]
  | replayed _ _ | skipped _ _ _ _ => exact h
  | committed _ _ _ hcommit =>
    exact (Function.update_of_ne hne _ _).trans ((congrFun hcommit.ops opId).trans h)

/-! ## The order of a target -/

theorem append_order {target other : RecordTarget} {id : String} {m : Message} (h : other ≠ target) :
    (t.append target id m).order other.value = t.order other.value :=
  Function.update_of_ne (fun heq => h (congrArg RecordTarget.mk heq)) _ _

theorem appendAll_order {target other : RecordTarget} (h : other ≠ target) :
    ∀ (pending : List (String × Message)) (t : MemoryTranscript),
      (t.appendAll target pending).order other.value = t.order other.value
  | [], _ => rfl
  | p :: pending, t =>
    (appendAll_order h pending (t.append target p.1 p.2)).trans (append_order h)

/-- Messages are listed under the target they are recorded on. -/
theorem exec_order (t : MemoryTranscript) (c : Call) {target : RecordTarget}
    (h : c.target? ≠ some target) : (c.exec t).2.order target.value = t.order target.value := by
  have hout := t.exec_outcome c
  generalize (c.exec t).1 = result at hout
  generalize (c.exec t).2 = t' at hout ⊢
  have hup : ∀ {w : Call.TextWrite} {id created t₁}, c.textWrite? = some w →
      t.Upserted w id created t₁ → t₁.order target.value = t.order target.value := by
    intro w id created t₁ hw hup
    have hne : target ≠ w.target := fun heq => h (heq ▸ (Call.textWrite?_spec hw).2.1)
    cases hup with
    | created _ => exact append_order hne
    | updated _ _ => rfl
  cases hout with
  | failed hrej => rw [hrej.order]
  | replayed _ _ | skipped _ _ _ _ => rfl
  | committed _ _ _ hcommit =>
    cases hcommit with
    | input a => exact append_order (m := a.message) fun heq => h (congrArg some heq.symm)
    | unrecordedCalls _ | runFinal _ _ => rfl
    | text _ hw hupserted | toolCalls _ hw hupserted =>
      have horder := hup hw hupserted
      exact horder
    | toolResults _ _ _ => exact appendAll_order (fun heq => h (congrArg some heq.symm)) _ _

/-! ## Text messages -/

/-- The text message of a run, step, target and attempt. -/
def text (t : MemoryTranscript) (key : TextKey) : Option Message := (t.textIds key).bind t.messages

/-- A text is what the calls that are about it make of it. -/
theorem exec_text (hc : t.Consistent) (c : Call) {key : TextKey}
    (h : ∀ w, c.textWrite? = some w → w.key ≠ key) :
    (c.exec t).2.textIds key = t.textIds key ∧ (c.exec t).2.text key = t.text key := by
  have hkey : (c.exec t).2.textIds key = t.textIds key :=
    (exec_textIds t c key).resolve_right fun ⟨w, hw, heq⟩ => h w hw heq
  refine ⟨hkey, ?_⟩
  unfold text
  rw [hkey]
  cases hid : t.textIds key with
  | none => rfl
  | some id =>
    obtain ⟨-, m, hm, -⟩ := hc.texts.listed key id hid
    rcases exec_messages hc c hm with hm' | ⟨w, hw, hw'⟩
    · exact hm'.trans hm.symm
    · exact absurd (hc.texts.injective _ _ _ hw' hid) (h w hw)

/-- A write creates its text from scratch or updates it, and touches no other text. -/
theorem Upserted.text {w : Call.TextWrite} {id : String} {created : Bool}
    (h : t.Upserted w id created t₁) (hc : t.Consistent) :
    (∃ m, t₁.messages id = some m ∧ m.content = ((t.text w.key).elim w.fresh w.update).content) ∧
      ∀ key, w.key ≠ key → t₁.textIds key = t.textIds key ∧ t₁.text key = t.text key := by
  refine ⟨?_, fun key hne => ?_⟩
  · cases h with
    | created hkey =>
      refine ⟨_, by rw [messages_append, if_pos rfl], ?_⟩
      simp only [MemoryTranscript.text, hkey, Option.bind_none, Option.elim_none]
    | updated hkey hm =>
      refine ⟨_, Function.update_self .., ?_⟩
      simp only [MemoryTranscript.text, hkey, Option.bind_some, hm, Option.elim_some]
  · have hkey : t₁.textIds key = t.textIds key := h.textIds.resolve_right hne
    refine ⟨hkey, ?_⟩
    unfold MemoryTranscript.text
    rw [hkey]
    cases hid : t.textIds key with
    | none => rfl
    | some id' =>
      obtain ⟨-, m, hm, -⟩ := hc.texts.listed key id' hid
      rcases h.messages hc.tables hm with hm' | hw
      · exact hm'.trans hm.symm
      · exact absurd (hc.texts.injective _ _ _ hw hid) hne

/-- The text `w` was written to the message `id`, under an operation that is on file now. -/
structure Wrote (t : MemoryTranscript) (w : Call.TextWrite) (opId id : String)
    (t' : MemoryTranscript) : Prop where
  consistent : t'.Consistent
  grows : t.Grows t'
  textId : t'.textIds w.key = some id
  same : ∀ id', t.textIds w.key = some id' → id' = id
  content : ∃ m, t'.messages id = some m ∧ m.content = ((t.text w.key).elim w.fresh w.update).content
  others : ∀ key, w.key ≠ key → t'.textIds key = t.textIds key ∧ t'.text key = t.text key
  filed : (t'.ops opId).isSome = true
  ops : ∀ opId', opId' ≠ opId → t'.ops opId' = t.ops opId'

theorem Wrote.text {w : Call.TextWrite} {opId id : String} (h : t.Wrote w opId id t') :
    (t'.text w.key).map (·.content) = some ((t.text w.key).elim w.fresh w.update).content := by
  obtain ⟨m, hm, hcontent⟩ := h.content
  simp only [MemoryTranscript.text, h.textId, Option.bind_some, hm, Option.map_some, hcontent]

theorem Upserted.wrote {w : Call.TextWrite} {id : String} {created : Bool} {op : CommittedOp}
    (h : t.Upserted w id created t₁) (hc : t.Consistent) (hw : c.textWrite? = some w)
    (hstored : (t₁.storeOp op).Consistent) : t.Wrote w op.logicalOpId id (t₁.storeOp op) where
  consistent := hstored
  grows := (h.consistent hw hc.tables hc.texts).2.2.1.trans (.same rfl rfl)
  textId := (h.consistent hw hc.tables hc.texts).2.2.2.2.1
  same id' hid := by
    cases h with
    | created hnone => rw [hnone] at hid; cases hid
    | updated hid' _ => exact Option.some.inj (hid.symm.trans hid')
  content := (h.text hc).1
  others := (h.text hc).2
  filed := by simp only [storeOp, Function.update_self, Option.isSome_some]
  ops opId' hne := (Function.update_of_ne hne _ _).trans (congrFun h.ops opId')

/-- The first submission of a text, when it returns. -/
theorem exec_wrote (hc : t.Consistent) (ho : t.ops c.opId = none) {w : Call.TextWrite}
    (hw : c.textWrite? = some w) {r : MessageReceipt} (h : (c.exec t).1 = .ok (.message r)) :
    t.Wrote w c.opId r.messageId (c.exec t).2 ∧ r.logicalOpId = c.opId := by
  have hcons := (hc.exec c).1
  have hout := t.exec_outcome c
  rw [h] at hout
  generalize (c.exec t).2 = t' at hout hcons ⊢
  cases hout with
  | replayed hop _ => rw [ho] at hop; cases hop
  | committed _ _ _ hcommit =>
    cases hcommit with
    | input a => cases hw
    | text _ hw' hup =>
      obtain rfl := Option.some.inj (hw'.symm.trans hw)
      exact ⟨hup.wrote hc hw hcons, rfl⟩

end MemoryTranscript

end AgentRuntime
