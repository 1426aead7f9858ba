import AgentRuntime.Recording.Submission

/-!
# The tables of a transcript

What holds of a memory transcript whatever was called on it.

* `Tables` — every stored message is listed once, under one target, and has its own fresh id;
* `TextTable` — the identities of text point to assistant messages of their target;
* `Grows` — messages stay where they are listed, and keep their role;
* `Vouches` — what an operation on file says of its messages;
* `Consistent` — all of it, kept by every call (`Consistent.exec`).
-/

set_option autoImplicit false

namespace AgentRuntime

namespace MemoryTranscript

variable {t t' t₁ : MemoryTranscript} {c : Call} {n : Nat}

/-! ## Growth -/

/-- Messages are added at the end of their target, and keep their role. -/
structure Grows (t t' : MemoryTranscript) : Prop where
  order : ∀ target, t.order target <+: t'.order target
  role : ∀ id m, t.messages id = some m → ∃ m', t'.messages id = some m' ∧ m'.role = m.role

theorem Grows.refl (t : MemoryTranscript) : t.Grows t :=
  ⟨fun _ => List.prefix_refl _, fun _ m h => ⟨m, h, rfl⟩⟩

theorem Grows.trans {t'' : MemoryTranscript} (h : t.Grows t') (h' : t'.Grows t'') : t.Grows t'' := by
  refine ⟨fun target => (h.order target).trans (h'.order target), fun id m hm => ?_⟩
  obtain ⟨m₁, hm₁, hr₁⟩ := h.role id m hm
  obtain ⟨m₂, hm₂, hr₂⟩ := h'.role id m₁ hm₁
  exact ⟨m₂, hm₂, hr₂.trans hr₁⟩

theorem Grows.same (ho : t'.order = t.order) (hm : t'.messages = t.messages) : t.Grows t' :=
  ⟨fun _ => by rw [ho], fun _ m h => ⟨m, by rw [hm]; exact h, rfl⟩⟩

/-- A message is stored, and listed under the target. -/
def Lists (t : MemoryTranscript) (target : RecordTarget) (id : String) : Prop :=
  id ∈ t.order target.value ∧ (t.messages id).isSome = true

theorem Lists.grow {target : RecordTarget} {id : String} (h : t.Lists target id) (hg : t.Grows t') :
    t'.Lists target id := by
  obtain ⟨hmem, hsome⟩ := h
  obtain ⟨m, hm⟩ := Option.isSome_iff_exists.mp hsome
  obtain ⟨m', hm', -⟩ := hg.role id m hm
  exact ⟨(hg.order _).subset hmem, by rw [hm']; rfl⟩

/-! ## Messages and their order -/

/-- The stored messages are those listed, each once and under one target, and each under its own id;
ids are numbered up to `n`. -/
structure Tables (t : MemoryTranscript) (n : Nat) : Prop where
  nodup : ∀ target, (t.order target).Nodup
  disjoint : ∀ target target' id, id ∈ t.order target → id ∈ t.order target' → target = target'
  stored : ∀ id, (t.messages id).isSome = true ↔ ∃ target, id ∈ t.order target
  own : ∀ id m, t.messages id = some m → m.messageId = some id
  numbered : ∀ id, (t.messages id).isSome = true → ∃ run k, id = msgId run k ∧ k ≤ n

theorem Tables.same (h : t.Tables n) (ho : t'.order = t.order) (hm : t'.messages = t.messages) :
    t'.Tables n := by
  obtain ⟨h₁, h₂, h₃, h₄, h₅⟩ := h
  exact ⟨by rw [ho]; exact h₁, by rw [ho]; exact h₂, by rw [ho, hm]; exact h₃, by rw [hm]; exact h₄,
    by rw [hm]; exact h₅⟩

/-- The next id is new. -/
theorem Tables.fresh (h : t.Tables n) (run : String) : t.messages (msgId run (n + 1)) = none := by
  cases hm : t.messages (msgId run (n + 1)) with
  | none => rfl
  | some m =>
    obtain ⟨run', k, hid, hk⟩ := h.numbered (msgId run (n + 1)) (by rw [hm]; rfl)
    have := msgId_inj hid
    omega

theorem Tables.unlisted (h : t.Tables n) (run target : String) :
    msgId run (n + 1) ∉ t.order target := by
  intro hmem
  have hsome := (h.stored _).mpr ⟨target, hmem⟩
  rw [h.fresh run] at hsome
  cases hsome

theorem mem_order_append {target : RecordTarget} {id id' other : String} {m : Message} :
    id' ∈ (t.append target id m).order other ↔
      id' ∈ t.order other ∨ (other = target.value ∧ id' = id) := by
  simp only [append]
  by_cases ho : other = target.value
  · rw [ho, Function.update_self]
    simp
  · rw [Function.update_of_ne ho]
    simp [ho]

theorem messages_append (t : MemoryTranscript) (target : RecordTarget) (id : String) (m : Message)
    (id' : String) : (t.append target id m).messages id' =
      if id' = id then some { m with messageId := some id } else t.messages id' := by
  simp only [append, Function.update_apply]

theorem grows_append (h : t.Tables n) (run : String) (target : RecordTarget) (m : Message) :
    t.Grows (t.append target (msgId run (n + 1)) m) := by
  refine ⟨fun other => ?_, fun id m' hm' => ⟨m', ?_, rfl⟩⟩
  · simp only [append]
    by_cases ho : other = target.value
    · rw [ho, Function.update_self]
      exact List.prefix_append _ _
    · rw [Function.update_of_ne ho]
  · rw [messages_append, if_neg]
    · exact hm'
    · rintro rfl
      rw [h.fresh run] at hm'
      cases hm'

theorem Tables.append (h : t.Tables n) (run : String) (target : RecordTarget) (m : Message) :
    (t.append target (msgId run (n + 1)) m).Tables (n + 1) where
  nodup other := by
    simp only [MemoryTranscript.append]
    by_cases ho : other = target.value
    · rw [ho, Function.update_self]
      refine List.nodup_append.mpr ⟨h.nodup _, List.nodup_singleton _, fun id hid id' hid' heq => ?_⟩
      rw [List.mem_singleton.mp hid'] at heq
      exact h.unlisted run _ (heq ▸ hid)
    · rw [Function.update_of_ne ho]
      exact h.nodup other
  disjoint other other' id hid hid' := by
    rcases mem_order_append.mp hid with hid | ⟨ho, hnew⟩ <;>
      rcases mem_order_append.mp hid' with hid' | ⟨ho', hnew'⟩
    · exact h.disjoint _ _ id hid hid'
    · exact absurd (hnew' ▸ hid) (h.unlisted run _)
    · exact absurd (hnew ▸ hid') (h.unlisted run _)
    · exact ho.trans ho'.symm
  stored id := by
    rw [messages_append]
    by_cases hid : id = msgId run (n + 1)
    · rw [if_pos hid]
      exact iff_of_true rfl ⟨target.value, mem_order_append.mpr (.inr ⟨rfl, hid⟩)⟩
    · rw [if_neg hid, h.stored id]
      constructor
      · rintro ⟨other, hmem⟩
        exact ⟨other, mem_order_append.mpr (.inl hmem)⟩
      · rintro ⟨other, hmem⟩
        exact ⟨other, (mem_order_append.mp hmem).resolve_right fun hr => hid hr.2⟩
  own id m' hm' := by
    rw [messages_append] at hm'
    split at hm'
    · rename_i hid
      cases hm'
      rw [hid]
    · exact h.own id m' hm'
  numbered id hid := by
    rw [messages_append] at hid
    split at hid
    · rename_i heq
      exact ⟨run, n + 1, heq, Nat.le_refl _⟩
    · obtain ⟨run', k, heq, hk⟩ := h.numbered id hid
      exact ⟨run', k, heq, Nat.le_succ_of_le hk⟩

/-- A stored message is replaced by one with its id and role. -/
theorem Tables.replace (h : t.Tables n) {id : String} {current m : Message}
    (hm : t.messages id = some current) (hid : m.messageId = current.messageId) :
    (t.replaceMessage id m).Tables n := by
  have hsome : ∀ id', ((t.replaceMessage id m).messages id').isSome = (t.messages id').isSome := by
    intro id'
    simp only [replaceMessage, Function.update_apply]
    split
    · rename_i heq
      rw [heq, hm]
      rfl
    · rfl
  refine ⟨h.nodup, h.disjoint, fun id' => (by rw [hsome]; exact h.stored id'), fun id' m' hm' => ?_,
    fun id' hs => h.numbered id' (by rw [← hsome]; exact hs)⟩
  simp only [replaceMessage, Function.update_apply] at hm'
  split at hm'
  · rename_i heq
    cases hm'
    rw [heq, hid]
    exact h.own id current hm
  · exact h.own id' m' hm'

theorem grows_replace {id : String} {current m : Message} (hm : t.messages id = some current)
    (hr : m.role = current.role) : t.Grows (t.replaceMessage id m) := by
  refine ⟨fun _ => List.prefix_refl _, fun id' m' hm' => ?_⟩
  simp only [replaceMessage, Function.update_apply]
  split
  · rename_i heq
    rw [heq, hm] at hm'
    cases hm'
    exact ⟨m, rfl, hr⟩
  · exact ⟨m', hm', rfl⟩

/-- A batch of results, appended one by one. -/
theorem Tables.appendAll (run : String) (target : RecordTarget) :
    ∀ (results : List ToolResult) {t : MemoryTranscript} {n : Nat}, t.Tables n →
      (t.appendAll target (pendingOf run n results)).Tables (n + results.length) ∧
        t.Grows (t.appendAll target (pendingOf run n results)) ∧
        (∀ p ∈ pendingOf run n results,
          (t.appendAll target (pendingOf run n results)).Lists target p.1)
  | [], t, n, h => ⟨h, Grows.refl t, fun _ hp => by cases hp⟩
  | result :: results, t, n, h => by
    have hone := h.append run target (resultMessage result)
    obtain ⟨htables, hgrows, hlists⟩ := Tables.appendAll run target results hone
    have hlen : n + (result :: results).length = n + 1 + results.length := by
      rw [List.length_cons]
      omega
    refine ⟨hlen ▸ htables, (grows_append h run target _).trans hgrows, fun p hp => ?_⟩
    rcases List.mem_cons.mp hp with rfl | hp
    · refine Lists.grow ⟨mem_order_append.mpr (.inr ⟨rfl, rfl⟩), ?_⟩ hgrows
      rw [messages_append, if_pos rfl]
      rfl
    · exact hlists p hp

/-! ## The identities of text -/

/-- Every identity of text points to an assistant message listed under its target; no two to one. -/
structure TextTable (t : MemoryTranscript) : Prop where
  listed : ∀ key id, t.textIds key = some id → id ∈ t.order key.2.2.1 ∧
    ∃ m, t.messages id = some m ∧ m.role = .assistant
  injective : ∀ key key' id, t.textIds key = some id → t.textIds key' = some id → key = key'

theorem TextTable.grow (h : t.TextTable) (hg : t.Grows t') (ht : t'.textIds = t.textIds) :
    t'.TextTable := by
  refine ⟨fun key id hid => ?_, fun key key' id => ?_⟩
  · rw [ht] at hid
    obtain ⟨hmem, m, hm, hr⟩ := h.listed key id hid
    obtain ⟨m', hm', hr'⟩ := hg.role id m hm
    exact ⟨(hg.order _).subset hmem, m', hm', hr'.trans hr⟩
  · rw [ht]
    exact h.injective key key' id

theorem Upserted.consistent {w : Call.TextWrite} {id : String} {created : Bool}
    (hup : t.Upserted w id created t₁) (hw : c.textWrite? = some w) (h : t.Tables t.seq)
    (ht : t.TextTable) :
    t₁.Tables t₁.seq ∧ t₁.TextTable ∧ t.Grows t₁ ∧ t₁.ops = t.ops ∧
      t₁.textIds w.key = some id ∧ t₁.Lists w.target id ∧
      ∃ m, t₁.messages id = some m ∧ m.role = .assistant := by
  obtain ⟨hrole, -, hkey, hrole', hid'⟩ := Call.textWrite?_spec hw
  cases hup with
  | created hnone =>
    have htables := h.append w.key.1 w.target w.fresh
    have hgrows := grows_append h w.key.1 w.target w.fresh
    refine ⟨htables.same rfl rfl, ⟨fun key id hk => ?_, fun key key' id hk hk' => ?_⟩,
      hgrows.trans (.same rfl rfl), rfl, Function.update_self .., ⟨?_, ?_⟩, ?_⟩
    · simp only [MemoryTranscript.append, Function.update_apply] at hk
      split at hk
      · rename_i heq
        cases hk
        rw [heq, hkey]
        refine ⟨mem_order_append.mpr (.inr ⟨rfl, rfl⟩),
          { w.fresh with messageId := some (msgId w.key.1 (t.seq + 1)) }, ?_, hrole⟩
        rw [messages_append, if_pos rfl]
      · obtain ⟨hmem, m, hm, hr⟩ := ht.listed key id hk
        obtain ⟨m', hm', hr'⟩ := hgrows.role id m hm
        exact ⟨(hgrows.order _).subset hmem, m', hm', hr'.trans hr⟩
    · simp only [MemoryTranscript.append, Function.update_apply] at hk hk'
      -- the new identity is that of no stored message
      have hnew : ∀ key, t.textIds key ≠ some (msgId w.key.1 (t.seq + 1)) := by
        intro key hold
        obtain ⟨-, m, hm, -⟩ := ht.listed key _ hold
        rw [h.fresh] at hm
        cases hm
      split at hk <;> split at hk'
      · rename_i h₁ h₂
        rw [h₁, h₂]
      · cases hk
        exact absurd hk' (hnew key')
      · cases hk'
        exact absurd hk (hnew key)
      · exact ht.injective key key' id hk hk'
    · exact mem_order_append.mpr (.inr ⟨rfl, rfl⟩)
    · rw [messages_append, if_pos rfl]
      rfl
    · exact ⟨{ w.fresh with messageId := some (msgId w.key.1 (t.seq + 1)) },
        by rw [messages_append, if_pos rfl], hrole⟩
  | @updated id current hk hm =>
    have hgrows := grows_replace hm (hrole' current)
    obtain ⟨hmem, m, hm', hr⟩ := ht.listed w.key id hk
    rw [hm] at hm'
    cases hm'
    refine ⟨h.replace hm (hid' current), ht.grow hgrows rfl, hgrows, rfl, hk, ⟨?_, ?_⟩,
      ⟨w.update current, Function.update_self .., (hrole' current).trans hr⟩⟩
    · rw [← hkey]
      exact hmem
    · simp only [replaceMessage, Function.update_self, Option.isSome_some]

/-! ## Operations on file -/

/-- A receipt refers to a message listed under the receipt's own target. -/
def Covers (t : MemoryTranscript) : Receipt → Prop
  | .message r => t.Lists r.recordTarget r.messageId
  | .batch b => ∀ id, b.assistantMessageId = some id → t.Lists b.recordTarget id

/-- The receipt of a batch refers to its assistant message, and so does every record of a call. -/
structure BatchSound (t : MemoryTranscript) (b : BatchReceipt) : Prop where
  listed : t.Covers (.batch b)
  role : ∀ id, b.assistantMessageId = some id → ∃ m, t.messages id = some m ∧ m.role = .assistant
  calls : ∀ record ∈ b.calls, b.assistantMessageId = some record.messageId
  recorded : b.recordingRequired = true → b.assistantMessageId.isSome = true

/-- What an operation on file vouches for: the receipts it issued, and a batch it was given. -/
structure Vouches (t : MemoryTranscript) (op : CommittedOp) : Prop where
  receipts : ∀ r ∈ op.messageReceipts, t.Covers (.message r)
  receipt : op.messageReceipt = op.messageReceipts.head?
  batch : ∀ b, op.batchReceipt = some b → t.BatchSound b
  given : ∀ b, op.previousReceipt = some (.batch b) → t.Covers (.batch b)

theorem Covers.grow {r : Receipt} (h : t.Covers r) (hg : t.Grows t') : t'.Covers r := by
  cases r with
  | message r => exact Lists.grow h hg
  | batch b => exact fun id hid => (h id hid).grow hg

theorem BatchSound.grow {b : BatchReceipt} (h : t.BatchSound b) (hg : t.Grows t') :
    t'.BatchSound b := by
  refine ⟨h.listed.grow hg, fun id hid => ?_, h.calls, h.recorded⟩
  obtain ⟨m, hm, hr⟩ := h.role id hid
  obtain ⟨m', hm', hr'⟩ := hg.role id m hm
  exact ⟨m', hm', hr'.trans hr⟩

theorem Vouches.grow {op : CommittedOp} (h : t.Vouches op) (hg : t.Grows t') : t'.Vouches op :=
  ⟨fun r hr => (h.receipts r hr).grow hg, h.receipt, fun b hb => (h.batch b hb).grow hg,
    fun b hb => (h.given b hb).grow hg⟩

/-- The tables of a transcript fit together. -/
structure Consistent (t : MemoryTranscript) : Prop where
  tables : t.Tables t.seq
  texts : t.TextTable
  ops : ∀ opId op, t.ops opId = some op → t.Vouches op

theorem consistent_empty (tools : List String) : (empty tools).Consistent := by
  refine ⟨⟨fun _ => List.nodup_nil, fun _ _ _ h => (by cases h), fun id => ?_, fun _ _ h => (by cases h),
    fun _ h => by cases h⟩, ⟨fun _ _ h => (by cases h), fun _ _ _ h => by cases h⟩,
    fun _ _ h => by cases h⟩
  exact iff_of_false (fun h => by cases h) fun ⟨_, h⟩ => by cases h

theorem Consistent.rejected (h : t.Consistent) (hr : t.Rejected t') : t'.Consistent := by
  have hg : t.Grows t' := .same hr.order hr.messages
  refine ⟨?_, h.texts.grow hg hr.textIds, fun opId op ho => ?_⟩
  · obtain ⟨h₁, h₂, h₃, h₄, h₅⟩ := h.tables.same hr.order hr.messages
    refine ⟨h₁, h₂, h₃, h₄, fun id hid => ?_⟩
    obtain ⟨run, k, heq, hk⟩ := h₅ id hid
    exact ⟨run, k, heq, Nat.le_trans hk hr.seq⟩
  · rw [hr.ops] at ho
    exact (h.ops opId op ho).grow hg

/-- A batch that has the identity of a sound one refers to the same message. -/
theorem BatchSound.covers_identity {b b' : BatchReceipt} (h : t.BatchSound b)
    (hid : b.identity = b'.identity) : t.Covers (.batch b') := by
  simp only [BatchReceipt.identity, ReceiptIdentity.batch.injEq] at hid
  obtain ⟨-, -, -, htarget, -, -, hmsg, -⟩ := hid
  intro id hid'
  rw [← htarget]
  exact h.listed id (hmsg.trans hid')

/-- The batch a call supplies was checked against the one on file. -/
theorem Consistent.given (h : t.Consistent) (hchecked : t.Checked c) {b : BatchReceipt}
    (hb : c.previous? = some (.batch b)) : t.Covers (.batch b) := by
  have hstored : ∀ b', t.committedBatch b = some b' → t.BatchSound b' := by
    intro b' hb'
    obtain ⟨op, ho, hop⟩ := Option.bind_eq_some_iff.mp hb'
    exact (h.ops _ op ho).batch b' hop
  cases c with
  | recordInput a | finalizeRun _ _ => cases hb
  | recordTextDelta a | recordTextFinal a =>
    simp only [Call.previous?, Option.map_eq_some_iff] at hb
    obtain ⟨r, -, hr⟩ := hb
    cases hr
  | recordToolCalls a =>
    simp only [Call.previous?, Option.map_eq_some_iff] at hb
    obtain ⟨b', hprev, hr⟩ := hb
    cases hr
    obtain ⟨b', hb', hid⟩ := Option.map_eq_some_iff.mp (hchecked b hprev)
    exact (hstored b' hb').covers_identity hid
  | recordToolResults a =>
    cases hb
    obtain ⟨b', hans⟩ := hchecked
    exact (hstored b' hans.committed).covers_identity hans.identity

/-- What a first submission writes. -/
theorem Commits.consistent {receipts : List MessageReceipt} {batch : Option BatchReceipt}
    {r : Reply} (h : t.Commits c receipts batch r t₁) (hc : t.Consistent) :
    t₁.Tables t₁.seq ∧ t₁.TextTable ∧ t.Grows t₁ ∧ t₁.ops = t.ops ∧
      (∀ r ∈ receipts, t₁.Covers (.message r)) ∧ ∀ b, batch = some b → t₁.BatchSound b := by
  cases h with
  | input a =>
    have htables := hc.tables.append a.runId a.recordTarget a.message
    have hgrows := grows_append hc.tables a.runId a.recordTarget a.message
    refine ⟨htables.same rfl rfl, hc.texts.grow (hgrows.trans (.same rfl rfl)) rfl,
      hgrows.trans (.same rfl rfl), rfl, fun r hr => ?_, fun _ hb => by cases hb⟩
    rw [List.mem_singleton.mp hr]
    refine ⟨mem_order_append.mpr (.inr ⟨rfl, rfl⟩), ?_⟩
    simp only [receiptOf, messages_append, if_pos, Option.isSome_some]
  | text hkind hw hup =>
    obtain ⟨htables, htexts, hgrows, hops, -, hlists, -⟩ := hup.consistent hw hc.tables hc.texts
    refine ⟨htables, htexts, hgrows, hops, fun r hr => ?_, fun _ hb => by cases hb⟩
    rw [List.mem_singleton.mp hr]
    exact hlists
  | toolCalls hrec hw hup =>
    obtain ⟨htables, htexts, hgrows, hops, -, hlists, hrole⟩ := hup.consistent hw hc.tables hc.texts
    cases hw
    refine ⟨htables, htexts, hgrows, hops, fun r hr => (by cases hr), fun b hb => ?_⟩
    cases hb
    refine ⟨fun id hid => ?_, fun id hid => ?_, fun record hrecord => ?_, fun _ => rfl⟩
    · cases hid
      exact hlists
    · cases hid
      exact hrole
    · obtain ⟨call, -, rfl⟩ := List.mem_map.mp hrecord
      rfl
  | unrecordedCalls hrec =>
    refine ⟨hc.tables, hc.texts, .refl t, rfl, fun r hr => (by cases hr), fun b hb => ?_⟩
    cases hb
    exact ⟨fun _ hid => (by cases hid), fun _ hid => (by cases hid), fun _ hr => (by cases hr),
      fun hreq => by cases hreq⟩
  | @toolResults a b hans hreq hknown =>
    have hcounted : ({ t with seq := t.seq + a.results.length } : MemoryTranscript).Tables t.seq :=
      hc.tables.same rfl rfl
    obtain ⟨htables, hgrows, hlists⟩ := Tables.appendAll a.runId a.recordTarget a.results hcounted
    obtain ⟨hseq, htext, hops, -⟩ := appendAll_frame a.recordTarget
      (pendingOf a.runId t.seq a.results) { t with seq := t.seq + a.results.length }
    have hseqs : t.Grows { t with seq := t.seq + a.results.length } := .same rfl rfl
    have hg : t.Grows _ := hseqs.trans hgrows
    refine ⟨by rw [hseq]; exact htables, hc.texts.grow hg htext, hg, hops, fun r hr => ?_,
      fun _ hb => by cases hb⟩
    obtain ⟨p, hp, rfl⟩ := List.mem_map.mp hr
    exact hlists p hp
  | runFinal runId status =>
    exact ⟨hc.tables.same rfl rfl, hc.texts.grow (.same rfl rfl) rfl, .same rfl rfl, rfl,
      fun _ hr => (by cases hr), fun _ hb => by cases hb⟩

/-! ## One call -/

/-- What a receipt that is handed out stands for. -/
def Backs (t : MemoryTranscript) : Receipt → Prop
  | .message r => t.Covers (.message r)
  | .batch b => t.BatchSound b

theorem Vouches.storeOp {op op' : CommittedOp} (h : t.Vouches op) : (t.storeOp op').Vouches op :=
  h.grow (.same rfl rfl)

/-- A replay hands out what is on file. -/
theorem Vouches.echo {op : CommittedOp} {r : Reply} (h : t.Vouches op)
    (he : MemoryTranscript.echo op c = .ok r) : ∀ receipt ∈ r.receipts, t.Backs receipt := by
  cases c with
  | recordInput a | recordTextDelta a | recordTextFinal a =>
    simp only [MemoryTranscript.echo] at he
    split at he
    · rename_i receipt hop
      cases he
      intro receipt' hm
      rw [List.mem_singleton.mp hm]
      exact h.receipts receipt (List.mem_of_mem_head? (h.receipt ▸ hop))
    · cases he
  | recordToolCalls a =>
    simp only [MemoryTranscript.echo] at he
    split at he
    · rename_i b hop
      cases he
      intro receipt' hm
      rw [List.mem_singleton.mp hm]
      obtain ⟨hlisted, hrole, hcalls, hrecorded⟩ := h.batch b hop
      exact ⟨hlisted, hrole, hcalls, hrecorded⟩
    · cases he
  | recordToolResults a =>
    cases he
    intro receipt hm
    obtain ⟨r, hr, rfl⟩ := List.mem_map.mp hm
    obtain ⟨r', hr', rfl⟩ := List.mem_map.mp hr
    exact h.receipts r' hr'
  | finalizeRun runId status =>
    cases he
    exact fun _ hm => by cases hm

/-- Every call keeps the tables together, extends them, and hands out sound receipts. -/
theorem Consistent.exec (h : t.Consistent) (c : Call) :
    (c.exec t).2.Consistent ∧ t.Grows (c.exec t).2 ∧
      ∀ r, (c.exec t).1 = .ok r → ∀ receipt ∈ r.receipts, (c.exec t).2.Backs receipt := by
  have hout := t.exec_outcome c
  generalize hr : (c.exec t).1 = result at hout
  generalize (c.exec t).2 = t' at hout
  cases hout with
  | failed hrej =>
    exact ⟨h.rejected hrej, .same hrej.order hrej.messages, fun r he => by cases he⟩
  | replayed ho ha =>
    refine ⟨h, .refl t, fun r he => ?_⟩
    cases he
    exact (h.ops _ _ ho).echo (answer_ok ha).2
  | skipped hc ho hb hreq =>
    refine ⟨h, .refl t, fun r he => ?_⟩
    cases he
    exact fun _ hm => by cases hm
  | @committed receipts batch reply t₁ hf ho hchecked hcommit =>
    obtain ⟨htables, htexts, hgrows, hops, hreceipts, hbatch⟩ := hcommit.consistent h
    have hnew : t₁.Vouches (c.operation receipts batch) :=
      ⟨hreceipts, rfl, hbatch, fun b hb => (h.given hchecked hb).grow hgrows⟩
    refine ⟨⟨htables.same rfl rfl, htexts.grow (.same rfl rfl) rfl, fun opId op hop => ?_⟩,
      hgrows.trans (.same rfl rfl), fun r he receipt hm => ?_⟩
    · rcases storeOp_ops hop with ⟨-, rfl⟩ | hold
      · exact hnew.storeOp
      · exact ((h.ops opId op (hops ▸ hold)).grow hgrows).storeOp
    · cases he
      cases hcommit with
      | input _ | text _ _ _ =>
        rw [List.mem_singleton.mp hm]
        exact hreceipts _ List.mem_cons_self
      | toolCalls _ _ _ | unrecordedCalls _ =>
        rw [List.mem_singleton.mp hm]
        exact (hbatch _ rfl).grow (.same rfl rfl)
      | toolResults _ _ _ =>
        obtain ⟨r, hr, rfl⟩ := List.mem_map.mp hm
        exact hreceipts r hr
      | runFinal _ _ => cases hm

theorem Consistent.injectWriteFailure (h : t.Consistent) (opId : String) :
    (t.injectWriteFailure opId).Consistent :=
  ⟨h.tables.same rfl rfl, h.texts.grow (.same rfl rfl) rfl,
    fun opId op ho => (h.ops opId op ho).grow (.same rfl rfl)⟩

theorem Reachable.consistent {P : MemoryTranscript → Call → Prop} (h : t.Reachable P) :
    t.Consistent := by
  induction h with
  | empty tools => exact consistent_empty tools
  | call c _ _ ih => exact (ih.exec c).1
  | failure opId _ ih => exact ih.injectWriteFailure opId

/-! ## Supplied receipts -/

/-- The message receipts that operations on file were given refer to what they say. -/
def GivenCovered (t : MemoryTranscript) : Prop :=
  ∀ opId op r, t.ops opId = some op → op.previousReceipt = some (.message r) →
    t.Covers (.message r)

/-- A message receipt that a first submission gets away with names a message of its own target. -/
def Vouched (t : MemoryTranscript) (c : Call) : Prop :=
  ∀ r, c.previous? = some (.message r) → c.opId ∉ t.failOps → t.ops c.opId = none →
    t.Checked c → t.Covers (.message r)

/-- In a consistent state a text can be written under any key. -/
theorem Consistent.upsertText (h : t.Consistent) (key : TextKey) (target : RecordTarget) (fresh : Message)
    (update : Message → Message) :
    ∃ id created t', t.upsertText key target fresh update = (.ok (id, created), t') := by
  unfold MemoryTranscript.upsertText
  cases hkey : t.textIds key with
  | none => exact ⟨_, _, _, rfl⟩
  | some id =>
    obtain ⟨-, m, hm, -⟩ := h.texts.listed key id hkey
    simp only [hm]
    exact ⟨_, _, _, rfl⟩

/-- A first submission that passes the checks of its receipt is committed, unless it mixes recorded and
unrecorded tools, or submits results. -/
theorem Consistent.commits (h : t.Consistent) (hf : c.opId ∉ t.failOps) (ho : t.ops c.opId = none)
    (hchecked : t.Checked c) (hkind : c.kind ≠ .toolResults)
    (hrec : ∀ a, c = .recordToolCalls a → ∃ skipped, t.unrecorded a.calls = .ok skipped) :
    ∃ reply, (c.exec t).1 = .ok reply := by
  cases c with
  | recordInput a =>
    have hf' : a.logicalOpId ∉ t.failOps := hf
    have ho' : t.ops a.logicalOpId = none := ho
    simp only [Call.exec, recordInput, once, if_neg hf', ho']
    exact ⟨_, rfl⟩
  | recordTextDelta a =>
    obtain ⟨id, created, t', hup⟩ := h.upsertText (a.runId, a.stepNo, a.recordTarget.value, a.attempt)
      a.recordTarget { role := .assistant, content := some a.text }
      fun current => { current with content := some (current.content.getD "" ++ a.text) }
    have hnone : a.previousReceipt.filter (fun r => (t.messages r.messageId).isNone) = none := by
      cases hprev : a.previousReceipt with
      | none => rfl
      | some r => simp [Option.filter, Option.isSome_iff_ne_none.mp (hchecked r hprev)]
    have hf' : a.logicalOpId ∉ t.failOps := hf
    have ho' : t.ops a.logicalOpId = none := ho
    simp only [Call.exec, recordTextDelta, once, if_neg hf', ho', hnone, hup]
    exact ⟨_, rfl⟩
  | recordTextFinal a =>
    obtain ⟨id, created, t', hup⟩ := h.upsertText (a.runId, a.stepNo, a.recordTarget.value, a.attempt)
      a.recordTarget
      { role := .assistant, content := a.text, reasoning := a.reasoning, toolCalls := a.toolCalls }
      fun current => { current with
        content := orCurrent a.text current.content
        reasoning := orCurrent a.reasoning current.reasoning
        toolCalls := if a.toolCalls.isEmpty then current.toolCalls else a.toolCalls }
    have hnone : t.checkFinalReceipt a.previousReceipt = none := by
      cases hprev : a.previousReceipt with
      | none => rfl
      | some r =>
        obtain ⟨hop, hm⟩ := hchecked r hprev
        simp [checkFinalReceipt, Option.isSome_iff_ne_none.mp hm, Option.isSome_iff_ne_none.mp hop]
    have hf' : a.logicalOpId ∉ t.failOps := hf
    have ho' : t.ops a.logicalOpId = none := ho
    simp only [Call.exec, recordTextFinal, once, if_neg hf', ho', hnone, hup]
    exact ⟨_, rfl⟩
  | recordToolCalls a =>
    obtain ⟨id, created, t', hup⟩ := h.upsertText (a.runId, a.stepNo, a.recordTarget.value, a.attempt)
      a.recordTarget
      { role := .assistant, content := a.assistantText, reasoning := a.reasoning, toolCalls := a.calls }
      fun current => { current with
        content := orCurrent a.assistantText current.content
        reasoning := orCurrent a.reasoning current.reasoning
        toolCalls := a.calls }
    have hnone : (a.previousReceipt.filter fun r =>
        (t.committedBatch r).map (·.identity) ≠ some r.identity) = none := by
      cases hprev : a.previousReceipt with
      | none => rfl
      | some r => simp [Option.filter, hchecked r hprev]
    obtain ⟨skipped, hskipped⟩ := hrec a rfl
    have hf' : a.logicalOpId ∉ t.failOps := hf
    have ho' : t.ops a.logicalOpId = none := ho
    simp only [Call.exec, recordToolCalls, once, if_neg hf', ho', hnone, hskipped]
    cases skipped with
    | true => exact ⟨_, rfl⟩
    | false =>
      simp only [hup]
      exact ⟨_, rfl⟩
  | recordToolResults a => exact absurd rfl hkind
  | finalizeRun runId status =>
    have hf' : finalizeOp runId status ∉ t.failOps := hf
    have ho' : t.ops (finalizeOp runId status) = none := ho
    simp only [Call.exec, finalizeRun, once, if_neg hf', ho']
    exact ⟨_, rfl⟩

/-- A first submission of text that passes the checks of its receipt is committed. -/
theorem Consistent.accepts (h : t.Consistent) {r : MessageReceipt}
    (hp : c.previous? = some (.message r)) (hf : c.opId ∉ t.failOps) (ho : t.ops c.opId = none)
    (hchecked : t.Checked c) :
    (t.messages r.messageId).isSome = true ∧ ∃ reply, (c.exec t).1 = .ok reply := by
  cases c with
  | recordInput _ | recordToolResults _ | finalizeRun _ _ => cases hp
  | recordToolCalls a =>
    obtain ⟨b, -, hb⟩ := Option.map_eq_some_iff.mp hp
    cases hb
  | recordTextDelta a =>
    obtain ⟨r', hprev, hr⟩ := Option.map_eq_some_iff.mp hp
    cases hr
    exact ⟨hchecked r hprev, h.commits hf ho hchecked (fun hk => by cases hk) fun _ he => by cases he⟩
  | recordTextFinal a =>
    obtain ⟨r', hprev, hr⟩ := Option.map_eq_some_iff.mp hp
    cases hr
    exact ⟨(hchecked r hprev).2, h.commits hf ho hchecked (fun hk => by cases hk) fun _ he => by cases he⟩

/-- A call keeps the supplied receipts covered exactly when it is vouched for. -/
theorem GivenCovered.exec (hg : t.GivenCovered) (hc : t.Consistent) :
    (c.exec t).2.GivenCovered ↔ t.Vouched c := by
  obtain ⟨hc', hgrows, -⟩ := hc.exec c
  have hout := t.exec_outcome c
  constructor
  · intro hg' r hp hf ho hchecked
    obtain ⟨hm, reply, hreply⟩ := hc.accepts hp hf ho hchecked
    rw [hreply] at hout
    obtain ⟨other, hlisted⟩ := (hc.tables.stored _).mp hm
    suffices hcovers : (c.exec t).2.Covers (.message r) by
      have htarget : other = r.recordTarget.value :=
        hc'.tables.disjoint _ _ _ ((hgrows.order other).subset hlisted) hcovers.1
      exact ⟨htarget ▸ hlisted, hm⟩
    generalize (c.exec t).2 = t' at hout hg'
    cases hout with
    | replayed ho' _ =>
      rw [ho] at ho'
      cases ho'
    | skipped hk _ _ _ =>
      rw [hk] at hp
      cases hp
    | committed _ _ _ _ =>
      exact hg' c.opId _ r (Function.update_self ..) hp
  · intro hv
    have hkeep : (c.exec t).2.ops = t.ops → (c.exec t).2.GivenCovered := fun ho opId op r hop hp =>
      (hg opId op r (ho ▸ hop) hp).grow hgrows
    generalize (c.exec t).1 = result at hout
    generalize (c.exec t).2 = t' at hout hgrows hkeep
    cases hout with
    | failed hrej => exact hkeep hrej.ops
    | replayed _ _ | skipped _ _ _ _ => exact hkeep rfl
    | @committed receipts batch reply t₁ hf ho hchecked hcommit =>
      intro opId op r hop hp
      rcases storeOp_ops hop with ⟨-, rfl⟩ | hold
      · exact (hv r hp hf ho hchecked).grow hgrows
      · exact (hg opId op r ((hcommit.consistent hc).2.2.2.1 ▸ hold) hp).grow hgrows

theorem Reachable.givenCovered (h : t.Reachable Vouched) : t.GivenCovered := by
  induction h with
  | empty tools => exact fun _ _ _ h => by cases h
  | call c hr hc ih => exact (ih.exec hr.consistent).mpr hc
  | failure opId _ ih => exact fun id op r ho hp => (ih id op r ho hp).grow (.same rfl rfl)

/-- **The tables.** In every reachable state the tables fit together, and every call extends every
target at its end and hands out sound receipts. The receipts that operations were given are sound
too, from one state to the next, exactly if text is never given a message of another target. -/
theorem reachable_consistent (t : MemoryTranscript) (h : t.Reachable fun _ _ => True) :
    t.Consistent ∧
      (∀ c : Call, t.Grows (c.exec t).2 ∧
        ∀ r, (c.exec t).1 = .ok r → ∀ receipt ∈ r.receipts, (c.exec t).2.Backs receipt) ∧
      (t.GivenCovered → ∀ c : Call, (c.exec t).2.GivenCovered ↔ t.Vouched c) ∧
      (t.Reachable Vouched → t.GivenCovered) :=
  ⟨h.consistent, fun c => (h.consistent.exec c).2, fun hg _ => hg.exec h.consistent,
    fun hv => hv.givenCovered⟩

/-- Text that goes on, on another target, with the receipt of the one before. -/
def strayDelta : Call :=
  .recordTextDelta {
    runId := "r", stepNo := 1, recordTarget := ⟨"t"⟩, text := "b", logicalOpId := "2", attempt := 1
    previousReceipt := some ⟨"msg:r:1", "r", some 1, ⟨"u"⟩, "1", true⟩ }

def oneDelta : MemoryTranscript :=
  ((Call.recordTextDelta {
    runId := "r", stepNo := 1, recordTarget := ⟨"t"⟩, text := "a", logicalOpId := "1"
    attempt := 1 }).exec empty).2

/-- The text goes on, with the receipt that was issued for the one before. -/
def nextDelta : Call :=
  .recordTextDelta {
    runId := "r", stepNo := 1, recordTarget := ⟨"t"⟩, text := "b", logicalOpId := "2", attempt := 1
    previousReceipt := some ⟨"msg:r:1", "r", some 1, ⟨"t"⟩, "1", true⟩ }

def twoDeltas : MemoryTranscript := (nextDelta.exec oneDelta).2

theorem twoDeltas_consistent :
    (twoDeltas.ops "2").bind (·.previousReceipt) = some (.message ⟨"msg:r:1", "r", some 1, ⟨"t"⟩, "1", true⟩) ∧
      twoDeltas.Consistent ∧ twoDeltas.GivenCovered := by
  have hvouched : oneDelta.Vouched nextDelta := fun r hp _ _ _ => by
    obtain rfl : r = ⟨"msg:r:1", "r", some 1, ⟨"t"⟩, "1", true⟩ := by cases hp; rfl
    exact ⟨List.mem_singleton.mpr rfl, rfl⟩
  have h : twoDeltas.Reachable Vouched :=
    .call _ (.call _ (.empty []) fun _ hp => by cases hp) hvouched
  obtain ⟨hc, -, -, hg⟩ := reachable_consistent twoDeltas (h.mono fun _ _ _ => trivial)
  exact ⟨rfl, hc, hg h⟩

/-- The operation keeps a receipt of a message that its target does not list. -/
theorem strayDelta_keeps :
    (strayDelta.exec oneDelta).2.Reachable (fun _ _ => True) ∧
      ((strayDelta.exec oneDelta).2.ops "2").bind (·.previousReceipt) =
        some (.message ⟨"msg:r:1", "r", some 1, ⟨"u"⟩, "1", true⟩) ∧
      "msg:r:1" ∉ (strayDelta.exec oneDelta).2.order "u" :=
  ⟨.call _ (.call _ (.empty []) trivial) trivial, rfl, by decide⟩

end MemoryTranscript

end AgentRuntime
