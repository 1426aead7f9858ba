import AgentRuntime.Async.Trace
import AgentRuntime.Recording.Exchange
import AgentRuntime.Recording.Reuse

/-!
# The results of a batch

The TOOL messages that are committed for one batch, after any calls on the transcript.

* `ResultOf`, `AnsweredOnce` — the messages of the operations that were given the receipt of the batch,
  and no two of them for one call;
* `Takes` — a first submission of results that the recorder commits; `Fresh` — one that names no call
  twice, and none that has a result already;
* `Tally` — the messages with their calls; `Tally.exec` — what a call does to them;
* `answeredOnce_iff` — of every history, no call has two results exactly if every submission was fresh.
-/

set_option autoImplicit false

namespace AgentRuntime

namespace MemoryTranscript

variable {t t' : MemoryTranscript} {c : Call} {batch : String} {n : Nat}

/-- The operation was given the receipt of the batch. -/
def GivenBatch (op : CommittedOp) (batch : String) : Prop :=
  ∃ b, op.previousReceipt = some (.batch b) ∧ b.logicalOpId = batch

/-- A message that was committed as a result of the batch. -/
def ResultOf (t : MemoryTranscript) (batch id : String) : Prop :=
  ∃ opId op, t.ops opId = some op ∧ op.kind = .toolResults ∧ GivenBatch op batch ∧
    ∃ r ∈ op.messageReceipts, r.messageId = id

/-- No two results of the batch are for one call. -/
def AnsweredOnce (t : MemoryTranscript) (batch : String) : Prop :=
  ∀ id id' m m', t.ResultOf batch id → t.ResultOf batch id' → t.messages id = some m →
    t.messages id' = some m' → m.toolCallId = m'.toolCallId → id = id'

/-- A result of the batch is for the call. -/
def HasResult (t : MemoryTranscript) (batch callId : String) : Prop :=
  ∃ id m, t.ResultOf batch id ∧ t.messages id = some m ∧ m.toolCallId = some callId

/-- A first submission of results for the batch, which is committed. -/
structure Takes (t : MemoryTranscript) (batch : String) (a : ResultsArgs) (b : BatchReceipt) : Prop where
  given : a.previousReceipt.logicalOpId = batch
  spared : a.logicalOpId ∉ t.failOps
  first : t.ops a.logicalOpId = none
  answers : t.Answers a b
  required : b.recordingRequired = true
  known : ∀ result ∈ a.results, (knownCall b.calls result.callId).isSome = true

/-- If it is one, it names no call twice, and none that has a result already. -/
def Fresh (t : MemoryTranscript) (batch : String) (c : Call) : Prop :=
  ∀ a b, c = .recordToolResults a → t.Takes batch a b →
    (a.results.map (·.callId)).Nodup ∧ ∀ result ∈ a.results, ¬ t.HasResult batch result.callId

/-! ## The messages of a submission -/

/-- The ids of the results, with the calls they are for. -/
def resultIds (runId : String) : Nat → List ToolResult → List (String × String)
  | _, [] => []
  | n, result :: results => (msgId runId (n + 1), result.callId) :: resultIds runId (n + 1) results

theorem resultIds_fst (runId : String) : ∀ (n : Nat) (results : List ToolResult),
    (resultIds runId n results).map Prod.fst = (pendingOf runId n results).map Prod.fst
  | _, [] => rfl
  | n, _ :: results => congrArg (msgId runId (n + 1) :: ·) (resultIds_fst runId (n + 1) results)

theorem resultIds_snd (runId : String) : ∀ (n : Nat) (results : List ToolResult),
    (resultIds runId n results).map Prod.snd = results.map (·.callId)
  | _, [] => rfl
  | n, result :: results => congrArg (result.callId :: ·) (resultIds_snd runId (n + 1) results)

theorem resultIds_numbered (runId : String) : ∀ (n : Nat) (results : List ToolResult),
    ∀ e ∈ resultIds runId n results, ∃ k, n < k ∧ e.1 = msgId runId k
  | _, [], _, he => by cases he
  | n, result :: results, e, he => by
    rcases List.mem_cons.mp he with rfl | he
    · exact ⟨n + 1, Nat.lt_succ_self n, rfl⟩
    · obtain ⟨k, hk, hid⟩ := resultIds_numbered runId (n + 1) results e he
      exact ⟨k, by omega, hid⟩

theorem resultIds_nodup (runId : String) : ∀ (n : Nat) (results : List ToolResult),
    ((resultIds runId n results).map Prod.fst).Nodup
  | _, [] => List.nodup_nil
  | n, result :: results => by
    refine List.nodup_cons.mpr ⟨fun hmem => ?_, resultIds_nodup runId (n + 1) results⟩
    obtain ⟨e, he, heq⟩ := List.mem_map.mp hmem
    obtain ⟨k, hk, hid⟩ := resultIds_numbered runId (n + 1) results e he
    have := msgId_inj (heq.symm.trans hid)
    omega

/-- A stored message stays as it is while results are appended. -/
theorem appendAll_keeps (runId : String) (target : RecordTarget) {id : String} {m : Message} :
    ∀ (results : List ToolResult) {t : MemoryTranscript} {n : Nat}, t.Tables n →
      t.messages id = some m →
        (t.appendAll target (pendingOf runId n results)).messages id = some m
  | [], _, _, _, hm => hm
  | result :: results, t, n, h, hm => by
    refine appendAll_keeps runId target results (h.append runId target (resultMessage result)) ?_
    rw [messages_append, if_neg]
    · exact hm
    · rintro rfl
      rw [h.fresh runId] at hm
      cases hm

/-- Each result is stored under its id. -/
theorem appendAll_stores (runId : String) (target : RecordTarget) :
    ∀ (results : List ToolResult) {t : MemoryTranscript} {n : Nat}, t.Tables n →
      ∀ e ∈ resultIds runId n results, ∃ m,
        (t.appendAll target (pendingOf runId n results)).messages e.1 = some m ∧ m.role = .tool ∧
          m.toolCallId = some e.2
  | [], _, _, _, _, he => by cases he
  | result :: results, t, n, h, e, he => by
    have hone := h.append runId target (resultMessage result)
    rcases List.mem_cons.mp he with rfl | he
    · refine ⟨{ resultMessage result with messageId := some (msgId runId (n + 1)) }, ?_, rfl, rfl⟩
      refine appendAll_keeps runId target results hone ?_
      rw [messages_append, if_pos rfl]
    · exact appendAll_stores runId target results hone e he

/-! ## The tally of a batch -/

/-- The results of the batch are the messages listed, each with the call it is for. -/
structure Tally (t : MemoryTranscript) (batch : String) (entries : List (String × String)) : Prop where
  results : ∀ id, t.ResultOf batch id ↔ id ∈ entries.map Prod.fst
  nodup : (entries.map Prod.fst).Nodup
  stored : ∀ e ∈ entries, ∃ m, t.messages e.1 = some m ∧ m.role = .tool ∧ m.toolCallId = some e.2

theorem tally_empty (tools : List String) : (empty tools).Tally batch [] :=
  ⟨fun _ => iff_of_false (fun ⟨_, _, ho, _⟩ => by cases ho) (fun h => by cases h), List.nodup_nil,
    fun _ h => by cases h⟩

variable {entries : List (String × String)}

theorem Tally.hasResult (h : t.Tally batch entries) (callId : String) :
    t.HasResult batch callId ↔ callId ∈ entries.map Prod.snd := by
  constructor
  · rintro ⟨id, m, hres, hm, hcall⟩
    obtain ⟨e, he, rfl⟩ := List.mem_map.mp ((h.results id).mp hres)
    obtain ⟨m', hm', -, hcall'⟩ := h.stored e he
    obtain rfl := Option.some.inj (hm.symm.trans hm')
    obtain rfl := Option.some.inj (hcall.symm.trans hcall')
    exact List.mem_map_of_mem he
  · intro hmem
    obtain ⟨e, he, rfl⟩ := List.mem_map.mp hmem
    obtain ⟨m, hm, -, hcall⟩ := h.stored e he
    exact ⟨e.1, m, (h.results e.1).mpr (List.mem_map_of_mem he), hm, hcall⟩

/-- No call has two results exactly if the listed calls are distinct. -/
theorem Tally.answeredOnce (h : t.Tally batch entries) :
    t.AnsweredOnce batch ↔ (entries.map Prod.snd).Nodup := by
  constructor
  · intro honce
    rw [List.nodup_map_iff_inj_on (List.Nodup.of_map _ h.nodup)]
    intro e he e' he' hcall
    obtain ⟨m, hm, -, hm₁⟩ := h.stored e he
    obtain ⟨m', hm', -, hm₁'⟩ := h.stored e' he'
    have hid : e.1 = e'.1 := honce e.1 e'.1 m m' ((h.results _).mpr (List.mem_map_of_mem he))
      ((h.results _).mpr (List.mem_map_of_mem he')) hm hm' (by rw [hm₁, hm₁', hcall])
    exact Prod.ext hid hcall
  · intro hnodup id id' m m' hres hres' hm hm' hcall
    obtain ⟨e, he, rfl⟩ := List.mem_map.mp ((h.results id).mp hres)
    obtain ⟨e', he', rfl⟩ := List.mem_map.mp ((h.results id').mp hres')
    obtain ⟨m₁, hm₁, -, hcall₁⟩ := h.stored e he
    obtain ⟨m₁', hm₁', -, hcall₁'⟩ := h.stored e' he'
    obtain rfl := Option.some.inj (hm.symm.trans hm₁)
    obtain rfl := Option.some.inj (hm'.symm.trans hm₁')
    have hsame : e.2 = e'.2 := Option.some.inj (hcall₁.symm.trans (hcall.trans hcall₁'))
    exact congrArg Prod.fst (List.inj_on_of_nodup_map hnodup he he' hsame)

theorem Tally.same (h : t.Tally batch entries) (hresults : ∀ id, t'.ResultOf batch id ↔ t.ResultOf batch id)
    (hmessages : ∀ id m, t.messages id = some m → m.role = .tool → t'.messages id = some m) :
    t'.Tally batch entries := by
  refine ⟨fun id => (hresults id).trans (h.results id), h.nodup, fun e he => ?_⟩
  obtain ⟨m, hm, hrole, hcall⟩ := h.stored e he
  exact ⟨m, hmessages e.1 m hm hrole, hrole, hcall⟩

/-- What is a result after an operation is filed. -/
theorem resultOf_storeOp {t₁ : MemoryTranscript} {op : CommittedOp} (hops : t₁.ops = t.ops)
    (ho : t.ops op.logicalOpId = none) (id : String) :
    (t₁.storeOp op).ResultOf batch id ↔ t.ResultOf batch id ∨
      (op.kind = .toolResults ∧ GivenBatch op batch ∧ ∃ r ∈ op.messageReceipts, r.messageId = id) := by
  constructor
  · rintro ⟨opId, op', hop, hkind, hgiven, hr⟩
    rcases storeOp_ops hop with ⟨-, rfl⟩ | hold
    · exact .inr ⟨hkind, hgiven, hr⟩
    · exact .inl ⟨opId, op', hops ▸ hold, hkind, hgiven, hr⟩
  · rintro (⟨opId, op', hop, hkind, hgiven, hr⟩ | ⟨hkind, hgiven, hr⟩)
    · refine ⟨opId, op', ?_, hkind, hgiven, hr⟩
      have hne : opId ≠ op.logicalOpId := by
        rintro rfl
        rw [ho] at hop
        cases hop
      change Function.update t₁.ops op.logicalOpId (some op) opId = some op'
      rw [Function.update_of_ne hne, hops]
      exact hop
    · exact ⟨op.logicalOpId, op, Function.update_self .., hkind, hgiven, hr⟩

/-- The submission that is taken. -/
theorem Takes.unique {a : ResultsArgs} {b b' : BatchReceipt} (h : t.Takes batch a b) (hb : t.Answers a b') :
    b' = b := Option.some.inj (hb.committed.symm.trans h.answers.committed)

/-- It is committed indeed. -/
theorem Takes.returns {a : ResultsArgs} {b : BatchReceipt} (h : t.Takes batch a b) (hc : t.Consistent) :
    ∃ r, ((Call.recordToolResults a).exec t).1 = .ok r := by
  rcases hc.results a h.spared h.first with ⟨hok, -⟩ | ⟨-, hno⟩
  · exact hok
  · exact absurd ⟨b, h.answers, fun _ => h.known⟩ hno

/-- The results of a submission that is taken are added to the tally. -/
theorem Tally.taken (h : t.Tally batch entries) (hc : t.Consistent) {a : ResultsArgs} {b : BatchReceipt}
    (htakes : t.Takes batch a b) :
    ((Call.recordToolResults a).exec t).2.Tally batch (entries ++ resultIds a.runId t.seq a.results) := by
  obtain ⟨reply, hreply⟩ := htakes.returns hc
  have hkeep := fun id m (hm : t.messages id = some m) => exec_toolMessage hc (.recordToolResults a) hm
  have hout := t.exec_outcome (.recordToolResults a)
  rw [hreply] at hout
  generalize ((Call.recordToolResults a).exec t).2 = t' at hout hkeep ⊢
  cases hout with
  | replayed ho _ =>
    rw [show (Call.recordToolResults a).opId = a.logicalOpId from rfl, htakes.first] at ho
    cases ho
  | skipped hk _ hb hreq =>
    cases hk
    rw [htakes.unique hb, htakes.required] at hreq
    cases hreq
  | committed hf ho _ hcommit =>
    have hops := hcommit.ops
    cases hcommit with
    | text hk _ _ => rcases hk with hk | hk <;> cases hk
    | toolResults _ _ _ =>
      have hcounted : ({ t with seq := t.seq + a.results.length } : MemoryTranscript).Tables t.seq :=
        hc.tables.same rfl rfl
      refine ⟨fun id => ?_, ?_, fun e he => ?_⟩
      · rw [resultOf_storeOp hops ho, h.results, List.map_append, List.mem_append, resultIds_fst]
        refine or_congr_right ⟨?_, fun hmem => ⟨rfl, ⟨_, rfl, htakes.given⟩, ?_⟩⟩
        · rintro ⟨-, -, r, hr, rfl⟩
          obtain ⟨p, hp, rfl⟩ := List.mem_map.mp hr
          exact List.mem_map_of_mem hp
        · obtain ⟨p, hp, rfl⟩ := List.mem_map.mp hmem
          exact ⟨_, List.mem_map_of_mem hp, rfl⟩
      · rw [List.map_append]
        refine List.nodup_append.mpr ⟨h.nodup, resultIds_nodup _ _ _, fun id hid id' hid' heq => ?_⟩
        -- an id that is given out now was not in use
        obtain ⟨e, he, rfl⟩ := List.mem_map.mp hid
        obtain ⟨e', he', rfl⟩ := List.mem_map.mp hid'
        obtain ⟨m, hm, -⟩ := h.stored e he
        obtain ⟨k, hk, hnew⟩ := resultIds_numbered _ _ _ e' he'
        obtain ⟨run, k', hold, hk'⟩ := hc.tables.numbered e.1 (by rw [hm]; rfl)
        have := msgId_inj (hold.symm.trans (heq.trans hnew))
        omega
      · rcases List.mem_append.mp he with he | he
        · obtain ⟨m, hm, hrole, hcall⟩ := h.stored e he
          exact ⟨m, hkeep e.1 m hm hrole, hrole, hcall⟩
        · exact appendAll_stores a.runId a.recordTarget a.results hcounted e he

/-- Any other call leaves the tally as it is. -/
theorem Tally.untaken (h : t.Tally batch entries) (hc : t.Consistent) {c : Call}
    (hno : ∀ a b, c = .recordToolResults a → ¬ t.Takes batch a b) : (c.exec t).2.Tally batch entries := by
  refine h.same (fun id => ?_) fun id m => exec_toolMessage hc c
  have hout := t.exec_outcome c
  generalize (c.exec t).1 = result at hout
  generalize (c.exec t).2 = t' at hout ⊢
  cases hout with
  | failed hrej =>
    unfold ResultOf
    rw [hrej.ops]
  | replayed _ _ | skipped _ _ _ _ => exact Iff.rfl
  | committed hf ho _ hcommit =>
    rw [resultOf_storeOp hcommit.ops ho, or_iff_left]
    rintro ⟨hkind, ⟨b', hprevious, hgiven⟩, -⟩
    cases hcommit with
    | text hk _ _ =>
      have hresults : c.kind = .toolResults := hkind
      rcases hk with hk | hk <;> cases hk.symm.trans hresults
    | input _ | toolCalls _ _ _ | unrecordedCalls _ | runFinal _ _ => cases hkind
    | toolResults hb hreq hknown =>
      cases hprevious
      exact hno _ _ rfl ⟨hgiven, hf, ho, hb, hreq, hknown⟩

/-! ## Histories -/

/-- What happens to a transcript: it is called, or a failure is injected. -/
inductive Step where
  | call (c : Call)
  | failure (opId : String)

def Step.apply (t : MemoryTranscript) : Step → MemoryTranscript
  | call c => (c.exec t).2
  | failure opId => t.injectWriteFailure opId

/-- The transcript after a history. -/
def history (tools : List String) (steps : List Step) : MemoryTranscript :=
  steps.foldl Step.apply (empty tools)

theorem history_concat (tools : List String) (steps : List Step) (step : Step) :
    history tools (steps ++ [step]) = step.apply (history tools steps) := List.foldl_concat ..

theorem history_reachable (tools : List String) (steps : List Step) :
    (history tools steps).Reachable fun _ _ => True := by
  induction steps using List.reverseRecOn with
  | nil => exact .empty tools
  | append_singleton steps step ih =>
    rw [history_concat]
    cases step with
    | call c => exact .call c ih trivial
    | failure opId => exact .failure opId ih

theorem history_consistent (tools : List String) (steps : List Step) : (history tools steps).Consistent :=
  (history_reachable tools steps).consistent

/-- A failure that is injected leaves the tally as it is. -/
theorem Tally.injectWriteFailure (h : t.Tally batch entries) (opId : String) :
    (t.injectWriteFailure opId).Tally batch entries :=
  h.same (fun _ => Iff.rfl) fun _ _ hm _ => hm

/-- A call keeps the calls of the results distinct exactly if it is fresh, and never makes them so. -/
theorem Tally.exec_answeredOnce (h : t.Tally batch entries) (hc : t.Consistent) (c : Call) :
    (∃ more, (c.exec t).2.Tally batch (entries ++ more)) ∧
      ((c.exec t).2.AnsweredOnce batch ↔ t.AnsweredOnce batch ∧ t.Fresh batch c) := by
  by_cases htaken : ∃ a b, c = .recordToolResults a ∧ t.Takes batch a b
  · obtain ⟨a, b, rfl, htakes⟩ := htaken
    have hnew := h.taken hc htakes
    refine ⟨⟨_, hnew⟩, ?_⟩
    rw [hnew.answeredOnce, h.answeredOnce, List.map_append, resultIds_snd, List.nodup_append]
    refine and_congr_right fun _ => ⟨fun ⟨hcalls, hapart⟩ a' b' ha htakes' => ?_, fun hfresh => ?_⟩
    · cases ha
      refine ⟨hcalls, fun result hresult hhas => ?_⟩
      exact hapart _ ((h.hasResult _).mp hhas) _ (List.mem_map_of_mem hresult) rfl
    · obtain ⟨hcalls, hapart⟩ := hfresh a b rfl htakes
      refine ⟨hcalls, fun callId hold callId' hnew heq => ?_⟩
      obtain ⟨result, hresult, rfl⟩ := List.mem_map.mp hnew
      exact hapart result hresult ((h.hasResult _).mpr (heq ▸ hold))
  · have hno : ∀ a b, c = .recordToolResults a → ¬ t.Takes batch a b :=
      fun a b hcall htakes => htaken ⟨a, b, hcall, htakes⟩
    have hsame := h.untaken hc hno
    refine ⟨⟨[], (List.append_nil entries).symm ▸ hsame⟩, ?_⟩
    rw [hsame.answeredOnce, h.answeredOnce]
    exact ⟨fun hnodup => ⟨hnodup, fun a b hcall htakes => absurd htakes (hno a b hcall)⟩, fun hboth => hboth.1⟩

theorem history_tally (tools : List String) (steps : List Step) (batch : String) :
    ∃ entries, (history tools steps).Tally batch entries := by
  induction steps using List.reverseRecOn with
  | nil => exact ⟨[], tally_empty tools⟩
  | append_singleton steps step ih =>
    obtain ⟨entries, h⟩ := ih
    rw [history_concat]
    cases step with
    | call c =>
      obtain ⟨⟨more, hmore⟩, -⟩ := h.exec_answeredOnce (history_consistent tools steps) c
      exact ⟨_, hmore⟩
    | failure opId => exact ⟨entries, h.injectWriteFailure opId⟩

/-- **The results of a batch.** After every history, no two results of a batch are for one call exactly
if every submission that was committed for it named no call twice, and none that had a result. -/
theorem answeredOnce_iff (tools : List String) (steps : List Step) (batch : String) :
    (history tools steps).AnsweredOnce batch ↔
      ∀ before c after, steps = before ++ .call c :: after → (history tools before).Fresh batch c := by
  induction steps using List.reverseRecOn with
  | nil =>
    refine iff_of_true ((tally_empty tools).answeredOnce.mpr List.nodup_nil) fun before c after h => ?_
    exact absurd h.symm (List.append_ne_nil_of_right_ne_nil before (List.cons_ne_nil _ after))
  | append_singleton steps step ih =>
    have hsplit : (∀ before c after, steps ++ [step] = before ++ .call c :: after →
          (history tools before).Fresh batch c) ↔
        (∀ before c after, steps = before ++ .call c :: after → (history tools before).Fresh batch c) ∧
          ∀ c, step = .call c → (history tools steps).Fresh batch c := by
      constructor
      · intro hall
        refine ⟨fun before c after h => hall before c (after ++ [step]) (by rw [h]; simp), fun c h => ?_⟩
        exact hall steps c [] (by rw [h])
      · rintro ⟨hbefore, hlast⟩ before c after h
        rcases Async.snoc_eq_append_cons h with ⟨rfl, hc⟩ | ⟨post, hpost⟩
        · exact hlast c hc
        · exact hbefore before c post hpost
    rw [hsplit, ← ih, history_concat]
    obtain ⟨entries, h⟩ := history_tally tools steps batch
    cases step with
    | call c =>
      rw [Step.apply, (h.exec_answeredOnce (history_consistent tools steps) c).2]
      refine and_congr_right fun _ => ⟨fun hfresh c' hc' => ?_, fun hfresh => hfresh c rfl⟩
      cases hc'
      exact hfresh
    | failure opId =>
      rw [Step.apply, (h.injectWriteFailure opId).answeredOnce, h.answeredOnce]
      exact (and_iff_left fun c hc => by cases hc).symm

/-- The batch of one call, answered twice in one submission. -/
def twiceAnswered : List Step :=
  [.call (.recordToolCalls oneCalls),
    .call (.recordToolResults {
      runId := "r", stepNo := 1, recordTarget := ⟨"t"⟩
      results := [⟨"c1", "ask", "yes", false⟩, ⟨"c1", "ask", "no", false⟩], logicalOpId := "results"
      previousReceipt := batchOf oneCalls "msg:r:1" })]

theorem twiceAnswered_repeats : ¬ (history [] twiceAnswered).AnsweredOnce "calls" := by
  intro h
  have hresult : ∀ id, id = "msg:r:2" ∨ id = "msg:r:3" → (history [] twiceAnswered).ResultOf "calls" id := by
    rintro id (rfl | rfl)
    · exact ⟨"results", _, rfl, rfl, ⟨_, rfl, rfl⟩, _, List.mem_cons_self, rfl⟩
    · exact ⟨"results", _, rfl, rfl, ⟨_, rfl, rfl⟩, _, List.mem_cons_of_mem _ List.mem_cons_self, rfl⟩
  exact absurd (h "msg:r:2" "msg:r:3" _ _ (hresult _ (.inl rfl)) (hresult _ (.inr rfl)) rfl rfl rfl) (by decide)

end MemoryTranscript

end AgentRuntime
