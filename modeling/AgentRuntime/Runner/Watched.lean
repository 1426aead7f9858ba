import AgentRuntime.Recording.Acceptance
import AgentRuntime.Runner.Keep
import AgentRuntime.Runner.Schedule

/-!
# A transcript that is watched

The default transcript with every answer noted, and what holds of it while a run has it to itself.

* `watchedTranscript` — each method answers as that of the memory transcript does;
* `Honest` — every invoker returned a result of the call it was given;
* `Smooth` — no call was refused, and whatever was answered stands;
* `Untroubled` — nobody else writes, and the run of an honest log is smooth; `Untroubled.wp_call` — a call
  that is acceptable keeps it so.
-/

set_option autoImplicit false

namespace AgentRuntime

open Async

/-! ## The transcript -/

/-- One method of the memory transcript, whose answer is noted. -/
def watched {Y α : Type} (c : Call) (into : α → Reply)
    (method : MemoryTranscript → Except Exc α × MemoryTranscript) : Gen Y α := do
  Proc.ask Query.lock
  let (result, transcript) := method (← Proc.get).transcript
  Proc.modify fun w => { w with transcript := transcript }
  note (.answered c (result.map into))
  match result with
  | .ok a => pure a
  | .error e => Proc.throw e

def watchedTranscript : TranscriptPort where
  recordInput args := watched (.recordInput args) .message (·.recordInput args)
  recordTextDelta args := watched (.recordTextDelta args) .message (·.recordTextDelta args)
  recordTextFinal args := watched (.recordTextFinal args) .message (·.recordTextFinal args)
  recordToolCalls args := watched (.recordToolCalls args) .batch (·.recordToolCalls args)
  recordToolResults args := watched (.recordToolResults args) .messages (·.recordToolResults args)
  finalizeRun runId status :=
    watched (.finalizeRun runId status) (fun _ => .finalized) (·.finalizeRun runId status)

/-- A method that is watched, with what the call returns. -/
theorem Steady.wp_watched {G Y α : Type} {safe : World → Prop} {J L : G → World → Prop}
    {E : G → Exc → World → Prop} {C : RunContract G Y} (S : Steady safe J L E) (hC : Tame safe C) (c : Call)
    (into : α → Reply) (method : MemoryTranscript → Except Exc α × MemoryTranscript)
    (hmethod : ∀ t, c.exec t = (method t).map (·.map into) id) {R : G → α → World → Prop} {g : G} {w : World}
    (hok : ∀ w a, J g w → (c.exec w.transcript).1 = .ok (into a) →
      R g a ({ w with transcript := (c.exec w.transcript).2 }.note (.answered c (.ok (into a)))))
    (herror : ∀ w e, J g w → (c.exec w.transcript).1 = .error e →
      E g e ({ w with transcript := (c.exec w.transcript).2 }.note (.answered c (.error e))))
    (h : J g w) : ((watched c into method : Gen Y α) w).wp C R E g := by
  refine (Proc.wp_bind' _ _ w g).mpr (hC.wp_ask (S.safe_of h) fun w' hd => ?_)
  have h' := S.disturbed hd h
  refine ⟨fun _ => ?_, fun e => S.raise e h'⟩
  simp only [Proc.wp_bind', Proc.wp_get, Proc.wp_modify]
  have hok' := hok w'
  have herror' := herror w'
  rw [hmethod] at hok' herror'
  rcases hr : method w'.transcript with ⟨result, t⟩
  rw [hr] at hok' herror'
  cases result with
  | ok a => exact hok' a h' rfl
  | error e => exact herror' e h' rfl

/-! ## Honest invokers -/

/-- What the last action of a kind was about. -/
def latest {α : Type} (f : Action → Option α) (log : List Action) : Option α := log.reverse.findSome? f

theorem latest_snoc {α : Type} (f : Action → Option α) (log : List Action) (a : Action) :
    latest f (log ++ [a]) = (f a).or (latest f log) := by
  unfold latest
  rw [List.reverse_concat, List.findSome?_cons]
  cases f a <;> rfl

def Action.preparing? : Action → Option StepIdentity
  | .preparing identity => some identity
  | _ => none

def Action.modelStep? : Action → Option PreparedStep
  | .called .model step => some step
  | _ => none

def Action.invoking? : Action → Option ToolCall
  | .invoking call => some call
  | _ => none

/-- Every result that an invoker returned carries the id of the call it was given. -/
def Honest (log : List Action) : Prop :=
  ∀ (k : Nat) (outcome : InvocationOutcome), log[k]? = some (.invoked outcome) →
    ∃ call, latest Action.invoking? (log.take k) = some call ∧ outcome.result.callId = call.callId

section Logs

variable {log added : List Action} {a : Action}

theorem Honest.of_append (h : Honest (log ++ added)) : Honest log := by
  intro k outcome hk
  have hlt : k < log.length := (List.getElem?_eq_some_iff.mp hk).1
  have hfound := h k outcome (by rw [List.getElem?_append_left hlt]; exact hk)
  rwa [List.take_append_of_le_length hlt.le] at hfound

theorem Honest.invoked {outcome : InvocationOutcome} (h : Honest (log ++ [.invoked outcome])) :
    ∃ call, latest Action.invoking? log = some call ∧ outcome.result.callId = call.callId := by
  have hfound := h log.length outcome List.getElem?_concat_length
  rwa [List.take_left] at hfound

/-- What the facts about a log depend on. -/
def Action.marks : Action → Bool
  | .answered _ _ | .preparing _ | .called _ _ | .invoking _ | .invoked _ => true
  | _ => false

/-- A fact about the log, whatever else is done. -/
def Lasting (Q : List Action → Prop) : Prop := ∀ log a, a.marks = false → Q log → Q (log ++ [a])

theorem Lasting.and {Q Q' : List Action → Prop} (h : Lasting Q) (h' : Lasting Q') :
    Lasting fun log => Q log ∧ Q' log :=
  fun log a ha hQ => ⟨h log a ha hQ.1, h' log a ha hQ.2⟩

theorem Lasting.append {Q : List Action → Prop} (h : Lasting Q) : ∀ {added log : List Action},
    (∀ a ∈ added, a.marks = false) → Q log → Q (log ++ added)
  | [], log, _, hQ => by
    rw [List.append_nil]
    exact hQ
  | a :: added, log, ha, hQ => by
    rw [List.append_cons]
    exact h.append (fun b hb => ha b (List.mem_cons_of_mem _ hb)) (h log a (ha a List.mem_cons_self) hQ)

theorem lasting_const (P : Prop) : Lasting fun _ => P := fun _ _ _ h => h

theorem lasting_awaits (runId : String) (clock : Clock) : Lasting (Awaits runId clock) :=
  fun _ _ ha h => h.note fun _ _ he => by
    rw [he] at ha
    cases ha

theorem lasting_answered (c : Call) (answer : Except Exc Reply) :
    Lasting fun log => .answered c answer ∈ log :=
  fun _ _ _ h => List.mem_append_left _ h

theorem lasting_latest {α : Type} {f : Action → Option α} (hf : ∀ a, a.marks = false → f a = none) (x : α) :
    Lasting fun log => latest f log = some x := fun log a ha h => by
  change latest f (log ++ [a]) = some x
  rw [latest_snoc, hf a ha]
  exact h

theorem preparing?_of_marks (a : Action) (ha : a.marks = false) : a.preparing? = none := by
  cases a <;> first | rfl | cases ha

theorem modelStep?_of_marks (a : Action) (ha : a.marks = false) : a.modelStep? = none := by
  cases a <;> first | rfl | cases ha

theorem invoking?_of_marks (a : Action) (ha : a.marks = false) : a.invoking? = none := by
  cases a <;> first | rfl | cases ha

end Logs

/-! ## Smooth runs -/

/-- Every call was answered with a reply that stands, under an id of the run; nothing else is on file; and a
message that is submitted again is answered with the receipt handed out before. -/
structure Smooth (runId : String) (log : List Action) (t : MemoryTranscript) : Prop where
  unrecordedTools : t.unrecordedTools = []
  labelled : t.Labelled
  answered : ∀ c answer, .answered c answer ∈ log → ∃ reply, answer = .ok reply ∧ t.Stands c reply
  ours : ∀ c answer, .answered c answer ∈ log →
    ∃ o : Operation, o.runId = runId ∧ c.opId = o.id ∧ c.kind = o.kind
  filed : ∀ opId op, t.ops opId = some op → ∃ c reply, .answered c (.ok reply) ∈ log ∧ c.opId = opId
  replayed : ∀ k c r c' r', log[k]? = some (.answered c (.ok (.message r))) →
    .answered c' (.ok (.message r')) ∈ log.take k → c'.opId = c.opId → r = r'.replayed

theorem MemoryTranscript.exec_ops_or {t : MemoryTranscript} {c : Call} {opId : String} {op : CommittedOp}
    (h : (c.exec t).2.ops opId = some op) : t.ops opId = some op ∨ opId = c.opId := by
  have hout := t.exec_outcome c
  generalize (c.exec t).1 = result at hout
  generalize (c.exec t).2 = t' at hout h
  cases hout with
  | failed hrej => exact .inl (hrej.ops ▸ h)
  | replayed _ _ | skipped _ _ _ _ => exact .inl h
  | committed _ _ _ hcommit =>
    rcases MemoryTranscript.storeOp_ops h with ⟨hid, -⟩ | hold
    · exact .inr hid
    · exact .inl (hcommit.ops ▸ hold)

section Smooth

variable {runId : String} {log : List Action} {t : MemoryTranscript} {a : Action} {c : Call} {o : Operation}

theorem mem_snoc_answered {answer : Except Exc Reply} (ha : ∀ c answer, a ≠ .answered c answer)
    (h : .answered c answer ∈ log ++ [a]) : .answered c answer ∈ log :=
  (List.mem_append.mp h).resolve_right fun h => ha _ _ (List.mem_singleton.mp h).symm

theorem Smooth.note (h : Smooth runId log t) (ha : ∀ c answer, a ≠ .answered c answer) :
    Smooth runId (log ++ [a]) t where
  unrecordedTools := h.unrecordedTools
  labelled := h.labelled
  answered c answer hmem := h.answered c answer (mem_snoc_answered ha hmem)
  ours c answer hmem := h.ours c answer (mem_snoc_answered ha hmem)
  filed opId op ho := by
    obtain ⟨c, reply, hmem, hid⟩ := h.filed opId op ho
    exact ⟨c, reply, List.mem_append_left _ hmem, hid⟩
  replayed k c r c' r' hk hmem hid := by
    rcases getElem?_snoc hk with ⟨hold, htake⟩ | ⟨he, -⟩
    · exact h.replayed k c r c' r' hold (htake ▸ hmem) hid
    · exact absurd he (ha _ _)

/-- What is ahead is not on file. -/
theorem Smooth.fresh (h : Smooth runId log t) {clock : Clock} (hawaits : Awaits runId clock log)
    (hrun : o.runId = runId) (ho : clock.Ahead o) : t.ops o.id = none := by
  cases hop : t.ops o.id with
  | none => rfl
  | some op =>
    obtain ⟨c, reply, hmem, hid⟩ := h.filed o.id op hop
    exact absurd hid (hawaits o hrun ho c reply hmem)

/-- What is on file under the id of a call is handed out again. -/
theorem Smooth.repeats (h : Smooth runId log t) (hf : c.opId ∉ t.failOps) {c' : Call} {r r' : MessageReceipt}
    (hmem : .answered c' (.ok (.message r')) ∈ log) (hid : c'.opId = c.opId)
    (hok : (c.exec t).1 = .ok (.message r)) : r = r'.replayed := by
  obtain ⟨reply, he, hstands⟩ := h.answered c' _ hmem
  cases he
  obtain ⟨op, hop, -, hreceipt⟩ := hstands.filed
  rw [hid] at hop
  rw [MemoryTranscript.exec_answer hf hop] at hok
  obtain ⟨hagain, -⟩ := MemoryTranscript.echo_message (MemoryTranscript.answer_ok hok).2
  exact Option.some.inj (hagain.symm.trans (hreceipt r' rfl))

/-- An acceptable call of the run is answered. -/
theorem Smooth.exec (h : Smooth runId log t) (hc : t.Consistent) (hf : t.failOps = [])
    (hacceptable : t.Acceptable c) (hrun : o.runId = runId) (hid : c.opId = o.id) (hkind : c.kind = o.kind) :
    ∃ reply, (c.exec t).1 = .ok reply ∧ Smooth runId (log ++ [.answered c (.ok reply)]) (c.exec t).2 := by
  have hnone : c.opId ∉ t.failOps := by
    rw [hf]
    exact List.not_mem_nil
  obtain ⟨reply, hok, hstands⟩ := hacceptable.stands hc h.labelled hnone h.unrecordedTools
  have hcases : ∀ {c' answer}, .answered c' answer ∈ log ++ [.answered c (.ok reply)] →
      .answered c' answer ∈ log ∨ c' = c ∧ answer = .ok reply := by
    intro c' answer hmem
    refine (List.mem_append.mp hmem).imp_right fun hmem => ?_
    have heq := List.mem_singleton.mp hmem
    cases heq
    exact ⟨rfl, rfl⟩
  refine ⟨reply, hok, (MemoryTranscript.exec_unrecordedTools t c).trans h.unrecordedTools,
    h.labelled.exec c, fun c' answer hmem => ?_, fun c' answer hmem => ?_, fun opId op hop => ?_,
    fun k c₁ r c₂ r' hk hmem hid₂ => ?_⟩
  · rcases hcases hmem with hold | ⟨rfl, rfl⟩
    · obtain ⟨reply', rfl, hstands'⟩ := h.answered c' answer hold
      exact ⟨reply', rfl, hstands'.exec hc c⟩
    · exact ⟨reply, rfl, hstands⟩
  · rcases hcases hmem with hold | ⟨rfl, rfl⟩
    · exact h.ours c' answer hold
    · exact ⟨o, hrun, hid, hkind⟩
  · rcases MemoryTranscript.exec_ops_or hop with hold | rfl
    · obtain ⟨c', reply', hmem, hid'⟩ := h.filed opId op hold
      exact ⟨c', reply', List.mem_append_left _ hmem, hid'⟩
    · exact ⟨c, reply, List.mem_append_right _ (List.mem_singleton_self _), rfl⟩
  · rcases getElem?_snoc hk with ⟨hold, htake⟩ | ⟨he, htake⟩
    · exact h.replayed k c₁ r c₂ r' hold (htake ▸ hmem) hid₂
    · cases he
      exact h.repeats hnone (htake ▸ hmem) hid₂ hok

end Smooth

/-! ## A run by itself -/

/-- Nobody else writes to the transcript and nothing is made to fail; and if the log is honest, the run is
smooth, and `Q` holds of what was done. -/
structure Untroubled (runId : String) (Q : List Action → Prop) (w : World) : Prop where
  others : ∀ call, w.others call = false
  failures : ∀ opId, w.failures opId = false
  consistent : w.transcript.Consistent
  failOps : w.transcript.failOps = []
  smooth : Honest w.log → Smooth runId w.log w.transcript ∧ Q w.log

namespace Untroubled

variable {runId : String} {Q Q' : List Action → Prop} {w w' : World} {a : Action}

theorem same (h : Untroubled runId Q w) (hothers : w'.others = w.others) (hfailures : w'.failures = w.failures)
    (htranscript : w'.transcript = w.transcript) (hlog : w'.log = w.log) : Untroubled runId Q w' := by
  refine ⟨?_, ?_, ?_, ?_, ?_⟩
  · rw [hothers]
    exact h.others
  · rw [hfailures]
    exact h.failures
  · rw [htranscript]
    exact h.consistent
  · rw [htranscript]
    exact h.failOps
  · rw [hlog, htranscript]
    exact h.smooth

theorem mono (h : Untroubled runId Q w) (hQ : ∀ log, Q log → Q' log) : Untroubled runId Q' w :=
  ⟨h.others, h.failures, h.consistent, h.failOps, fun hhonest => ⟨(h.smooth hhonest).1, hQ _ (h.smooth hhonest).2⟩⟩

theorem and (h : Untroubled runId Q w) (h' : Untroubled runId Q' w) :
    Untroubled runId (fun log => Q log ∧ Q' log) w :=
  ⟨h.others, h.failures, h.consistent, h.failOps,
    fun hhonest => ⟨(h.smooth hhonest).1, (h.smooth hhonest).2, (h'.smooth hhonest).2⟩⟩

/-- One action more that is no answer. -/
theorem noteWith (h : Untroubled runId Q w) (ha : ∀ c answer, a ≠ .answered c answer)
    (hQ : Honest (w.log ++ [a]) → Q w.log → Q' (w.log ++ [a])) : Untroubled runId Q' (w.note a) := by
  refine ⟨h.others, h.failures, h.consistent, h.failOps, fun hhonest => ?_⟩
  obtain ⟨hsmooth, hlog⟩ := h.smooth hhonest.of_append
  exact ⟨hsmooth.note ha, hQ hhonest hlog⟩

theorem note (h : Untroubled runId Q w) (hQ : Lasting Q) (ha : a.marks = false) :
    Untroubled runId Q (w.note a) :=
  h.noteWith (fun _ _ he => by rw [he] at ha; cases ha) fun _ => hQ w.log a ha

theorem interfere (h : Untroubled runId Q w) (i : Interference) : Untroubled runId Q (w.interfere i) := by
  cases i with
  | record call =>
    have hnobody : (call.finalizes w.runId || !w.others call) = true := by
      rw [h.others call]
      exact Bool.or_true _
    simp only [World.interfere, if_pos hnobody]
    exact h
  | injectWriteFailure opId =>
    simp only [World.interfere, h.failures opId, Bool.false_eq_true, if_false]
    exact h
  | reserve tokens =>
    simp only [World.interfere]
    split
    · exact h.same rfl rfl rfl rfl
    · exact h
  | _ => exact h.same rfl rfl rfl rfl

theorem calm (hQ : Lasting Q) : Calm (Untroubled runId Q) where
  interfere i h := h.interfere i
  note {_ a} ha h := h.note hQ (by cases a <;> first | rfl | cases ha)

theorem tended (hQ : Lasting Q) : Tended (Untroubled runId Q) where
  calm := calm hQ
  note {_ a} ha h := h.note hQ (by cases a <;> first | rfl | cases ha)
  similar hs h := h.same hs.others hs.failures hs.transcript hs.log

/-- What a consumer does between two items leaves a fact about the log. -/
theorem resumed (h : Untroubled runId Q w) (hQ : Lasting Q) (hres : w.Resumed w')
    (h' : Untroubled runId Q' w') : Untroubled runId (fun log => Q' log ∧ Q log) w' := by
  refine ⟨h'.others, h'.failures, h'.consistent, h'.failOps, fun hhonest => ?_⟩
  obtain ⟨hsmooth, hQ'⟩ := h'.smooth hhonest
  obtain ⟨added, hadded, hpassive⟩ := hres
  rw [hadded] at hhonest hQ' ⊢
  refine ⟨hadded ▸ hsmooth, hQ', hQ.append (fun b hb => ?_) (h.smooth hhonest.of_append).2⟩
  have hpassive' := hpassive b hb
  cases b <;> first | rfl | cases hpassive'

/-- An item is offered to a consumer that keeps `J`; what is known of the log beside it stays known. -/
theorem offered {G Y : Type} {J : G → List Action → Prop} {ok : G → Y → World → Prop} {next : G → Y → G → Prop}
    {g : G} {item : Y} (h : Untroubled runId (fun log => J g log ∧ Q log) w) (hQ : Lasting Q)
    (hok : ok g item w) :
    Offered (promising (Untroubled runId fun _ => True) (fun g => Untroubled runId (J g)) ok next)
      (Untroubled runId fun _ => True) g item w fun g => Untroubled runId fun log => J g log ∧ Q log := by
  have hJ : Untroubled runId (J g) w := h.mono fun _ h => h.1
  have hQw : Untroubled runId Q w := h.mono fun _ h => h.2
  exact ⟨⟨hJ, hok⟩, fun hr => ⟨hr.2.1, hQw.resumed hQ hr.2.1 hr.2.2.2⟩, fun hr => by cases hr.1⟩

/-- **The rule for a call** of the run: one that is acceptable is answered with a reply. -/
theorem wp_call {G Y α : Type} {C : RunContract G Y} (hC : Tame (Untroubled runId fun _ => True) C)
    (hQ : Lasting Q) (c : Call) (into : α → Reply)
    (method : MemoryTranscript → Except Exc α × MemoryTranscript)
    (hmethod : ∀ t, c.exec t = (method t).map (·.map into) id) {o : Operation} (hid : c.opId = o.id)
    (hkind : c.kind = o.kind) (hrun : ∀ log, Q log → o.runId = runId)
    (hacceptable : ∀ log t, t.Consistent → Smooth runId log t → Q log → t.Acceptable c)
    {N : α → List Action → Prop}
    (hnext : ∀ log r, Q log → N r (log ++ [.answered c (.ok (into r))])) {g : G}
    (h : Untroubled runId Q w) :
    ((watched c into method : Gen Y α) w).wp C (fun g' r w' => g' = g ∧ Untroubled runId (N r) w')
      (fun g' _ w' => g' = g ∧ Untroubled runId Q w') g := by
  have hcalm : Calm (Untroubled runId fun _ => True) := calm (lasting_const True)
  have S : Steady (Untroubled runId fun _ => True) (fun g' w => g' = g ∧ Untroubled runId Q w)
      (fun g' w => g' = g ∧ Untroubled runId Q w) (fun g' _ w => g' = g ∧ Untroubled runId Q w) :=
    hcalm.steady (fun g' => ((calm hQ).const (g' = g)).interfere) (fun g' => (calm hQ).const (g' = g))
      (fun _ _ h => h) (fun _ _ h => h.2.mono fun _ _ => trivial)
  have hfailOps : ∀ w : World, Untroubled runId Q w → (c.exec w.transcript).2.failOps = [] := fun w hw =>
    List.subset_nil.mp (hw.failOps ▸ MemoryTranscript.exec_failOps_subset w.transcript c)
  have hanswered : ∀ w : World, Untroubled runId Q w → Honest w.log →
      ∃ reply, (c.exec w.transcript).1 = .ok reply ∧
        Smooth runId (w.log ++ [.answered c (.ok reply)]) (c.exec w.transcript).2 := fun w hw hhonest =>
    (hw.smooth hhonest).1.exec hw.consistent hw.failOps
      (hacceptable _ _ hw.consistent (hw.smooth hhonest).1 (hw.smooth hhonest).2)
      (hrun _ (hw.smooth hhonest).2) hid hkind
  refine S.wp_watched hC c into method hmethod (fun w r hw hr => ⟨hw.1, ?_⟩) (fun w e hw he => ⟨hw.1, ?_⟩)
    ⟨rfl, h⟩
  · refine ⟨hw.2.others, hw.2.failures, (hw.2.consistent.exec c).1, hfailOps w hw.2, fun hhonest => ?_⟩
    obtain ⟨reply, hreply, hsmooth⟩ := hanswered w hw.2 hhonest.of_append
    obtain rfl : into r = reply := Except.ok.inj (hr.symm.trans hreply)
    exact ⟨hsmooth, hnext _ r (hw.2.smooth hhonest.of_append).2⟩
  · refine ⟨hw.2.others, hw.2.failures, (hw.2.consistent.exec c).1, hfailOps w hw.2, fun hhonest => ?_⟩
    obtain ⟨reply, hreply, -⟩ := hanswered w hw.2 hhonest.of_append
    rw [he] at hreply
    cases hreply

end Untroubled

end AgentRuntime
