import AgentRuntime.Calm
import AgentRuntime.Context.Views
import AgentRuntime.Pipelines.Barrier
import AgentRuntime.Recording.Exchange

/-!
# What the model is shown of a batch

A batch that the default tool pipeline completes on the memory transcript, beside others that keep away
from its target, and the view that `pair_tool_messages` makes of the target then.

* `Shows` — messages show a batch: its assistant message, and right behind it its results;
* `shows_pairToolMessages_iff` — pairing shows a batch exactly if its calls can be told apart;
* `Settled` — a completed batch has come to its last stage; `execute_settled` — so it has at every node
  of every run;
* `execute_shows_iff` — so the view shows it exactly if its call ids are distinct and none is empty.
-/

set_option autoImplicit false

namespace AgentRuntime

open Async

/-! ## Views -/

/-- The messages show the batch: its assistant message, and right behind it one TOOL message for each
result. -/
def Shows (ms : List Message) (messageId : Option String) (calls : List ToolCall)
    (results : List ToolResult) : Prop :=
  ∃ before m answers after, ms = before ++ m :: (answers ++ after) ∧ m.messageId = messageId ∧
    m.Asks calls ∧ AnswerWith answers results

/-- The calls can be told apart by their ids. -/
def Distinguished (calls : List ToolCall) : Prop :=
  (calls.map (·.callId)).Nodup ∧ "" ∉ calls.map (·.callId)

variable {m : Message} {ms answers : List Message} {calls : List ToolCall} {results : List ToolResult}
  {messageId : Option String}

theorem sameCallKeys_callIds : ∀ {as bs : List ToolCall}, sameCallKeys as bs = true →
    as.map (·.callId) = bs.map (·.callId)
  | [], [], _ => rfl
  | [], _ :: _, h => by cases h
  | _ :: _, [], h => by cases h
  | a :: as, b :: bs, h => by
    unfold sameCallKeys at h
    obtain ⟨hkey, hrest⟩ := Bool.and_eq_true_iff.mp h
    unfold ToolCall.sameKey at hkey
    simp only [Bool.and_eq_true, beq_iff_eq] at hkey
    rw [List.map_cons, List.map_cons, hkey.1.1, sameCallKeys_callIds hrest]

theorem Message.Asks.callIds (h : m.Asks calls) : m.callIds = calls.map (·.callId) :=
  sameCallKeys_callIds h.calls

theorem Message.Asks.callsTools (h : m.Asks calls) (hne : calls ≠ []) : m.callsTools = true := by
  have hids : m.toolCalls ≠ [] := by
    intro hnil
    have hcalls := h.callIds
    unfold Message.callIds at hcalls
    rw [hnil, List.map_nil] at hcalls
    exact hne (List.map_eq_nil_iff.mp hcalls.symm)
  unfold Message.callsTools
  rw [h.role, List.isEmpty_eq_false_iff.mpr hids]
  rfl

theorem AnswerWith.tools (h : AnswerWith answers results) : ∀ r ∈ answers, r.isTool = true := by
  intro r hr
  have hmem : ({ r with messageId := none } : Message) ∈ results.map MemoryTranscript.resultMessage :=
    h ▸ List.mem_map_of_mem hr
  obtain ⟨result, -, heq⟩ := List.mem_map.mp hmem
  have hrole : r.role = .tool := (congrArg Message.role heq).symm
  unfold Message.isTool
  rw [hrole]
  rfl

theorem AnswerWith.ids (h : AnswerWith answers results) :
    answers.map (·.toolCallId) = (results.map (·.callId)).map some := by
  have hids := congrArg (List.map Message.toolCallId) h
  rw [List.map_map, List.map_map] at hids
  rw [List.map_map]
  exact hids

/-- Calls that can be told apart, with their results, are a part of the view. -/
theorem Message.Asks.completes (h : m.Asks calls) (hanswers : AnswerWith answers results)
    (hids : results.map (·.callId) = calls.map (·.callId)) (hne : calls ≠ [])
    (hd : Distinguished calls) : Completes m answers where
  calls := h.callsTools hne
  distinct := h.callIds ▸ hd.1
  named := h.callIds ▸ hd.2
  tools := hanswers.tools
  perm := by rw [hanswers.ids, hids, h.callIds]

/-- **Pairing.** Of a batch that the messages show, the view shows the calls with their results exactly if
the calls can be told apart. -/
theorem shows_pairToolMessages_iff (h : Shows ms messageId calls results)
    (hids : results.map (·.callId) = calls.map (·.callId)) (hne : calls ≠ []) :
    Shows (pairToolMessages ms) messageId calls results ↔ Distinguished calls := by
  constructor
  · rintro ⟨before, m, answers, after, hview, -, hasks, -⟩
    have hmem : m ∈ pairToolMessages ms := by
      rw [hview]
      exact List.mem_append_right _ List.mem_cons_self
    have hdistinct := (wellFormed_pairToolMessages ms).callIds hmem (hasks.callsTools hne)
    rw [hasks.callIds] at hdistinct
    exact hdistinct
  · intro hd
    obtain ⟨before, m, answers, after, rfl, hid, hasks, hanswers⟩ := h
    have hgroup := hasks.completes hanswers hids hne hd
    have hpart : pairToolMessages (m :: (answers ++ after)) =
        m :: (answers ++ pairToolMessages after) := pairToolMessages_part (.group m answers hgroup) after
    refine ⟨pairToolMessages before, m, answers, pairToolMessages after, ?_, hid, hasks, hanswers⟩
    rw [pairToolMessages_append (Message.isTool_of_callsTools hgroup.calls), hpart]

/-- What is on record of an answered batch is shown by the messages of its target. -/
theorem MemoryTranscript.Answered.shows {t : MemoryTranscript} {a : CallsArgs} {resultsOp : String}
    {r : BatchReceipt} (h : t.Answered a resultsOp r results) {snapshot : TranscriptSnapshot}
    (hs : t.listing a.recordTarget = snapshot.messages.map some) :
    Shows snapshot.messages r.assistantMessageId a.calls results := by
  obtain ⟨before, m, answers, after, hlisting, hid, hasks, hanswers⟩ := h.messages
  rw [hs] at hlisting
  obtain ⟨pre, rest, hsplit, -, hrest⟩ := List.map_eq_append_iff.mp hlisting
  obtain ⟨m', rest', rfl, hm, hrest'⟩ := List.map_eq_cons_iff.mp hrest
  obtain ⟨answers', post, rfl, hanswers', -⟩ := List.map_eq_append_iff.mp hrest'
  obtain rfl : m' = m := Option.some.inj hm
  obtain rfl : answers' = answers := List.map_injective_iff.mpr (Option.some_injective _) hanswers'
  exact ⟨pre, m', answers', post, hsplit, hid, hasks, hanswers⟩

/-! ## The stages of a batch in the pipeline -/

namespace DefaultToolPipeline

variable {pipeline : DefaultToolPipeline} {command : ToolBatchCommand} {base as : List Action}
  {t t' : MemoryTranscript} {w : World} {a : Action} {receipt : BatchReceipt}
  {P P' : MemoryTranscript → Prop}

/-- What the calls, and the results, are recorded with. -/
def callsArgs (command : ToolBatchCommand) : CallsArgs where
  runId := command.identity.runId
  stepNo := command.identity.stepNo
  recordTarget := command.recordTarget
  calls := command.calls
  assistantText := command.assistantText
  reasoning := command.reasoning
  logicalOpId := callsOp command
  previousReceipt := command.previousReceipt
  attempt := command.attempt

def resultsArgs (command : ToolBatchCommand) (receipt : BatchReceipt) (results : List ToolResult) :
    ResultsArgs where
  runId := command.identity.runId
  stepNo := command.identity.stepNo
  recordTarget := command.recordTarget
  results := results
  logicalOpId := resultsOp command
  previousReceipt := receipt

theorem resultsOp_ne_callsOp (command : ToolBatchCommand) : resultsOp command ≠ callsOp command := by
  intro h
  have hlist := congrArg String.toList h
  simp only [resultsOp, callsOp, batchOp, String.toList_append] at hlist
  have hkind := List.append_cancel_left hlist
  revert hkind
  decide

/-- The batch is at one of its stages. -/
abbrev Placed (command : ToolBatchCommand) (t : MemoryTranscript) : Prop :=
  t.Ready (callsArgs command) (resultsOp command)

/-- A completed batch whose receipt requires it has come to its last stage. -/
def Settled (command : ToolBatchCommand) (as : List Action) (t : MemoryTranscript) : Prop :=
  ∀ identity decision results receipt,
    .published .tools (.completed identity decision results (some receipt)) ∈ as →
      receipt.recordingRequired = true → command.calls ≠ [] ∧
        t.Answered (callsArgs command) (resultsOp command) receipt results

/-- The completion of a batch is published. -/
def completes : Action → Bool
  | .published .tools (.completed _ _ _ _) => true
  | _ => false

/-- On the way: nothing is completed, the batch is at one of its stages, and `P` holds. -/
structure Going (command : ToolBatchCommand) (P : MemoryTranscript → Prop) (as : List Action)
    (t : MemoryTranscript) : Prop where
  uncompleted : ∀ a ∈ as, completes a = false
  placed : Placed command t
  holds : P t

theorem Going.settled (h : Going command P as t) : Settled command as t := by
  intro identity decision results receipt hmem
  cases h.uncompleted _ hmem

theorem Going.concat (h : Going command P as t) (ha : completes a = false) :
    Going command P (as ++ [a]) t := by
  refine ⟨fun a' hmem => ?_, h.placed, h.holds⟩
  rcases List.mem_append.mp hmem with hmem | hmem
  · exact h.uncompleted a' hmem
  · rw [List.mem_singleton.mp hmem]
    exact ha

theorem Settled.concat (h : Settled command as t) (ha : completes a = false) :
    Settled command (as ++ [a]) t := by
  intro identity decision results receipt hmem
  rcases List.mem_append.mp hmem with hmem | hmem
  · exact h identity decision results receipt hmem
  · rw [← List.mem_singleton.mp hmem] at ha
    cases ha

theorem completes_aside (ha : a.aside = true) : completes a = false := by
  cases a with
  | stopped _ | masked => rfl
  | _ => cases ha

/-- Beside others that keep away from the target of the batch. -/
abbrev Apart (command : ToolBatchCommand) (base : List Action)
    (P : List Action → MemoryTranscript → Prop) : World → Prop :=
  Beside (fun call => call.target? ≠ some command.recordTarget) base P

/-- What holds at every node. -/
abbrev Safely (command : ToolBatchCommand) (base : List Action) : World → Prop :=
  Apart command base fun as t => Placed command t ∧ Settled command as t

/-- Kept as long as the target is left alone. -/
def Stays (command : ToolBatchCommand) (P : MemoryTranscript → Prop) : Prop :=
  ∀ t t', P t → t.Spares command.recordTarget t' → P t'

theorem spares_spared (hc : t.Consistent)
    (h : t.Spared (fun call => call.target? ≠ some command.recordTarget) t') :
    t.Spares command.recordTarget t' := by
  cases h with
  | call c hcall => exact MemoryTranscript.exec_spares hc hcall
  | failure opId => exact MemoryTranscript.spares_injectWriteFailure t opId

theorem safely_calm (command : ToolBatchCommand) (base : List Action) : Calm (Safely command base) := by
  refine Beside.calm (fun as t t' hc h hs => ?_) fun as t a ha h => ?_
  · obtain ⟨hplaced, hsettled⟩ := h
    have hspares := spares_spared hc hs
    refine ⟨hplaced.spares hspares, fun identity decision results receipt hmem hreq => ?_⟩
    obtain ⟨hne, hanswered⟩ := hsettled identity decision results receipt hmem hreq
    exact ⟨hne, hanswered.spares hspares⟩
  · exact ⟨h.1, h.2.concat (completes_aside ha)⟩

theorem going_calm (hP : Stays command P) : Calm (Apart command base (Going command P)) := by
  refine Beside.calm (fun as t t' hc h hs => ?_) fun as t a ha h => h.concat (completes_aside ha)
  have hspares := spares_spared hc hs
  exact ⟨h.uncompleted, h.placed.spares hspares, hP t t' h.holds hspares⟩

theorem going_safely (h : Apart command base (Going command P) w) : Safely command base w :=
  h.mono fun _ _ h => ⟨h.placed, h.settled⟩

theorem going_steady (base : List Action) (hP : Stays command P) :
    Steady (Safely command base) (fun _ : Unit => Apart command base (Going command P))
      (fun _ => Safely command base) (fun _ _ => Safely command base) :=
  (safely_calm command base).steady (fun _ => (going_calm hP).interfere)
    (fun _ => safely_calm command base) (fun _ _ => going_safely) (fun _ _ h => h)

/-! ## One call -/

theorem publish_going (hP : Stays command P) {event : ToolBatchEvent}
    (hevent : completes (.published .tools event) = false)
    (h : Apart command base (Going command P) w) :
    ((publish .tools event : Gen ToolBatchEvent Unit) w).wp (guarding (Safely command base))
      (fun _ _ => Apart command base (Going command P)) (fun _ _ => Safely command base) () := by
  have hnoted : Apart command base (Going command P) (w.note (.published .tools event)) :=
    h.note fun _ _ h => h.concat hevent
  refine Node.wp_mono (fun _ _ w' hd => ?_) (fun _ _ _ h => h.2) _ ()
    ((safely_calm command base).wp_publish (p := .tools) (going_safely hnoted))
  exact (going_calm hP).disturbed hd hnoted

theorem forwardReports_going (hP : Stays command P) {call : ToolCall} : ∀ (reports : List Report)
    {w : World}, Apart command base (Going command P) w →
    (forwardReports command call reports w).wp (guarding (Safely command base))
      (fun _ _ => Apart command base (Going command P)) (fun _ _ => Safely command base) ()
  | [], _, h => h
  | report :: reports, w, h => by
    have hdeclared : Apart command base (Going command P) (declareReport report w) := by
      cases report <;> exact h.same rfl rfl rfl
    have hevent : completes (.published .tools (reportEvent command call report)) = false := by
      cases report <;> rfl
    refine (Proc.wp_bind' _ _ w ()).mpr ((Proc.wp_bind' _ _ _ ()).mpr ?_)
    exact Node.wp_mono (fun _ _ w' h' => forwardReports_going hP reports h') (fun _ _ _ h => h) _ ()
      (publish_going hP hevent hdeclared)

theorem invoke_going (hP : Stays command P) {call : ToolCall}
    (h : Apart command base (Going command P) w) :
    (invoke command call w).wp (guarding (Safely command base))
      (fun _ _ => Apart command base (Going command P)) (fun _ _ => Safely command base) () := by
  have S := going_steady base hP
  refine (Proc.wp_bind' _ _ w ()).mpr ((Proc.wp_bind' _ _ _ ()).mpr ?_)
  refine Node.wp_mono (fun _ r w₁ h₁ => ?_) (fun _ _ _ h => h) _ ()
    (S.wp_hostAsk tame_guarding (h.note fun _ _ h => h.concat (a := .invoking call) rfl))
  obtain ⟨reports, landing⟩ := r
  refine (Proc.wp_bind' _ _ w₁ ()).mpr (Node.wp_mono (fun _ _ w₂ h₂ => ?_) (fun _ _ _ h => h) _ ()
    (forwardReports_going hP reports h₁))
  cases landing with
  | returned outcome => exact h₂.note fun _ _ h => h.concat (a := .invoked outcome) rfl
  | raised e => exact S.raised (g := ()) e h₂
  | stopped => exact S.wp_stopNow (going_safely h₂)

theorem invokeAll_going (hP : Stays command P) : ∀ (calls : List ToolCall)
    (outcomes : List InvocationOutcome) {w : World}, Apart command base (Going command P) w →
    (invokeAll command calls outcomes w).wp (guarding (Safely command base))
      (fun _ _ => Apart command base (Going command P)) (fun _ _ => Safely command base) ()
  | [], _, _, h => h
  | call :: calls, outcomes, w, h => by
    refine (Proc.wp_bind' _ _ w ()).mpr (Node.wp_mono (fun _ _ w₁ h₁ => ?_) (fun _ _ _ h => h) _ ()
      ((going_steady base hP).wp_raiseIfStopped h))
    refine (Proc.wp_bind' _ _ w₁ ()).mpr (Node.wp_mono (fun _ outcome w₂ h₂ => ?_)
      (fun _ _ _ h => h) _ () (invoke_going hP h₁))
    refine (Proc.wp_bind' _ _ w₂ ()).mpr (Node.wp_mono (fun _ _ w₃ h₃ => ?_) (fun _ _ _ h => h) _ ()
      (publish_going hP rfl h₂))
    exact invokeAll_going hP calls (outcomes ++ [outcome]) h₃

theorem decide_going (hP : Stays command P) {outcomes : List InvocationOutcome}
    (h : Apart command base (Going command P) w) :
    (decide command outcomes w).wp (guarding (Safely command base))
      (fun _ _ => Apart command base (Going command P)) (fun _ _ => Safely command base) () := by
  have S := going_steady base hP
  have hnoted := h.note (a := .deciding outcomes) fun _ _ h => h.concat rfl
  refine (Proc.wp_bind' _ _ w ()).mpr ((Proc.wp_tryCatch _ _ _ ()).mpr ?_)
  refine Node.wp_mono (fun _ _ _ h => h) (fun _ e w₁ h₁ => ?_) _ () (S.wp_hostAsk tame_guarding hnoted)
  split
  · exact S.masked (g := ()) h₁
  · exact h₁

/-! ## Recording -/

/-- A call of the batch that leads from `P` to `P'`, or fails. -/
theorem wp_record {α : Type} (c : Call) (into : α → Reply)
    (method : MemoryTranscript → Except Exc α × MemoryTranscript) (P' : α → MemoryTranscript → Prop)
    (hmethod : ∀ t, c.exec t = (method t).map (·.map into) id) (hP : Stays command P)
    (hok : ∀ t r, t.Consistent → Placed command t → P t → (c.exec t).1 = .ok (into r) →
      Placed command (c.exec t).2 ∧ P' r (c.exec t).2)
    (h : Apart command base (Going command P) w) :
    ((locked method : Gen ToolBatchEvent α) w).wp (guarding (Safely command base))
      (fun _ r => Apart command base (Going command (P' r))) (fun _ _ => Safely command base) () := by
  refine (going_steady base hP).wp_call tame_guarding c into method hmethod (fun w' r h hr => ?_)
    (fun w' e h he => ?_) h
  · refine h.exec c fun as hgoing => ?_
    obtain ⟨hplaced, hholds⟩ := hok _ r h.consistent hgoing.placed hgoing.holds hr
    exact ⟨hgoing.uncompleted, hplaced, hholds⟩
  · have hspares : w'.transcript.Spares command.recordTarget (c.exec w'.transcript).2 :=
      MemoryTranscript.spares_failed he
    have hnext : Apart command base (Going command P)
        { w' with transcript := (c.exec w'.transcript).2 } := h.exec c fun as hgoing =>
      ⟨hgoing.uncompleted, hgoing.placed.spares hspares, hP _ _ hgoing.holds hspares⟩
    exact going_safely hnext

theorem stays_received (command : ToolBatchCommand) (receipt : BatchReceipt) : Stays command fun t =>
    t.Received (callsArgs command) (resultsOp command) receipt := fun _ _ h hs => h.spares hs

/-- The results are recorded, where they have to be. -/
def Recorded (command : ToolBatchCommand) (receipt : BatchReceipt) (results : List ToolResult)
    (t : MemoryTranscript) : Prop :=
  receipt.recordingRequired = true →
    t.Answered (callsArgs command) (resultsOp command) receipt results

theorem stays_recorded (command : ToolBatchCommand) (receipt : BatchReceipt)
    (results : List ToolResult) :
    Stays command (Recorded command receipt results) := fun _ _ h hs hreq => (h hreq).spares hs

theorem recordCalls_going (bindings : BindingRegistry) (validator : Draft202012Validator)
    (h : Apart command base (Going command fun _ => True) w) :
    (recordCalls ⟨memoryTranscript, bindings, validator⟩ command w).wp
      (guarding (Safely command base))
      (fun _ receipt => Apart command base (Going command fun t =>
        t.Received (callsArgs command) (resultsOp command) receipt))
      (fun _ _ => Safely command base) () := by
  have hnoted := h.note (a := .recordingCalls command) fun _ _ h => h.concat rfl
  refine (Proc.wp_bind' _ _ w ()).mpr ((Proc.wp_bind' _ _ _ ()).mpr ?_)
  refine Node.wp_mono (fun _ receipt w₁ h₁ => ?_) (fun _ _ _ h => h) _ ()
    (wp_record (.recordToolCalls (callsArgs command)) .batch (·.recordToolCalls _)
      (fun receipt t => t.Received (callsArgs command) (resultsOp command) receipt) (fun _ => rfl)
      (fun _ _ _ _ => trivial) (fun t receipt hc hplaced _ hr => ?_) hnoted)
  · exact h₁.note (a := .recordedCalls receipt) fun _ _ h => h.concat rfl
  · have hreceived := hplaced.recordToolCalls hc (resultsOp_ne_callsOp command) hr
    exact ⟨.received receipt hreceived, hreceived⟩

theorem recordResults_going (bindings : BindingRegistry) (validator : Draft202012Validator)
    (results : List ToolResult)
    (h : Apart command base (Going command fun t =>
      t.Received (callsArgs command) (resultsOp command) receipt) w) :
    (recordResults ⟨memoryTranscript, bindings, validator⟩ command receipt results w).wp
      (guarding (Safely command base))
      (fun _ _ => Apart command base (Going command (Recorded command receipt results)))
      (fun _ _ => Safely command base) () := by
  unfold recordResults
  split
  · rename_i hreq
    have hnoted := h.note (a := .recordingResults results) fun _ _ h => h.concat rfl
    refine (Proc.wp_bind' _ _ w ()).mpr ((Proc.wp_bind' _ _ _ ()).mpr ?_)
    refine Node.wp_mono (fun _ _ w₁ h₁ => ?_) (fun _ _ _ h => h) _ ()
      (wp_record (.recordToolResults (resultsArgs command receipt results)) .messages
        (·.recordToolResults _) (fun _ => Recorded command receipt results) (fun _ => rfl)
        (stays_received command receipt)
        (fun t receipts hc hplaced hreceived hr => ?_) hnoted)
    · exact h₁.note (a := .recordedResults) fun _ _ h => h.concat rfl
    · have hanswered := hreceived.recordToolResults hc hreq rfl rfl rfl hr
      exact ⟨.received receipt (.answered results hanswered), fun _ => hanswered⟩
  · rename_i hreq
    exact h.mono fun _ _ h => ⟨h.uncompleted, h.placed, fun hreq' => absurd hreq' hreq⟩

/-! ## The batch -/

/-- The completion may be published once the results are recorded. -/
theorem Going.complete {results : List ToolResult} (hne : command.calls ≠ [])
    (h : Going command (Recorded command receipt results) as t) (decision : FlowDecision) :
    Settled command (as ++ [.published .tools
      (.completed command.identity decision results (some receipt))]) t := by
  intro identity decision' results' receipt' hmem hreq
  rcases List.mem_append.mp hmem with hmem | hmem
  · exact h.settled identity decision' results' receipt' hmem hreq
  · cases List.mem_singleton.mp hmem
    exact ⟨hne, h.holds hreq⟩

theorem execute_going (bindings : BindingRegistry) (validator : Draft202012Validator)
    (h : Apart command base (Going command fun _ => True) w) :
    (execute ⟨memoryTranscript, bindings, validator⟩ command w).wp (guarding (Safely command base))
      (fun _ _ => Safely command base) (fun _ _ => Safely command base) () := by
  have hstart : Stays command fun _ => True := fun _ _ _ _ => trivial
  refine (Proc.wp_bind' _ _ w ()).mpr (Node.wp_mono (fun _ _ w₁ h₁ => ?_) (fun _ _ _ h => h) _ ()
    ((going_steady base hstart).wp_raiseIfStopped h))
  refine (Proc.wp_bind' _ _ w₁ ()).mpr ?_
  cases hvalid : validateBatch ⟨memoryTranscript, bindings, validator⟩ command with
  | error e => exact going_safely h₁
  | ok _ =>
    have hne := (validateBatch_ok.mp hvalid).nonempty
    refine (Proc.wp_bind' _ _ w₁ ()).mpr (Node.wp_mono (fun _ receipt w₂ h₂ => ?_)
      (fun _ _ _ h => h) _ () (recordCalls_going bindings validator h₁))
    have hreceived := stays_received command receipt
    refine (Proc.wp_bind' _ _ w₂ ()).mpr (Node.wp_mono (fun _ _ w₃ h₃ => ?_) (fun _ _ _ h => h) _ ()
      (publish_going hreceived rfl h₂))
    refine (Proc.wp_bind' _ _ w₃ ()).mpr (Node.wp_mono (fun _ outcomes w₄ h₄ => ?_)
      (fun _ _ _ h => h) _ () (invokeAll_going hreceived command.calls [] h₃))
    have hrecorded := stays_recorded command receipt (outcomes.map (·.result))
    have hresults := recordResults_going bindings validator (outcomes.map (·.result)) h₄
    refine (Proc.wp_bind' _ _ w₄ ()).mpr (Node.wp_mono (fun _ _ w₅ h₅ => ?_) (fun _ _ _ h => h) _ ()
      hresults)
    refine (Proc.wp_bind' _ _ w₅ ()).mpr (Node.wp_mono (fun _ decision w₆ h₆ => ?_)
      (fun _ _ _ h => h) _ () (decide_going hrecorded h₅))
    have hcompleted : Safely command base (w₆.note (.published .tools
        (.completed command.identity decision (outcomes.map (·.result)) (some receipt)))) :=
      h₆.note fun _ _ h => ⟨h.placed, h.complete hne decision⟩
    refine Node.wp_mono (fun _ _ w₇ hd => ?_) (fun _ _ _ h => h.2) _ ()
      ((safely_calm command base).wp_publish (p := .tools) hcompleted)
    exact (safely_calm command base).disturbed hd hcompleted

theorem placed_start (command : ToolBatchCommand)
    (hcalls : t.Unfiled command.recordTarget (callsOp command))
    (hresults : t.Unfiled command.recordTarget (resultsOp command))
    (htext : ∀ id, t.textIds (callsArgs command).key = some id →
      (t.order command.recordTarget.value).getLast? = some id) : Placed command t :=
  .unstarted ⟨hcalls, hresults, htext⟩

/-- **What the model is shown.** At every node of every run of the pipeline on the memory transcript,
beside others that keep away from the target, the batch is at one of its stages; and once a batch that
has to be recorded is completed, with a result for each call, the view of the target shows its calls with
their results exactly if the calls can be told apart. -/
theorem execute_shows_iff (bindings : BindingRegistry) (validator : Draft202012Validator)
    (command : ToolBatchCommand) (w : World) (hw : w.transcript.Reachable fun _ _ => True)
    (hothers : ∀ call, w.others call = true → call.target? ≠ some command.recordTarget)
    (hplaced : Placed command w.transcript) (turns : List Turn) :
    let pipeline : DefaultToolPipeline := ⟨memoryTranscript, bindings, validator⟩
    let w' := ((pipeline.execute command).run w turns).state
    ∃ added, w'.log = w.log ++ added ∧ Placed command w'.transcript ∧
      ∀ identity decision results receipt,
        .published .tools (.completed identity decision results (some receipt)) ∈ added →
        receipt.recordingRequired = true →
        results.map (·.callId) = command.calls.map (·.callId) →
        ∃ snapshot, w'.transcript.snapshot command.recordTarget = some snapshot ∧
          (Shows (pairToolMessages snapshot.messages) receipt.assistantMessageId command.calls results ↔
            Distinguished command.calls) := by
  intro pipeline w'
  have hstart : Apart command w.log (Going command fun _ => True) w :=
    ⟨hothers, hw.consistent, [], (List.append_nil _).symm, fun _ h => (by cases h), hplaced, trivial⟩
  have hsafely : Safely command w.log w' :=
    guarding_run (execute_going bindings validator hstart) turns
  obtain ⟨-, hconsistent, added, hlog, hplaced', hsettled⟩ := hsafely
  refine ⟨added, hlog, hplaced', fun identity decision results receipt hmem hreq hids => ?_⟩
  obtain ⟨hne, hanswered⟩ := hsettled identity decision results receipt hmem hreq
  obtain ⟨snapshot, hsnapshot, hlisting⟩ := hconsistent.snapshot command.recordTarget
  refine ⟨snapshot, hsnapshot, ?_⟩
  exact shows_pairToolMessages_iff (hanswered.shows hlisting) hids hne

/-! ## Two runs -/

/-- A batch of calls to one tool, under the given ids. -/
def askBatch (callIds : List String) : ToolBatchCommand where
  identity := ⟨"r", 1, 1⟩
  recordTarget := ⟨"t"⟩
  calls := callIds.map fun callId => { callId := callId, name := "ask" }
  capabilities := { version := "c1", tools := [⟨"ask", "", []⟩], bindingRef := ⟨"b1"⟩ }

/-- Every call is answered under its own id. -/
def toolAnswers : Turn where
  reply
    | .lock => .ok ()
    | .invoke call _ => .ok ([], .returned { result := ⟨call.callId, call.name, "done", false⟩ })
    | .resultPolicy _ _ => .ok ⟨.finish, none, none⟩
    | _ => .error (.other "RuntimeError" "not asked" none)

/-- Nobody else writes. -/
def askedRun (callIds : List String) : Tree ToolBatchEvent Unit :=
  (execute ⟨memoryTranscript, { versions := [("b1", [("ask", "ask")])] }, typeValidator⟩ (askBatch callIds)).run
    { runId := "r", recordTarget := ⟨"t"⟩, others := fun _ => false } (List.replicate 12 toolAnswers)

/-- The receipt of a batch of two calls. -/
def askReceipt (callId callId' : String) : BatchReceipt where
  runId := "r"
  stepNo := 1
  recordTarget := ⟨"t"⟩
  logicalOpId := "r:1:t:tool_calls"
  calls := [⟨callId, "ask", "msg:r:1"⟩, ⟨callId', "ask", "msg:r:1"⟩]
  assistantMessageId := some "msg:r:1"

/-- Two calls with one id: both are invoked and recorded, the batch is completed, and the view is
empty. -/
theorem twinCalls_hidden :
    let w := (askedRun ["c1", "c1"]).state
    w.log.getLast? = some (.published .tools (.completed ⟨"r", 1, 1⟩ ⟨.finish, none, none⟩
        [⟨"c1", "ask", "done", false⟩, ⟨"c1", "ask", "done", false⟩] (some (askReceipt "c1" "c1")))) ∧
      ((w.transcript.snapshot ⟨"t"⟩).map fun s => s.messages.length) = some 3 ∧
      ((w.transcript.snapshot ⟨"t"⟩).map fun s => (pairToolMessages s.messages).isEmpty) = some true :=
  ⟨rfl, rfl, by decide +kernel⟩

theorem askedRun_shown :
    ∃ snapshot, (askedRun ["c1", "c2"]).state.transcript.snapshot ⟨"t"⟩ = some snapshot ∧
      Shows (pairToolMessages snapshot.messages) (some "msg:r:1") (askBatch ["c1", "c2"]).calls
        [⟨"c1", "ask", "done", false⟩, ⟨"c2", "ask", "done", false⟩] := by
  have hlast : (askedRun ["c1", "c2"]).state.log.getLast? =
      some (.published .tools (.completed ⟨"r", 1, 1⟩ ⟨.finish, none, none⟩
        [⟨"c1", "ask", "done", false⟩, ⟨"c2", "ask", "done", false⟩]
        (some (askReceipt "c1" "c2")))) := rfl
  obtain ⟨added, hlog, -, hshows⟩ := execute_shows_iff { versions := [("b1", [("ask", "ask")])] } typeValidator
    (askBatch ["c1", "c2"]) { runId := "r", recordTarget := ⟨"t"⟩, others := fun _ => false } (.empty [])
    (fun _ hcall => by cases hcall)
    (placed_start _ (fun _ ho => by cases ho) (fun _ ho => by cases ho) fun _ hid => by cases hid)
    (List.replicate 12 toolAnswers)
  have hadded : added = (askedRun ["c1", "c2"]).state.log := hlog.symm
  rw [hadded] at hshows
  obtain ⟨snapshot, hsnapshot, hiff⟩ := hshows _ _ _ _ (List.mem_of_getLast? hlast) rfl rfl
  exact ⟨snapshot, hsnapshot, hiff.mpr ⟨by decide, by decide⟩⟩

end DefaultToolPipeline

end AgentRuntime
