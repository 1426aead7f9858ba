import AgentRuntime.OpIds
import AgentRuntime.Pipelines.Recovery
import AgentRuntime.Recording.Texts

/-!
# What the attempts leave on the transcript

A model step on the memory transcript, read off its log: what each attempt was told by the low-level
model, and what it published.

* `Call.Elsewhere` — a call that is not about the text of the step;
* `contentOf` — the content law: the deltas of an attempt, or the text of its result;
* `Recounts` — what the transcript and the log agree on;
* `stream_recounts` — they agree at every node of every run of the pipeline.
-/

set_option autoImplicit false

namespace AgentRuntime

open Async

namespace DefaultModelPipeline

/-! ## The text of a step -/

/-- The key of the message of an attempt. -/
def textKey (step : PreparedStep) (attempt : Int) : TextKey :=
  (step.identity.runId, step.identity.stepNo, step.recordTarget.value, attempt)

theorem textKey_inj {step : PreparedStep} {m n : Int} (h : textKey step m = textKey step n) : m = n :=
  (Prod.mk.inj (Prod.mk.inj (Prod.mk.inj h).2).2).2

/-- The operation is one of the step. -/
def OfStep (step : PreparedStep) (opId : String) : Prop :=
  (∃ n i : Nat, opId = deltaOp step n i) ∨ ∃ n : Nat, opId = finalOp step n

end DefaultModelPipeline

/-- A call that neither writes to the text of the step nor uses its operations. -/
structure Call.Elsewhere (step : PreparedStep) (c : Call) : Prop where
  key : ∀ w, c.textWrite? = some w → ∀ n : Int, w.key ≠ DefaultModelPipeline.textKey step n
  opId : ¬ DefaultModelPipeline.OfStep step c.opId

namespace DefaultModelPipeline

/-! ## The log -/

/-- The texts that the low-level model delivered in an attempt. -/
def heardText? (n : Nat) : Action → Option String
  | .delivered m (.textDelta _ text _ _) => if m = n then some text else none
  | _ => none

def heard (n : Nat) (as : List Action) : List String := as.filterMap (heardText? n)

/-- The texts that were published for an attempt. -/
def toldText? (n : Nat) : Action → Option String
  | .published .model (.textDelta _ text m _) => if m = n then some text else none
  | _ => none

def told (n : Nat) (as : List Action) : List String := as.filterMap (toldText? n)

/-- The result that was published for an attempt. -/
def resultOf? (n : Nat) : Action → Option ModelResult
  | .published .model (.completed _ result _) => if result.attempt = n then some result else none
  | _ => none

def completion? (n : Nat) (as : List Action) : Option ModelResult := as.findSome? (resultOf? n)

/-- What belongs to an attempt. -/
def ofAttempt : Action → Bool
  | .reserved _ _ | .modelCalled _ _ | .delivered _ _ | .published .model _ => true
  | _ => false

/-- The deltas of an attempt put together. -/
def joined : List String → Option String
  | [] => none
  | text :: texts => some (String.join (text :: texts))

/-- **The content law.** No message, or the deltas in order, which the text of the result replaces. -/
def contentOf (texts : List String) : Option ModelResult → Option (Option String)
  | none => (joined texts).map some
  | some result => some (result.text.or (joined texts))

/-- The receipt is that of a message that is stored, under an operation on file. -/
structure Committed (t : MemoryTranscript) (key : TextKey) (r : MessageReceipt) : Prop where
  textId : t.textIds key = some r.messageId
  stored : (t.messages r.messageId).isSome = true
  filed : (t.ops r.logicalOpId).isSome = true

/-- A published delta, and a published completion, carry such a receipt of their attempt. -/
def Carried (step : PreparedStep) (t : MemoryTranscript) : ModelStepEvent → Prop
  | .textDelta _ _ attempt receipt => ∃ r, receipt = some r ∧ Committed t (textKey step attempt) r
  | .reasoningDelta _ _ _ => True
  | .completed _ result receipt => ∃ r, receipt = some r ∧ Committed t (textKey step result.attempt) r

/-- What the transcript and the log of a step agree on. -/
structure Recounts (step : PreparedStep) (as : List Action) (t : MemoryTranscript) : Prop where
  /-- The message of an attempt holds what was published for it, and nothing else. -/
  content : ∀ n : Nat, (t.text (textKey step n)).map (·.content) = contentOf (told n as) (completion? n as)
  /-- All that was delivered is published, but for a delta whose recording failed or is under way. -/
  delivered : ∀ n, told n as <+: heard n as ∧ (heard n as).length ≤ (told n as).length + 1
  whole : ∀ n result, completion? n as = some result → told n as = heard n as
  carried : ∀ event, .published .model event ∈ as → Carried step t event
  /-- The completion is effective, and nothing follows it. -/
  sealed : ∀ pre identity result receipt post,
    as = pre ++ .published .model (.completed identity result receipt) :: post →
    result.isEffective = true ∧ ∀ a ∈ post, ofAttempt a = false

variable {step : PreparedStep} {as : List Action} {a : Action} {t t' : MemoryTranscript} {n k : Nat}

theorem heard_snoc (n : Nat) (as : List Action) (a : Action) :
    heard n (as ++ [a]) = heard n as ++ (heardText? n a).toList := by
  unfold heard
  rw [List.filterMap_append]
  cases h : heardText? n a <;> simp [h]

theorem told_snoc (n : Nat) (as : List Action) (a : Action) :
    told n (as ++ [a]) = told n as ++ (toldText? n a).toList := by
  unfold told
  rw [List.filterMap_append]
  cases h : toldText? n a <;> simp [h]

theorem completion?_snoc (n : Nat) (as : List Action) (a : Action) :
    completion? n (as ++ [a]) = (completion? n as).or (resultOf? n a) := by
  unfold completion?
  rw [List.findSome?_append]
  cases h : resultOf? n a <;> simp [h]

theorem joined_snoc (texts : List String) (text : String) :
    joined (texts ++ [text]) = some ((joined texts).getD "" ++ text) := by
  cases texts with
  | nil => simp [joined]
  | cons first texts => simp [joined, String.join_append, String.append_assoc]

/-- The message of an attempt, when a delta is written to it. -/
theorem delta_content {o : Option Message} {texts : List String} {text : String}
    {fresh : Message} {update : Message → Message} (h : o.map (·.content) = (joined texts).map some)
    (hfresh : fresh.content = some text)
    (hupdate : ∀ m, (update m).content = some (m.content.getD "" ++ text)) :
    (o.elim fresh update).content = joined (texts ++ [text]) := by
  rw [joined_snoc]
  cases o with
  | none =>
    have hnone : joined texts = none := by simpa using h.symm
    rw [hnone, Option.elim_none, hfresh, Option.getD_none, String.empty_append]
  | some m =>
    have hsome : joined texts = m.content := by
      cases hj : joined texts with
      | none => rw [hj] at h; cases h
      | some text' => rw [hj] at h; exact (Option.some.inj h).symm
    rw [Option.elim_some, hupdate, hsome]

/-- The message of an attempt, when the text of its result is written to it. -/
theorem final_content {o : Option Message} {texts : List String} {text : Option String}
    {fresh : Message} {update : Message → Message} (h : o.map (·.content) = (joined texts).map some)
    (hfresh : fresh.content = text)
    (hupdate : ∀ m, (update m).content = MemoryTranscript.orCurrent text m.content) :
    (o.elim fresh update).content = text.or (joined texts) := by
  cases o with
  | none =>
    have hnone : joined texts = none := by simpa using h.symm
    rw [hnone, Option.elim_none, hfresh, Option.or_none]
  | some m =>
    have hsome : joined texts = m.content := by
      cases hj : joined texts with
      | none => rw [hj] at h; cases h
      | some text' => rw [hj] at h; exact (Option.some.inj h).symm
    rw [Option.elim_some, hupdate, hsome]
    cases text <;> rfl

/-! ## What others do -/

/-- From the point of view of the step nothing was written. -/
structure Apart (step : PreparedStep) (t t' : MemoryTranscript) : Prop where
  textIds : ∀ n : Int, t'.textIds (textKey step n) = t.textIds (textKey step n)
  text : ∀ n : Int, t'.text (textKey step n) = t.text (textKey step n)
  stored : ∀ id, (t.messages id).isSome = true → (t'.messages id).isSome = true
  filed : ∀ opId, (t.ops opId).isSome = true → (t'.ops opId).isSome = true
  unfiled : ∀ opId, OfStep step opId → t.ops opId = none → t'.ops opId = none

theorem apart_exec (hc : t.Consistent) {c : Call} (h : c.Elsewhere step) : Apart step t (c.exec t).2 where
  textIds n := (MemoryTranscript.exec_text hc c fun w hw => h.key w hw n).1
  text n := (MemoryTranscript.exec_text hc c fun w hw => h.key w hw n).2
  stored id hid := by
    obtain ⟨m, hm⟩ := Option.isSome_iff_exists.mp hid
    obtain ⟨m', hm', -⟩ := (hc.exec c).2.1.role id m hm
    rw [hm']
    rfl
  filed opId hop := by
    obtain ⟨op, ho⟩ := Option.isSome_iff_exists.mp hop
    rw [MemoryTranscript.exec_ops ho c]
    rfl
  unfiled opId hop ho := MemoryTranscript.exec_unfiled ho fun he => h.opId (he ▸ hop)

theorem Committed.apart {n : Int} {r : MessageReceipt} (h : Committed t (textKey step n) r)
    (ha : Apart step t t') : Committed t' (textKey step n) r :=
  ⟨(ha.textIds n).trans h.textId, ha.stored _ h.stored, ha.filed _ h.filed⟩

theorem Carried.apart {event : ModelStepEvent} (h : Carried step t event) (ha : Apart step t t') :
    Carried step t' event := by
  cases event with
  | reasoningDelta _ _ _ => trivial
  | textDelta _ _ _ _ | completed _ _ _ =>
    obtain ⟨r, hr, hcommitted⟩ := h
    exact ⟨r, hr, hcommitted.apart ha⟩

theorem Recounts.apart (h : Recounts step as t) (ha : Apart step t t') : Recounts step as t' :=
  ⟨fun n => by rw [ha.text]; exact h.content n, h.delivered, h.whole,
    fun event he => (h.carried event he).apart ha, h.sealed⟩

/-! ## The states of a step -/

/-- Nothing is completed yet, and nothing is known of the attempts behind `k`. -/
structure Unsealed (step : PreparedStep) (k : Nat) (as : List Action) (t : MemoryTranscript) :
    Prop where
  content : ∀ n : Nat, (t.text (textKey step n)).map (·.content) = (joined (told n as)).map some
  delivered : ∀ n, told n as <+: heard n as ∧ (heard n as).length ≤ (told n as).length + 1
  carried : ∀ event, .published .model event ∈ as → Carried step t event
  incomplete : ∀ identity result receipt, .published .model (.completed identity result receipt) ∉ as
  ahead : ∀ n, k < n → told n as = [] ∧ heard n as = []
  deltas : ∀ n i, k < n → t.ops (deltaOp step n i) = none
  finals : ∀ n : Nat, k < n → t.ops (finalOp step n) = none

/-- Attempt `k` is going on, with the locals of the two loops. -/
structure Delivering (step : PreparedStep) (k : Nat) (p : Pass) (b : Locals) (as : List Action)
    (t : MemoryTranscript) : Prop extends Unsealed step k as t where
  uncompleted : p.completed = false
  whole : told k as = heard k as
  delta : ∀ i, b.deltas < i → t.ops (deltaOp step k i) = none
  final : t.ops (finalOp step k) = none
  pending : ∀ result, b.pending = some result → result.isEffective = true ∧ result.attempt = k

theorem completion?_none (h : ∀ identity result receipt,
    .published .model (.completed identity result receipt) ∉ as) (n : Nat) : completion? n as = none := by
  refine List.findSome?_eq_none_iff.mpr fun a ha => ?_
  unfold resultOf?
  split
  · exact absurd ha (h _ _ _)
  · rfl

theorem Unsealed.apart (h : Unsealed step k as t) (ha : Apart step t t') : Unsealed step k as t' :=
  ⟨fun n => by rw [ha.text]; exact h.content n, h.delivered,
    fun event he => (h.carried event he).apart ha, h.incomplete, h.ahead,
    fun n i hn => ha.unfiled _ (.inl ⟨n, i, rfl⟩) (h.deltas n i hn),
    fun n hn => ha.unfiled _ (.inr ⟨n, rfl⟩) (h.finals n hn)⟩

theorem Delivering.apart {p : Pass} {b : Locals} (h : Delivering step k p b as t)
    (ha : Apart step t t') : Delivering step k p b as t' :=
  ⟨h.toUnsealed.apart ha, h.uncompleted, h.whole,
    fun i hi => ha.unfiled _ (.inl ⟨k, i, rfl⟩) (h.delta i hi),
    ha.unfiled _ (.inr ⟨k, rfl⟩) h.final, h.pending⟩

/-- An action that is neither a delivery nor a publication. -/
def Neutral (a : Action) : Prop :=
  (∀ n, heardText? n a = none) ∧ ∀ event, a ≠ .published .model event

theorem Neutral.told (ha : Neutral a) (n : Nat) (as : List Action) : told n (as ++ [a]) = told n as := by
  have hnone : toldText? n a = none := by
    unfold toldText?
    split
    · exact absurd rfl (ha.2 _)
    · rfl
  rw [told_snoc, hnone]
  exact List.append_nil _

theorem Neutral.heard (ha : Neutral a) (n : Nat) (as : List Action) :
    heard n (as ++ [a]) = heard n as := by
  rw [heard_snoc, ha.1]
  exact List.append_nil _

theorem mem_concat_published {event : ModelStepEvent} (ha : ∀ event, a ≠ .published .model event)
    (h : .published .model event ∈ as ++ [a]) : .published .model event ∈ as := by
  rcases List.mem_append.mp h with h | h
  · exact h
  · exact absurd (List.mem_singleton.mp h).symm (ha event)

theorem Unsealed.neutral (h : Unsealed step k as t) (ha : Neutral a) : Unsealed step k (as ++ [a]) t where
  content n := by rw [ha.told]; exact h.content n
  delivered n := by rw [ha.told, ha.heard]; exact h.delivered n
  carried event he := h.carried event (mem_concat_published ha.2 he)
  incomplete identity result receipt he :=
    h.incomplete identity result receipt (mem_concat_published ha.2 he)
  ahead n hn := by rw [ha.told, ha.heard]; exact h.ahead n hn
  deltas := h.deltas
  finals := h.finals

theorem Delivering.neutral {p : Pass} {b b' : Locals} (h : Delivering step k p b as t) (ha : Neutral a)
    (hdeltas : b'.deltas = b.deltas)
    (hpending : ∀ result, b'.pending = some result → result.isEffective = true ∧ result.attempt = k) :
    Delivering step k p b' (as ++ [a]) t :=
  ⟨h.toUnsealed.neutral ha, h.uncompleted, by rw [ha.told, ha.heard]; exact h.whole,
    by rw [hdeltas]; exact h.delta, h.final, hpending⟩

/-! ## The operations of a step -/

theorem Place.not_extends (p : Place) : ¬ p.Extends p := fun h => h.ne rfl

theorem deltaOp_inj {n i m j : Nat} (h : deltaOp step n i = deltaOp step m j) : n = m ∧ i = j := by
  rw [id_textDelta, id_textDelta] at h
  rcases Operation.eq_or_collides h with heq | ⟨hext | hext, -⟩
  · cases heq
    exact ⟨rfl, rfl⟩
  · exact absurd hext (Place.not_extends _)
  · exact absurd hext (Place.not_extends _)

theorem finalOp_ne_deltaOp {n : Int} {m i : Nat} : finalOp step n ≠ deltaOp step m i := by
  rw [id_textDelta, id_textFinal]
  intro h
  cases Operation.kind_eq h

/-! ## What the pipeline does -/

variable {p : Pass} {b b' : Locals} {event : ModelStepEvent} {result : ModelResult}

theorem neutral_aside (ha : a.aside = true) : Neutral a := by
  cases a with
  | stopped _ | masked => exact ⟨fun _ => rfl, fun _ he => by cases he⟩
  | _ => cases ha

theorem heardText?_of_ne {m : Nat} (h : k ≠ m) (event : ModelStepEvent) :
    heardText? m (.delivered k event) = none := by
  cases event with
  | textDelta _ _ _ _ => exact if_neg h
  | _ => rfl

/-- An event is delivered, and nothing is published for it yet. -/
theorem Delivering.deliver (h : Delivering step k p b as t) (event : ModelStepEvent) :
    Unsealed step k (as ++ [.delivered k event]) t := by
  have hne : ∀ e, (.delivered k event : Action) ≠ .published .model e := fun _ he => by cases he
  have htold : ∀ n, told n (as ++ [.delivered k event]) = told n as := fun n => by
    rw [told_snoc]
    exact List.append_nil _
  refine ⟨fun n => by rw [htold]; exact h.content n, fun n => ?_,
    fun e he => h.carried e (mem_concat_published hne he),
    fun _ _ _ he => h.incomplete _ _ _ (mem_concat_published hne he), fun n hn => ?_, h.deltas, h.finals⟩
  · rw [htold, heard_snoc]
    by_cases hk : k = n
    · subst hk
      rw [h.whole]
      refine ⟨List.prefix_append _ _, ?_⟩
      rw [List.length_append]
      cases heardText? k (.delivered k event) <;> simp
    · rw [heardText?_of_ne hk, Option.toList_none, List.append_nil]
      exact h.delivered n
  · rw [htold, heard_snoc, heardText?_of_ne (Nat.ne_of_lt hn), Option.toList_none, List.append_nil]
    exact h.ahead n hn

/-- A receipt stays good when text is written under it, or elsewhere. -/
theorem Committed.wrote {w : Call.TextWrite} {opId id : String} {key : TextKey} {r : MessageReceipt}
    (h : Committed t key r) (hw : t.Wrote w opId id t') : Committed t' key r := by
  refine ⟨?_, ?_, ?_⟩
  · by_cases hkey : w.key = key
    · rw [← hkey, hw.textId, hw.same r.messageId (hkey ▸ h.textId)]
    · exact ((hw.others key hkey).1).trans h.textId
  · obtain ⟨m, hm⟩ := Option.isSome_iff_exists.mp h.stored
    obtain ⟨m', hm', -⟩ := hw.grows.role _ m hm
    rw [hm']
    rfl
  · by_cases hop : r.logicalOpId = opId
    · rw [hop]
      exact hw.filed
    · rw [hw.ops _ hop]
      exact h.filed

theorem Carried.wrote {w : Call.TextWrite} {opId id : String} (h : Carried step t event)
    (hw : t.Wrote w opId id t') : Carried step t' event := by
  cases event with
  | reasoningDelta _ _ _ => trivial
  | textDelta _ _ _ _ | completed _ _ _ =>
    obtain ⟨r, hr, hcommitted⟩ := h
    exact ⟨r, hr, hcommitted.wrote hw⟩

/-- The next attempt is charged, and begins. -/
theorem Unsealed.charge (h : Unsealed step k as t) :
    Delivering step (k + 1) {} {}
      (as ++ [.reserved step (k + 1)] ++ [.modelCalled step (k + 1)]) t := by
  have hr : Neutral (.reserved step (k + 1)) := ⟨fun _ => rfl, fun _ he => by cases he⟩
  have hm : Neutral (.modelCalled step (k + 1)) := ⟨fun _ => rfl, fun _ he => by cases he⟩
  obtain ⟨hcontent, hdelivered, hcarried, hincomplete, hahead, hdeltas, hfinals⟩ :=
    (h.neutral hr).neutral hm
  refine ⟨⟨hcontent, hdelivered, hcarried, hincomplete, fun n hn => hahead n (by omega),
    fun n i hn => hdeltas n i (by omega), fun n hn => hfinals n (by omega)⟩, rfl, ?_,
    fun i _ => hdeltas (k + 1) i (by omega), hfinals (k + 1) (by omega), fun _ he => by cases he⟩
  obtain ⟨htold, hheard⟩ := hahead (k + 1) (by omega)
  rw [htold, hheard]

/-- A reasoning delta is delivered and published. -/
theorem Delivering.reasoning (h : Delivering step k p b as t) (identity : StepIdentity) (text : String)
    (m : Int) (hb : b'.deltas = b.deltas) (hpending : b'.pending = none) :
    Delivering step k (p.after (.reasoningDelta step.identity text k)) b'
      (as ++ [.delivered k (.reasoningDelta identity text m)] ++
        [.published .model (.reasoningDelta step.identity text k)]) t := by
  have hheardOf : Neutral (.delivered k (.reasoningDelta identity text m)) :=
    ⟨fun _ => rfl, fun _ he => by cases he⟩
  have h₁ : Delivering step k p b' (as ++ [.delivered k (.reasoningDelta identity text m)]) t :=
    h.neutral hheardOf hb fun _ he => by rw [hpending] at he; cases he
  have htold : ∀ n as, told n (as ++ [.published .model (.reasoningDelta step.identity text k)]) =
      told n as := fun n as => by
    rw [told_snoc]
    exact List.append_nil _
  have hheard : ∀ n as, heard n (as ++ [.published .model (.reasoningDelta step.identity text k)]) =
      heard n as := fun n as => by
    rw [heard_snoc]
    exact List.append_nil _
  refine ⟨⟨fun n => by rw [htold]; exact h₁.content n, fun n => by rw [htold, hheard]; exact h₁.delivered n,
    fun e he => ?_, fun _ _ _ he => ?_, fun n hn => by rw [htold, hheard]; exact h₁.ahead n hn, h₁.deltas,
    h₁.finals⟩, ?_, by rw [htold, hheard]; exact h₁.whole, h₁.delta, h₁.final, h₁.pending⟩
  · rcases List.mem_append.mp he with he | he
    · exact h₁.carried e he
    · cases List.mem_singleton.mp he
      trivial
  · rcases List.mem_append.mp he with he | he
    · exact h₁.incomplete _ _ _ he
    · cases List.mem_singleton.mp he
  · simp [Pass.after, Pass.enter, h.uncompleted, Phase.isCompletion, Phase.result?,
      ModelStepEvent.completion?]

/-- A delta is delivered, written and published. -/
theorem Delivering.text {w : Call.TextWrite} {text : String} {r : MessageReceipt}
    (h : Delivering step k p b as t) (identity : StepIdentity) (m : Int)
    (receipt : Option MessageReceipt) (hb : b'.deltas = b.deltas + 1) (hpending : b'.pending = none)
    (hw : t.Wrote w (deltaOp step k b'.deltas) r.messageId t')
    (hop : r.logicalOpId = deltaOp step k b'.deltas) (hkey : w.key = textKey step k)
    (hfresh : w.fresh.content = some text)
    (hupdate : ∀ m, (w.update m).content = some (m.content.getD "" ++ text)) :
    Delivering step k (p.after (.textDelta step.identity text k (some r))) b'
      (as ++ [.delivered k (.textDelta identity text m receipt)] ++
        [.published .model (.textDelta step.identity text k (some r))]) t' := by
  have htoldOf : ∀ n, told n (as ++ [.delivered k (.textDelta identity text m receipt)] ++
      [.published .model (.textDelta step.identity text k (some r))]) =
      told n as ++ if k = n then [text] else [] := fun n => by
    rw [told_snoc, told_snoc, show toldText? n (.delivered k (.textDelta identity text m receipt)) = none
      from rfl, Option.toList_none, List.append_nil]
    simp only [toldText?, Nat.cast_inj]
    split <;> rfl
  have hheardOf : ∀ n, heard n (as ++ [.delivered k (.textDelta identity text m receipt)] ++
      [.published .model (.textDelta step.identity text k (some r))]) =
      heard n as ++ if k = n then [text] else [] := fun n => by
    rw [heard_snoc, show heardText? n (.published .model (.textDelta step.identity text k (some r))) = none
      from rfl, Option.toList_none, List.append_nil, heard_snoc]
    simp only [heardText?]
    split <;> rfl
  have hcommitted : Committed t' (textKey step k) r :=
    ⟨hkey ▸ hw.textId, by obtain ⟨m, hm, -⟩ := hw.content; rw [hm]; rfl, by rw [hop]; exact hw.filed⟩
  refine ⟨⟨fun n => ?_, fun n => ?_, fun e he => ?_, fun _ _ _ he => ?_, fun n hn => ?_,
    fun n i hn => ?_, fun n hn => ?_⟩, ?_, ?_, fun i hi => ?_, ?_, fun _ he => ?_⟩
  · rw [htoldOf]
    by_cases hk : k = n
    · subst hk
      have hcontent := h.content k
      rw [← hkey] at hcontent
      rw [← hkey, hw.text, delta_content hcontent hfresh hupdate, if_pos rfl, joined_snoc]
      rfl
    · have hne : w.key ≠ textKey step n := fun he =>
        hk (Int.ofNat.inj (textKey_inj (hkey.symm.trans he)))
      rw [if_neg hk, List.append_nil, (hw.others _ hne).2]
      exact h.content n
  · rw [htoldOf, hheardOf]
    by_cases hk : k = n
    · subst hk
      rw [h.whole]
      exact ⟨List.prefix_rfl, Nat.le_succ _⟩
    · rw [if_neg hk, List.append_nil, List.append_nil]
      exact h.delivered n
  · rcases List.mem_append.mp he with he | he
    · exact (h.carried e (mem_concat_published (fun _ he => by cases he) he)).wrote hw
    · cases List.mem_singleton.mp he
      exact ⟨r, rfl, hcommitted⟩
  · rcases List.mem_append.mp he with he | he
    · exact h.incomplete _ _ _ (mem_concat_published (fun _ he => by cases he) he)
    · cases List.mem_singleton.mp he
  · rw [htoldOf, hheardOf, if_neg (Nat.ne_of_lt hn), List.append_nil, List.append_nil]
    exact h.ahead n hn
  · rw [hw.ops _ fun he => Nat.ne_of_gt hn (deltaOp_inj he).1]
    exact h.deltas n i hn
  · rw [hw.ops _ finalOp_ne_deltaOp]
    exact h.finals n hn
  · simp [Pass.after, Pass.enter, h.uncompleted, Phase.isCompletion, Phase.result?,
      ModelStepEvent.completion?]
  · rw [htoldOf, hheardOf, h.whole]
  · rw [hw.ops _ fun he => Nat.ne_of_gt hi (deltaOp_inj he).2]
    exact h.delta i (by omega)
  · rw [hw.ops _ finalOp_ne_deltaOp]
    exact h.final
  · rw [hpending] at he
    cases he

/-- The result of the attempt is written and published. -/
theorem Delivering.complete {w : Call.TextWrite} {r : MessageReceipt}
    (h : Delivering step k p b as t) (hpending : b.pending = some result)
    (hw : t.Wrote w (finalOp step result.attempt) r.messageId t')
    (hop : r.logicalOpId = finalOp step result.attempt) (hkey : w.key = textKey step result.attempt)
    (hfresh : w.fresh.content = result.text)
    (hupdate : ∀ m, (w.update m).content = MemoryTranscript.orCurrent result.text m.content) :
    Recounts step (as ++ [.published .model (.completed step.identity result (some r))]) t' := by
  obtain ⟨heffective, hattempt⟩ := h.pending result hpending
  rw [hattempt] at hkey
  have hcompletion : ∀ n, completion? n
      (as ++ [.published .model (.completed step.identity result (some r))]) =
      if k = n then some result else none := fun n => by
    rw [completion?_snoc, completion?_none h.incomplete, Option.none_or]
    simp only [resultOf?, hattempt, Nat.cast_inj]
  have htold : ∀ n, told n (as ++ [.published .model (.completed step.identity result (some r))]) =
      told n as := fun n => by
    rw [told_snoc]
    exact List.append_nil _
  have hheard : ∀ n, heard n (as ++ [.published .model (.completed step.identity result (some r))]) =
      heard n as := fun n => by
    rw [heard_snoc]
    exact List.append_nil _
  refine ⟨fun n => ?_, fun n => by rw [htold, hheard]; exact h.delivered n, fun n result' hr => ?_,
    fun e he => ?_, fun pre identity result' receipt post heq => ?_⟩
  · rw [htold, hcompletion]
    by_cases hk : k = n
    · subst hk
      have hcontent := h.content k
      rw [← hkey] at hcontent
      rw [← hkey, hw.text, final_content hcontent hfresh hupdate, if_pos rfl]
      rfl
    · have hne : w.key ≠ textKey step n := fun he =>
        hk (Int.ofNat.inj (textKey_inj (hkey.symm.trans he)))
      rw [if_neg hk, (hw.others _ hne).2]
      exact h.content n
  · rw [hcompletion] at hr
    split at hr
    · rename_i hk
      subst hk
      rw [htold, hheard]
      exact h.whole
    · cases hr
  · rcases List.mem_append.mp he with he | he
    · exact (h.carried e he).wrote hw
    · cases List.mem_singleton.mp he
      refine ⟨r, rfl, ?_, ?_, by rw [hop]; exact hw.filed⟩
      · rw [hattempt, ← hkey]
        exact hw.textId
      · obtain ⟨m, hm, -⟩ := hw.content
        rw [hm]
        rfl
  · rcases snoc_split heq with ⟨-, he, rfl⟩ | ⟨post', -, has⟩
    · cases he
      exact ⟨heffective, fun _ ha => by cases ha⟩
    · exact absurd (has ▸ List.mem_append_right _ List.mem_cons_self) (h.incomplete _ _ _)

end DefaultModelPipeline

end AgentRuntime
