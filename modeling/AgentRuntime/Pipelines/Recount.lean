import AgentRuntime.Pipelines.Content
import AgentRuntime.Pipelines.Partial

/-!
# The memory transcript recounts a step

The default model pipeline on the memory transcript, beside others that keep away from the text of its
step.

* `Alone` — what is known of the log and of the transcript, among others;
* `recount_serving` — the predicates of `Content` follow the pipeline;
* `stream_recounts` — transcript and log agree at every node of every run;
* `Operation.elsewhere` — what the run submits for its other steps keeps away.
-/

set_option autoImplicit false

namespace AgentRuntime

open Async

namespace DefaultModelPipeline

variable {step : PreparedStep} {as base : List Action} {a : Action} {t t' : MemoryTranscript} {k : Nat}
  {P P' : List Action → MemoryTranscript → Prop} {w : World} {p : Pass} {b : Locals}

/-! ## Among others -/

/-- A stop, or an exception that is lost, is nothing to the agreement. -/
theorem Recounts.aside (h : Recounts step as t) (ha : a.aside = true) :
    Recounts step (as ++ [a]) t := by
  have hn := neutral_aside ha
  have hcompletion : ∀ n, completion? n (as ++ [a]) = completion? n as := fun n => by
    have hnone : resultOf? n a = none := by
      unfold resultOf?
      split
      · exact absurd rfl (hn.2 _)
      · rfl
    rw [completion?_snoc, hnone, Option.or_none]
  refine ⟨fun n => ?_, fun n => ?_, fun n result hr => ?_, fun event he => ?_,
    fun pre identity result receipt post heq => ?_⟩
  · rw [hn.told, hcompletion]
    exact h.content n
  · rw [hn.told, hn.heard]
    exact h.delivered n
  · rw [hn.told, hn.heard]
    exact h.whole n result ((hcompletion n).symm.trans hr)
  · exact h.carried event (mem_concat_published hn.2 he)
  · rcases snoc_split heq with ⟨-, he, -⟩ | ⟨post', rfl, has⟩
    · exact absurd he (hn.2 _)
    · obtain ⟨heffective, hpost⟩ := h.sealed pre identity result receipt post' has
      refine ⟨heffective, fun c hc => ?_⟩
      rcases List.mem_append.mp hc with hc | hc
      · exact hpost c hc
      · cases List.mem_singleton.mp hc
        cases a with
        | stopped _ | masked => rfl
        | _ => cases ha

theorem apart_injectWriteFailure (t : MemoryTranscript) (opId : String) :
    Apart step t (t.injectWriteFailure opId) :=
  ⟨fun _ => rfl, fun _ => rfl, fun _ h => h, fun _ h => h, fun _ _ h => h⟩

/-- Beside others that keep away from the text of the step. -/
abbrev Alone (step : PreparedStep) (base : List Action)
    (P : List Action → MemoryTranscript → Prop) : World → Prop := Beside (·.Elsewhere step) base P

theorem apart_spared (hc : t.Consistent) (h : t.Spared (·.Elsewhere step) t') : Apart step t t' := by
  cases h with
  | call c hcall => exact apart_exec hc hcall
  | failure opId => exact apart_injectWriteFailure t opId

theorem Alone.interfere (hP : ∀ as t t', P as t → Apart step t t' → P as t')
    (h : Alone step base P w) (i : Interference) : Alone step base P (w.interfere i) :=
  Beside.interfere (fun as t t' hc hPas hs => hP as t t' hPas (apart_spared hc hs)) h i

theorem Alone.calm (hP : ∀ as t t', P as t → Apart step t t' → P as t')
    (ha : ∀ as t a, a.aside = true → P as t → P (as ++ [a]) t) : Calm (Alone step base P) :=
  Beside.calm (fun as t t' hc hPas hs => hP as t t' hPas (apart_spared hc hs)) ha

/-- An exception is on its way up. -/
def Broken (step : PreparedStep) (base : List Action) (k : Nat) (p : Pass) (w : World) : Prop :=
  p.completed = false ∧ Alone step base (Unsealed step k) w

theorem Alone.broken (h : Alone step base (Delivering step k p b) w) : Broken step base k p w := by
  refine ⟨?_, h.mono fun _ _ h => h.toUnsealed⟩
  obtain ⟨_, _, hP⟩ := h.since
  exact hP.uncompleted

/-- An event is delivered to the attempt, and nothing is published for it yet. -/
def Heard (step : PreparedStep) (k : Nat) (p : Pass) (b : Locals) (event : ModelStepEvent)
    (as : List Action) (t : MemoryTranscript) : Prop :=
  ∃ as', as = as' ++ [.delivered k event] ∧ Delivering step k p b as' t

theorem Heard.apart {event : ModelStepEvent} (h : Heard step k p b event as t) (ha : Apart step t t') :
    Heard step k p b event as t' := by
  obtain ⟨as', rfl, h⟩ := h
  exact ⟨as', rfl, h.apart ha⟩

theorem Heard.broken {event : ModelStepEvent} (h : Alone step base (Heard step k p b event) w) :
    Broken step base k p w := by
  refine ⟨?_, h.mono ?_⟩
  · obtain ⟨_, _, _, _, hP⟩ := h.since
    exact hP.uncompleted
  · rintro _ _ ⟨as', rfl, hP⟩
    exact hP.deliver event

/-- A delta that is recorded may be published. -/
theorem Heard.recorded {identity : StepIdentity} {text : String} {m : Int}
    {receipt : Option MessageReceipt} {r : MessageReceipt}
    (h : Heard step k p b (.textDelta identity text m receipt) as t) (hnone : b.pending = none)
    (hc : t.Consistent)
    (hr : ((Call.recordTextDelta
      (deltaArgs step k (b.enter (.textDelta identity text m receipt)) text)).exec t).1 = .ok (.message r)) :
    Delivering step k (p.after (.textDelta step.identity text k (some r)))
      { b.enter (.textDelta identity text m receipt) with previous := some r }
      (as ++ [.published .model (.textDelta step.identity text k (some r))])
      ((Call.recordTextDelta
        (deltaArgs step k (b.enter (.textDelta identity text m receipt)) text)).exec t).2 := by
  obtain ⟨as', rfl, h⟩ := h
  have hdeltas : (b.enter (.textDelta identity text m receipt)).deltas = b.deltas + 1 := by
    simp only [Locals.enter, hnone, Option.isSome_none, Bool.false_eq_true, if_false]
  have hpending : (b.enter (.textDelta identity text m receipt)).pending = none := by
    rw [Locals.enter_pending, hnone]
  have hfresh : t.ops (deltaOp step k (b.enter (.textDelta identity text m receipt)).deltas) = none :=
    h.delta _ (by omega)
  obtain ⟨hw, hop⟩ := MemoryTranscript.exec_wrote (c := .recordTextDelta
    (deltaArgs step k (b.enter (.textDelta identity text m receipt)) text)) hc hfresh rfl hr
  exact h.text identity m receipt hdeltas hpending hw hop rfl rfl fun _ => rfl

/-- A result that is recorded may be published, and the step is over. -/
theorem Delivering.recorded {result : ModelResult} {r : MessageReceipt}
    (h : Delivering step k p b as t) (hpending : b.pending = some result) (hc : t.Consistent)
    (hr : ((Call.recordTextFinal (finalArgs step b result)).exec t).1 = .ok (.message r)) :
    Recounts step (as ++ [.published .model (.completed step.identity result (some r))])
      ((Call.recordTextFinal (finalArgs step b result)).exec t).2 := by
  have hfresh : t.ops (finalOp step result.attempt) = none := by
    rw [(h.pending result hpending).2]
    exact h.final
  obtain ⟨hw, hop⟩ := MemoryTranscript.exec_wrote (c := .recordTextFinal (finalArgs step b result))
    hc hfresh rfl hr
  exact h.complete hpending hw hop rfl rfl fun _ => rfl

theorem Apart.trans {t'' : MemoryTranscript} (h : Apart step t t') (h' : Apart step t' t'') :
    Apart step t t'' :=
  ⟨fun n => (h'.textIds n).trans (h.textIds n), fun n => (h'.text n).trans (h.text n),
    fun id hid => h'.stored id (h.stored id hid), fun opId hop => h'.filed opId (h.filed opId hop),
    fun opId hop ho => h'.unfiled opId hop (h.unfiled opId hop ho)⟩

end DefaultModelPipeline

/-! ## The other steps of the run -/

/-- An operation of the same run at another step, or of no step, is none of this step. -/
theorem Operation.not_ofStep {step : PreparedStep} {o : Operation} (h : ∀ place, o.place? = some place →
    place.runId = step.identity.runId ∧ place.stepNo ≠ step.identity.stepNo) :
    ¬ DefaultModelPipeline.OfStep step o.id := by
  have hne : ∀ o', o.id = Operation.id o' → o'.place? ≠ some step.place := by
    intro o' hid hplace
    rcases Operation.eq_or_collides hid with rfl | hcollides
    · exact (h _ hplace).2 rfl
    · obtain ⟨place, hp, hext⟩ := hcollides.places hplace
      rcases hext with hext | hext | rfl
      · exact hext.runId_ne (h _ hp).1
      · exact hext.runId_ne (h _ hp).1.symm
      · exact (h _ hp).2 rfl
  rintro (⟨n, i, hid⟩ | ⟨n, hid⟩)
  · exact hne _ (hid.trans (id_textDelta step n i)) rfl
  · exact hne _ (hid.trans (id_textFinal step n)) rfl

/-- What the run itself submits for its other steps keeps away from this one. -/
theorem Operation.elsewhere {step : PreparedStep} {o : Operation} {c : Call} (hid : c.opId = o.id)
    (hplace : ∀ place, o.place? = some place →
      place.runId = step.identity.runId ∧ place.stepNo ≠ step.identity.stepNo)
    (hkey : ∀ w, c.textWrite? = some w → w.key.2.1 ≠ step.identity.stepNo) : c.Elsewhere step where
  key w hw _ heq := hkey w hw (congrArg (fun key : TextKey => key.2.1) heq)
  opId h := Operation.not_ofStep hplace (hid ▸ h)

end AgentRuntime
