import AgentRuntime.Core.Loop

/-!
# The loop follows its protocol

Families of predicates that are kept whatever the environment does: `AgentLoop.run` moves them along
`LoopStep`.

* `Steady.wp_iterateStrict` — a strict stream yields its completion event last, and returns only
  after one;
* `FollowingUnder`, `PortsPromise` — what such a family owes to the loop, and the ports to it, where they
  promise something of what the loop takes from them; `Following`, `PortsFollow` — where they promise
  nothing;
* `AgentLoop.run_promised` — the loop follows its protocol under them.
-/

set_option autoImplicit false

namespace AgentRuntime

open Async

variable {G : Type}

/-! ## Strict streams -/

/-- The consumer of a strict stream sees no event behind the completion event; `ok` is promised of what
the loop will emit. -/
def strictly {p : Phase} (ok : Action → World → Prop) (safe : World → Prop)
    (J : Option p.Result → World → Prop) : RunContract (Option p.Result) p.Event :=
  promising safe J (fun b event w => b = none ∧ ok (.emitted (p.toEvent event)) w) (advance p)

theorem Steady.wp_iterateStrict {p : Phase} {ok : Action → World → Prop} {safe : World → Prop}
    {J L : Option p.Result → World → Prop} {E : Option p.Result → Exc → World → Prop}
    (S : Steady safe J L E) (n : Tree p.Event Unit) :
    ∀ (b : Option p.Result) (completion last : Option p.Event), b = completion.bind p.result? →
      (∀ c, completion = some c → p.isCompletion c = true) →
      n.wp (promising safe J (fun _ event => ok (.emitted (p.toEvent event))) (advance p))
        (fun b _ w => J b w) E b →
      (iterateStrict p n completion last).wp (strictly ok safe J)
        (fun b _ w => b.isSome = true ∧ ∃ w₀, J b w₀ ∧ w = w₀.note (.accepted p)) E b := by
  induction n with
  | done a w =>
    intro b completion last hb hc h
    cases completion with
    | none => exact S.raise _ h
    | some c =>
      unfold iterateStrict
      split
      · exact S.raise _ h
      · split
        · exact S.raise _ h
        · exact ⟨by rw [hb]; exact hc c rfl, w, h, rfl⟩
  | raised e w =>
    intro b completion last hb hc h
    unfold iterateStrict strictRaise
    split
    · exact h
    · exact S.throw _ (S.masked h)
  | hang w => exact fun _ _ _ _ _ h => h
  | await q w k ih =>
    exact fun b completion last hb hc h =>
      ⟨h.1, fun r w' hd => ih r w' b completion last hb hc (h.2 r w' hd)⟩
  | yield y w k ih =>
    intro b completion last hb hc h
    cases completion with
    | some c => exact S.raise _ h.1.1
    | none =>
      refine ⟨⟨h.1.1, hb, h.1.2⟩, fun r b' w' hr => ?_⟩
      obtain ⟨rfl, hres, hb', hJ⟩ := hr
      refine ih .next w' b' _ _ ?_ ?_ (h.2 .next b' w' ⟨rfl, hres, hb', hJ⟩)
      · rw [hb', hb]
        cases hres : p.result? y <;> simp [Phase.isCompletion, hres]
      · intro c hc'
        split at hc' <;> cases hc'
        assumption

/-! ## Families that follow the protocol -/

/-- A state the loop may be suspended in. -/
abbrev Resting : Type := { s : LoopState // s.resting = true }

/-- `Inv s` is kept by all that happens while the loop rests in `s`, and moves along its actions, where the
ports promise `ok` of what the loop takes from them. -/
structure FollowingUnder (ok : Action → World → Prop) (loop : AgentLoop) (request : RunRequest)
    (safe : World → Prop) (Inv : LoopState → World → Prop) (L : World → Prop) (E : Exc → World → Prop) :
    Prop where
  steady : Steady safe (fun (s : Resting) w => Inv s.1 w) (fun _ => L) (fun _ => E)
  stable : ∀ {a w} i, ok a w → ok a (w.interfere i)
  step : ∀ {s a s' w}, LoopStep loop.limits loop.consumed request s a s' → a.ofLoop = true →
    (a.ofPort = true → ok a w) → Inv s w → Inv s' (w.note a)

/-- The ports keep `Inv` in the states they are called in, and their promise. -/
structure PortsPromise (ok : Action → World → Prop) (loop : AgentLoop) (request : RunRequest)
    (ports : ExecutionPorts) (safe : World → Prop) (Inv : LoopState → World → Prop)
    (E : Exc → World → Prop) : Prop where
  prepare : ∀ {batch identity w}, Inv (.preparing batch identity) w →
    (ports.prepare identity w).wp (silent Unit safe)
      (fun _ step w => Inv (.preparing batch identity) w ∧ ok (.prepared step) w) (fun _ e w => E e w) ()
  call : ∀ {s job p command w},
    LoopStep loop.limits loop.consumed request s (.called p command) (.streaming job p none) →
    Inv s w →
    (ports.call p command (w.note (.called p command))).wp (silent Unit safe)
      (fun _ stream w => Inv (.streaming job p none) w ∧ Quietly stream.aclose ∧
        (stream.body w).wp
          (promising safe (fun b w => Inv (.streaming job p b) w)
            (fun _ event => ok (.emitted (p.toEvent event))) (advance p))
          (fun b _ w => Inv (.streaming job p b) w) (fun _ e w => E e w) none)
      (fun _ e w => E e w) ()

/-- The same, where the ports promise nothing. -/
abbrev Following (loop : AgentLoop) (request : RunRequest) (safe : World → Prop)
    (Inv : LoopState → World → Prop) (L : World → Prop) (E : Exc → World → Prop) : Prop :=
  FollowingUnder (fun _ _ => True) loop request safe Inv L E

abbrev PortsFollow (loop : AgentLoop) (request : RunRequest) (ports : ExecutionPorts) (safe : World → Prop)
    (Inv : LoopState → World → Prop) (E : Exc → World → Prop) : Prop :=
  PortsPromise (fun _ _ => True) loop request ports safe Inv E

/-- The consumer of the loop takes its events and gives back what held. `waits`: it may go on behind
`RunWaiting`. -/
structure Consumer (loop : AgentLoop) (request : RunRequest) (safe : World → Prop)
    (Inv : LoopState → World → Prop) (C : RunContract G RuntimeEvent) (waits : Prop) : Prop where
  tame : Tame safe C
  yield : ∀ {g s e s' w}, LoopStep loop.limits loop.consumed request s (.emitted e) s' →
    Inv s' w → C.yield g e w
  resume : ∀ {g s e s' w r g' w'}, LoopStep loop.limits loop.consumed request s (.emitted e) s' →
    C.resume g e w r g' w' → Inv s' w → Inv s' w'
  waits : ∀ {g runId pending decision w r g' w'},
    C.resume g (.runWaiting runId pending decision) w r g' w' → waits
  frame : ∀ {g e w r g' w'}, C.resume g e w r g' w' → w.Resumed w'

theorem LoopStep.emitted_resting {limits : ExecutionLimits} {consumed : ConsumedBudget}
    {request : RunRequest} {s s' : LoopState} {e : RuntimeEvent}
    (h : LoopStep limits consumed request s (.emitted e) s') : s'.resting = true := by
  cases h with
  | other h => cases h
  | _ => rfl

/-- The steady predicates at one resting state. -/
theorem FollowingUnder.atState {ok : Action → World → Prop} {loop : AgentLoop} {request : RunRequest}
    {safe : World → Prop} {Inv : LoopState → World → Prop} {L : World → Prop} {E : Exc → World → Prop}
    (F : FollowingUnder ok loop request safe Inv L E) (G : Type) {s : LoopState} (hs : s.resting = true) :
    Steady safe (fun (_ : G) w => Inv s w) (fun _ => L) (fun _ => E) :=
  F.steady.comap fun _ => ⟨s, hs⟩

namespace AgentLoop

variable {ok : Action → World → Prop} {loop : AgentLoop} {request : RunRequest} {safe : World → Prop}
  {Inv : LoopState → World → Prop} {L : World → Prop} {E : Exc → World → Prop}
  {C : RunContract G RuntimeEvent} {waits : Prop} {g : G} {w : World}

/-- A family that follows the protocol is all that the loop needs. -/
theorem rules_of (F : FollowingUnder ok loop request safe Inv L E)
    (hP : PortsPromise ok loop request loop.ports safe Inv E) (hC : Consumer loop request safe Inv C waits) :
    LoopRules ok loop request Inv E C waits
      fun p job => strictly (p := p) ok safe fun b w => Inv (.streaming job p b) w where
  step := F.step
  raise hs _ _ h := (F.atState Unit hs).raise (g := ()) _ h
  stop hs _ _ h := (F.atState Unit hs).stop (g := ()) _ ((F.atState Unit hs).lose (g := ()) h)
  emit {s e s' g w} hstep hok h := by
    have h' := F.step hstep rfl hok h
    refine (Proc.wp_bind' _ _ w g).mpr ((Proc.wp_yield _ _ _ _).mpr ⟨hC.yield hstep h', ?_⟩)
    refine fun g' w' => ⟨fun hr => ⟨?_, hC.resume hstep hr h', fun runId pending decision he => ?_⟩, fun hr => ?_⟩
    · exact (World.Resumed.note rfl).trans (hC.frame hr)
    · rw [he] at hr
      exact hC.waits hr
    · exact (F.atState Unit hstep.emitted_resting).raise (g := ()) _ (hC.resume hstep hr h')
  prepare {batch identity g w} h := by
    have S := F.atState G (s := .preparing batch identity) rfl
    exact S.wp_waitCancellable (R := fun _ step w => Inv (.preparing batch identity) w ∧ ok (.prepared step) w)
      hC.tame (fun _ _ _ h => h.1)
      (fun _ _ _ _ hd h => ⟨S.disturbed (g := g) hd h.1, hd.keeps (fun _ i => F.stable i) h.2⟩)
      (fun g w h => Node.wp_comap (fun _ : G => ()) _ g (hP.prepare h)) h
  call {s job p command g w} hstep h := by
    have S := F.steady.comap fun b : Option p.Result => (⟨.streaming job p b, rfl⟩ : Resting)
    have hcall := Node.wp_comap (fun _ : G => ()) _ g (hP.call hstep h)
    refine Node.wp_mono (fun g' stream w' h' => ?_) (fun _ _ _ h => h) _ g (hC.tame.wp_lift hcall)
    obtain ⟨-, hquiet, hbody⟩ := h'
    exact S.wp_iterateStrict _ none none none rfl (fun _ h => by cases h)
      (S.wp_iteratePromised (fun i h => F.stable i h) (loop.idleTimeout p) hquiet _ _ hbody)
  rely := hC.tame.rely
  await := hC.tame.await
  hang := id
  yield h := ⟨h.1, h.2.1, h.2.2⟩
  resume hres hadv h := ⟨rfl, hres, hadv, h⟩

/-- **The loop follows its protocol**, whoever supplies the ports and whoever consumes the events. -/
theorem run_promised (F : FollowingUnder ok loop request safe Inv L E)
    (hP : PortsPromise ok loop request loop.ports safe Inv E) (hC : Consumer loop request safe Inv C waits)
    (fuel : Nat)
    (hhang : ∀ g w (last : StepIdentity), last.modelRound = loop.consumed.modelRounds + fuel →
      Inv (.ready last) w → C.hang g w)
    (h : Inv (.start loop.consumed request) w) :
    (loop.run fuel request w).wp C
      (fun _ _ w => ∃ waited : Bool, Inv (.over waited) w ∧ (waited = true → waits)) (fun _ => E) g :=
  run_wp (rules_of F hP hC) fuel hhang h

end AgentLoop

end AgentRuntime
