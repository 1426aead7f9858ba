import AgentRuntime.Ports

/-!
# Invariants across suspensions

What a coroutine of the run keeps, whatever the environment does while it is suspended.

* `Steady safe J L E` — `J` holds while the coroutine runs normally, `E e` while `e` is in flight,
  and `L` when an exception has just been lost. Interference keeps them; raising, stopping and
  losing an exception lead from one to the other; `safe` is what an onlooker sees at any
  suspension. All but `safe` may depend on a ghost, which a consumer changes between items;
* `keeping`, `promising` — the contract of a stream that keeps `J`, and what it promises of its items;
* `Steady.wp_waitCancellable`, `Steady.wp_iterateCancellable` — a task, and a stream, keep beside
  the stop task what they keep alone.
-/

set_option autoImplicit false

namespace AgentRuntime

open Async

variable {Y Y' α β G : Type}

/-! ## Interference -/

namespace World

theorem Disturbed.refl (w : World) : w.Disturbed w := ⟨[], rfl⟩

theorem Disturbed.trans {w w' w'' : World} (h : w.Disturbed w') (h' : w'.Disturbed w'') :
    w.Disturbed w'' := by
  obtain ⟨is, rfl⟩ := h
  obtain ⟨is', rfl⟩ := h'
  exact ⟨is ++ is', by simp [interfereAll]⟩

/-- What every single interference keeps, all of them keep. -/
theorem Disturbed.keeps {I : World → Prop} (hI : ∀ w i, I w → I (w.interfere i)) {w w' : World}
    (h : w.Disturbed w') (hw : I w) : I w' := by
  obtain ⟨is, rfl⟩ := h
  induction is generalizing w with
  | nil => exact hw
  | cons i is ih => exact ih (hI w i hw)

end World

/-- A run of turns stays within what a disturbance allows. -/
theorem turns_disturb (turns : List Turn) :
    ∀ m ∈ turns.map Turn.toMove, ∀ w, World.Disturbed w (m.disturb w) := by
  intro m hm w
  obtain ⟨t, _, rfl⟩ := List.mem_map.mp hm
  exact ⟨t.interference, rfl⟩

/-! ## Contracts -/

/-- A contract under which interference is all that happens at an await, and all an onlooker is
promised there is `safe`. -/
structure Tame (safe : World → Prop) (C : RunContract G Y) : Prop where
  rely : ∀ {q r w w'}, C.rely q r w w' → w.Disturbed w'
  await : ∀ {g w}, safe w → C.await g w

/-- The contract of a coroutine that yields nothing, and does not hang. -/
def silent (G : Type) (safe : World → Prop) : RunContract G Empty where
  rely _ _ := World.Disturbed
  await _ := safe
  hang _ _ := False
  yield _ y _ := y.elim
  resume _ y _ _ _ _ := y.elim

/-- What a consumer notes between two items. -/
def Action.passive : Action → Bool
  | .emitted _ | .yielded _ | .published _ _ | .delivered _ _ => true
  | _ => false

/-- The log of `w` grew by what a consumer notes between two items. -/
def World.Resumed (w w' : World) : Prop :=
  ∃ as : List Action, w'.log = w.log ++ as ∧ ∀ a ∈ as, a.passive = true

namespace World

theorem Resumed.refl (w : World) : w.Resumed w :=
  ⟨[], (List.append_nil _).symm, fun _ h => by cases h⟩

theorem Resumed.trans {w w' w'' : World} (h : w.Resumed w') (h' : w'.Resumed w'') :
    w.Resumed w'' := by
  obtain ⟨as, h, ha⟩ := h
  obtain ⟨bs, h', hb⟩ := h'
  refine ⟨as ++ bs, by rw [h', h, List.append_assoc], fun a hmem => ?_⟩
  rcases List.mem_append.mp hmem with hmem | hmem
  · exact ha a hmem
  · exact hb a hmem

theorem Resumed.note {w : World} {a : Action} (h : a.passive = true) : w.Resumed (w.note a) :=
  ⟨[a], rfl, fun _ hb => by rw [List.mem_singleton.mp hb]; exact h⟩

theorem interfere_log (w : World) (i : Interference) : (w.interfere i).log = w.log := by
  cases i with
  | record call => simp only [interfere]; split <;> rfl
  | reserve tokens => simp only [interfere]; split <;> rfl
  | _ => rfl

theorem Disturbed.log {w w' : World} (h : w.Disturbed w') : w'.log = w.log :=
  Disturbed.keeps (fun w' i hw => (w'.interfere_log i).trans hw) h rfl

theorem Disturbed.resumed {w w' : World} (h : w.Disturbed w') : w.Resumed w' :=
  ⟨[], by rw [h.log, List.append_nil], fun _ h => by cases h⟩

end World

/-- The contract of a stream that keeps `J`: it yields items in `ok`, and a consumer that goes on
moves the ghost along `next`. -/
def keeping (safe : World → Prop) (J : G → World → Prop) (ok : G → Y → Prop)
    (next : G → Y → G → Prop) : RunContract G Y where
  rely _ _ := World.Disturbed
  await _ := safe
  hang _ _ := False
  yield g y w := J g w ∧ ok g y
  resume g y w r g' w' := r = .next ∧ w.Resumed w' ∧ next g y g' ∧ J g' w'

/-- The same contract, where what is promised of an item depends on the world it is yielded in. -/
def promising (safe : World → Prop) (J : G → World → Prop) (ok : G → Y → World → Prop)
    (next : G → Y → G → Prop) : RunContract G Y where
  rely _ _ := World.Disturbed
  await _ := safe
  hang _ _ := False
  yield g y w := J g w ∧ ok g y w
  resume g y w r g' w' := r = .next ∧ w.Resumed w' ∧ next g y g' ∧ J g' w'

/-- The same contract, where `frame` is what the consumer does between two items. -/
def framed (frame : World → World → Prop) (safe : World → Prop) (J : G → World → Prop)
    (ok : G → Y → World → Prop) (next : G → Y → G → Prop) : RunContract G Y where
  rely _ _ := World.Disturbed
  await _ := safe
  hang _ _ := False
  yield g y w := J g w ∧ ok g y w
  resume g y w r g' w' := r = .next ∧ frame w w' ∧ next g y g' ∧ J g' w'

/-- The converse: a coroutine under `C` may rely on no less, and at its own suspensions `safe`
holds, with `J` at its yields. -/
structure Within (safe : World → Prop) (J : G → World → Prop) (C : RunContract G Y) : Prop where
  rely : ∀ {q r w w'}, w.Disturbed w' → C.rely q r w w'
  await : ∀ {g w}, C.await g w → safe w
  hang : ∀ {g w}, ¬ C.hang g w
  yield : ∀ {g y w}, C.yield g y w → J g w

theorem within_silent (safe : World → Prop) (J : G → World → Prop) :
    Within safe J (silent G safe) := ⟨id, id, id, fun {_ y _} _ => y.elim⟩

theorem within_framed (frame : World → World → Prop) (safe : World → Prop) (J : G → World → Prop)
    (ok : G → Y → World → Prop) (next : G → Y → G → Prop) : Within safe J (framed frame safe J ok next) :=
  ⟨id, id, id, And.left⟩

theorem tame_silent (safe : World → Prop) : Tame safe (silent G safe) := ⟨id, id⟩

theorem tame_keeping (safe : World → Prop) (J : G → World → Prop) (ok : G → Y → Prop)
    (next : G → Y → G → Prop) : Tame safe (keeping safe J ok next) := ⟨id, id⟩

theorem tame_framed (frame : World → World → Prop) (safe : World → Prop) (J : G → World → Prop)
    (ok : G → Y → World → Prop) (next : G → Y → G → Prop) : Tame safe (framed frame safe J ok next) := ⟨id, id⟩

/-- A silent coroutine, awaited inside another. -/
theorem Tame.wp_lift {safe : World → Prop} {C : RunContract G Y} (hC : Tame safe C)
    {R : G → α → World → Prop} {E : G → Exc → World → Prop} {p : Gen Empty α} {g : G} {w : World}
    (h : (p w).wp (silent G safe) R E g) : ((p.lift : Gen Y α) w).wp C R E g :=
  Node.wp_lift hC.rely (fun _ _ => hC.await) (fun _ _ => False.elim) _ g h

theorem Tame.wp_ask {safe : World → Prop} {C : RunContract G Y} (hC : Tame safe C) {q : Query}
    {R : G → Answer q → World → Prop} {E : G → Exc → World → Prop} {g : G} {w : World} (hw : safe w)
    (h : ∀ w', w.Disturbed w' → (∀ a, R g a w') ∧ ∀ e, E g e w') :
    ((Proc.ask q : Gen Y (Answer q)) w).wp C R E g :=
  (Proc.wp_ask w g).mpr ⟨hC.await hw, fun w' =>
    ⟨fun a hr => (h w' (hC.rely hr)).1 a, fun e hr => (h w' (hC.rely hr)).2 e⟩⟩

/-- A stream is closed without touching what the run keeps. -/
def Quietly (aclose : Gen Empty Unit) : Prop :=
  ∀ (G : Type) (safe : World → Prop) (I : G → World → Prop),
    (∀ g w i, I g w → I g (w.interfere i)) → (∀ g w, I g w → safe w) → ∀ g w, I g w →
      (aclose w).wp (silent G safe) (fun g _ w => I g w) (fun g _ w => I g w) g

theorem quietly_pure : Quietly (pure ()) := fun _ _ _ _ _ _ _ hw => hw

theorem quietly_closeStream : Quietly (Proc.ask Query.closeStream) := by
  intro G safe I hI hsafe g w hw
  exact (tame_silent safe).wp_ask (hsafe g w hw) fun w' hd =>
    ⟨fun _ => hd.keeps (hI g) hw, fun _ => hd.keeps (hI g) hw⟩

/-! ## Steady predicates -/

structure Steady (safe : World → Prop) (J L : G → World → Prop) (E : G → Exc → World → Prop) :
    Prop where
  safe_of : ∀ {g w}, J g w → safe w
  safe_exc : ∀ {g e w}, E g e w → safe w
  safe_interfere : ∀ {w} i, safe w → safe (w.interfere i)
  interfere : ∀ {g w} i, J g w → J g (w.interfere i)
  interfere_exc : ∀ {g e w} i, E g e w → E g e (w.interfere i)
  lose : ∀ {g w}, J g w → L g w
  throw : ∀ {g w} e, L g w → E g e w
  stop : ∀ {g w} (r : StopReason), L g w → E g (.cancelledRun r.value) (w.note (.stopped r))
  masked : ∀ {g e w}, E g e w → L g (w.noteMasked e)

namespace Steady

variable {safe : World → Prop} {J L : G → World → Prop} {E : G → Exc → World → Prop}

/-- The same predicates, under another ghost. -/
theorem comap {G' : Type} (S : Steady safe J L E) (f : G' → G) :
    Steady safe (fun g => J (f g)) (fun g => L (f g)) (fun g => E (f g)) :=
  ⟨S.safe_of, S.safe_exc, S.safe_interfere, S.interfere, S.interfere_exc, S.lose, S.throw, S.stop,
    S.masked⟩

/-- The same predicates, counted from a world on. -/
theorem since (S : Steady safe J L E) (w₀ : World) :
    Steady safe (fun g w => J g w ∧ w₀.Resumed w) L E :=
  ⟨fun h => S.safe_of h.1, S.safe_exc, S.safe_interfere,
    fun i h => ⟨S.interfere i h.1, h.2.trans (World.Disturbed.resumed ⟨[i], rfl⟩)⟩,
    S.interfere_exc, fun h => S.lose h.1, S.throw, S.stop, S.masked⟩

theorem disturbed (S : Steady safe J L E) {g : G} {w w' : World} (h : w.Disturbed w')
    (hw : J g w) : J g w' :=
  h.keeps (fun _ i => S.interfere i) hw

theorem disturbed_exc (S : Steady safe J L E) {g : G} {e : Exc} {w w' : World}
    (h : w.Disturbed w') (hw : E g e w) : E g e w' :=
  h.keeps (fun _ i => S.interfere_exc i) hw

theorem disturbed_safe (S : Steady safe J L E) {w w' : World} (h : w.Disturbed w')
    (hw : safe w) : safe w' :=
  h.keeps (fun _ i => S.safe_interfere i) hw

theorem raise (S : Steady safe J L E) {g : G} {w : World} (e : Exc) (h : J g w) : E g e w :=
  S.throw e (S.lose h)

/-- An exception of the host, with what it stands for. -/
theorem raised (S : Steady safe J L E) {g : G} {w : World} (e : Exc) (h : J g w) :
    E g e (w.noteRaised e) := by
  unfold World.noteRaised
  split
  · rename_i text reason hcause _
    split
    · rename_i htext
      split
      · have hr : text = _ := (Option.some.inj hcause).symm
        rw [← hr, htext]
        exact S.stop reason (S.lose h)
      · have hm := S.masked (S.stop reason (S.lose h))
        simp only [World.noteMasked, Exc.stopCause, Option.isSome_some, if_true] at hm
        exact S.throw e hm
    · exact S.raise e h
  · exact S.raise e h

/-! ## Single waits -/

variable {C : RunContract G Y}

theorem wp_hostAsk (S : Steady safe J L E) (hC : Tame safe C) {q : Query} {g : G} {w : World}
    (h : J g w) : ((hostAsk q : Gen Y (Answer q)) w).wp C (fun g _ w => J g w) E g := by
  unfold hostAsk
  refine (Proc.wp_tryCatch _ _ w g).mpr (hC.wp_ask (S.safe_of h) fun w' hd =>
    ⟨fun _ => S.disturbed hd h, fun e => ?_⟩)
  simp only [Proc.wp_bind', Proc.wp_modify, Proc.wp_throw]
  exact S.raised e (S.disturbed hd h)

theorem wp_stopNow (S : Steady safe J L E) {R : G → α → World → Prop} {r : StopReason} {g : G}
    {w : World} (h : L g w) : ((stopNow r : Gen Y α) w).wp C R E g := by
  simp only [stopNow, note, Proc.wp_bind', Proc.wp_modify, Proc.wp_throw]
  exact S.stop r h

theorem wp_raiseIfStopped (S : Steady safe J L E) {g : G} {w : World} (h : J g w) :
    ((raiseIfStopped : Gen Y Unit) w).wp C (fun g _ w => J g w) E g := by
  simp only [raiseIfStopped, Proc.wp_bind', Proc.wp_get]
  cases w.control.firstReason with
  | some r => exact S.wp_stopNow (S.lose h)
  | none => exact h

theorem wp_sleepCancellable (S : Steady safe J L E) (hC : Tame safe C) {delay : Int} {g : G}
    {w : World} (h : J g w) :
    ((sleepCancellable delay : Gen Y Unit) w).wp C (fun g _ w => J g w) E g := by
  unfold sleepCancellable
  split
  · exact S.wp_raiseIfStopped h
  · refine (Proc.wp_bind' _ _ w g).mpr (hC.wp_ask (S.safe_of h) fun w' hd =>
      ⟨fun race => ?_, fun e => S.raise e (S.disturbed hd h)⟩)
    have h' := S.disturbed hd h
    cases (race : Race) with
    | stop => exact S.wp_raiseIfStopped h'
    | work => exact h'
    | idle => exact h'

end Steady

/-! ## What is kept across questions to the host -/

/-- `J` is kept by every question to the host, and leads to `E` whatever is raised. -/
structure Waits (C : RunContract G Y) (J : G → World → Prop) (E : G → Exc → World → Prop) :
    Prop where
  ask : ∀ (q : Query) {g w}, J g w →
    ((hostAsk q : Gen Y (Answer q)) w).wp C (fun g _ w => J g w) E g
  raise : ∀ (e : Exc) {g w}, J g w → E g e w

theorem Steady.waits {safe : World → Prop} {J L : G → World → Prop} {E : G → Exc → World → Prop}
    {C : RunContract G Y} (S : Steady safe J L E) (hC : Tame safe C) : Waits C J E :=
  ⟨fun _ _ _ => S.wp_hostAsk hC, fun e _ _ => S.raise e⟩

theorem Tame.wp_resumed {safe : World → Prop} {C : RunContract G Y} (hC : Tame safe C)
    {R : G → α → World → Prop} {E : G → Exc → World → Prop} {go cancelled : World → Tree Y α}
    {g : G} {w : World} (hw : safe w) (hgo : ∀ w', w.Disturbed w' → (go w').wp C R E g)
    (hcancelled : ∀ w', w.Disturbed w' → (cancelled w').wp C R E g) :
    (resumed w go cancelled).wp C R E g := by
  refine ⟨hC.await hw, fun r w' hd => ?_⟩
  cases r with
  | ok _ => exact hgo w' (hC.rely hd)
  | error _ => exact hcancelled w' (hC.rely hd)

namespace Steady

variable {safe : World → Prop} {J L : G → World → Prop} {E : G → Exc → World → Prop}
  {C : RunContract G Y}

theorem interrupt (S : Steady safe J L E) {g : G} {w : World} (i : Interrupt) (h : L g w) :
    E g i.exc (i.noted w) := by
  cases i with
  | cancelled => exact S.throw _ h
  | stopped r => exact S.stop r h
  | idle => exact S.stop .idleTimeout h

/-- A suspension beside the stop task: the task goes on as it would alone, or, cancelled, it
unwinds and leaves an interrupt in flight. -/
theorem wp_raced (S : Steady safe J L E) {C' : RunContract G Y'} (hC : Within safe J C)
    (hC' : Tame safe C') {R : G → α → World → Prop} (hR : ∀ g a w, R g a w → J g w)
    {R' : G → β → World → Prop} {E' : G → Exc → World → Prop} {idle : Bool} {q : Query} {w : World}
    {k : Except Exc (Answer q) → World → Tree Y α}
    {go : Except Exc (Answer q) → World → Tree Y' β} {abort : Exc → World → Tree Y' β} {g : G}
    (hw : safe w) (hk : ∀ r w', w.Disturbed w' → (k r w').wp C R E g)
    (hgo : ∀ r w', w.Disturbed w' → (go r w').wp C' R' E' g)
    (habort : ∀ g e w', E g e w' → (abort e w').wp C' R' E' g) :
    (raced idle q w k go abort).wp C' R' E' g := by
  refine ⟨hC'.await hw, fun r w₁ hd => ?_⟩
  have hd₁ : w.Disturbed w₁ := hC'.rely hd
  dsimp only
  cases interrupted idle w₁ r with
  | none =>
    exact ⟨hC'.await (S.disturbed_safe hd₁ hw),
      fun r₂ w₂ hd₂ => hgo r₂ w₂ (hd₁.trans (hC'.rely hd₂))⟩
  | some i =>
    have hsettle : ((k (.error .cancelledError) w₁).settle World.noteMasked : Tree Y' Unit).wp C'
        (fun g _ w => L g w) E' g := by
      refine Node.wp_settle ?_ ?_ ?_ ?_ ?_ ?_ _ g (hk (.error .cancelledError) w₁ hd₁)
      · exact fun h => hC.rely (hC'.rely h)
      · exact fun _ _ h => hC'.await (hC.await h)
      · exact fun _ _ h => (hC.hang h).elim
      · exact fun g a w h => S.lose (hR g a w h)
      · exact fun _ _ _ h => S.masked h
      · exact fun _ _ _ h => S.lose (hC.yield h)
    refine (Node.wp_bind _ _ _).mpr (Node.wp_mono ?_ (fun _ _ _ h => h) _ g hsettle)
    exact fun g _ w h => habort g _ _ (S.interrupt i h)

/-! ## Tasks -/

theorem wp_awaitTask (S : Steady safe J L E) (hC : Tame safe C) {R : G → α → World → Prop}
    (hR : ∀ g a w, R g a w → J g w)
    (hdist : ∀ g a w w', w.Disturbed w' → R g a w → R g a w') (n : Tree Empty α) (g : G)
    (h : n.wp (silent G safe) R E g) : (awaitTask n : Tree Y α).wp C R E g := by
  induction n with
  | done a w =>
    refine hC.wp_resumed (S.safe_of (hR _ _ _ h)) (fun w' hd => hdist _ _ _ _ hd h) fun w' hd => ?_
    exact S.raise _ (hR _ _ _ (hdist _ _ _ _ hd h))
  | raised e w =>
    refine hC.wp_resumed (S.safe_exc h) (fun w' hd => ?_) fun w' hd => ?_
    · have he := S.disturbed_exc hd h
      cases e with
      | cancelledError => exact S.throw _ (S.masked he)
      | _ => exact he
    · exact S.throw _ (S.masked (S.disturbed_exc hd h))
  | hang w => exact h.elim
  | await q w k ih =>
    exact S.wp_raced (within_silent safe J) hC hR h.1 h.2 (fun r w' hd => ih r w' (h.2 r w' hd))
      (fun _ _ _ h => h)
  | yield y w k ih => exact y.elim

theorem wp_waitCancellable (S : Steady safe J L E) (hC : Tame safe C) {R : G → α → World → Prop}
    (hR : ∀ g a w, R g a w → J g w)
    (hdist : ∀ g a w w', w.Disturbed w' → R g a w → R g a w') {work : Gen Empty α} {g : G}
    {w : World} (hwork : ∀ g w, J g w → (work w).wp (silent G safe) R E g) (h : J g w) :
    ((waitCancellable work : Gen Y α) w).wp C R E g := by
  refine (Proc.wp_bind' _ _ w g).mpr ?_
  refine Node.wp_mono (fun g' _ w' h' => ?_) (fun _ _ _ h => h) _ g (S.wp_raiseIfStopped h)
  exact S.wp_awaitTask hC hR hdist _ g' (hwork g' w' h')

/-! ## Streams -/

/-- Closing a stream keeps whatever interference keeps, also when it fails. -/
theorem wp_closing (hC : Tame safe C) {aclose : Gen Empty Unit} (hq : Quietly aclose)
    {I : G → World → Prop} (hI : ∀ g w i, I g w → I g (w.interfere i))
    (hsafe : ∀ g w, I g w → safe w) {g : G} {w : World} (h : I g w) :
    ((closing aclose : Gen Y Unit) w).wp C (fun g _ w => I g w) (fun g _ w => I g w) g := by
  refine (Proc.wp_tryCatch _ _ w g).mpr ?_
  refine Node.wp_mono (fun _ _ _ h => h) (fun _ e w' h' => ?_) _ g
    (hC.wp_lift (hq G safe I hI hsafe g w h))
  split
  · exact h'
  · exact h'

theorem wp_closeAndRaise (S : Steady safe J L E) (hC : Tame safe C) {aclose : Gen Empty Unit}
    (hq : Quietly aclose) {R : G → α → World → Prop} {g : G} {e : Exc} {w : World} (h : E g e w) :
    ((closeAndRaise aclose e : Gen Y α) w).wp C R E g := by
  refine (Proc.wp_bind' _ _ w g).mpr ((Proc.wp_tryCatch _ _ w g).mpr ?_)
  refine Node.wp_mono (fun _ _ _ h => h) (fun g' e' w' h' => ?_) _ g
    (wp_closing hC hq (fun _ _ i => S.interfere_exc i) (fun _ _ => S.safe_exc) h)
  exact S.throw e' (S.masked h')

/-- **A stream beside the stop task** keeps what it keeps alone, and promises of its items what
interference keeps. -/
theorem wp_iterateFramed (S : Steady safe J L E) {frame : World → World → Prop}
    (hframe : ∀ w w' w'' : World, w.Disturbed w' → frame w' w'' → frame w w'') {ok : G → Y → World → Prop}
    {next : G → Y → G → Prop} (hok : ∀ {g y w} i, ok g y w → ok g y (w.interfere i)) (idle : Bool)
    {aclose : Gen Empty Unit} (hq : Quietly aclose) (n : Tree Y Unit) :
    ∀ g, n.wp (framed frame safe J ok next) (fun g _ w => J g w) E g →
      (iterateCancellable idle aclose n).wp (framed frame safe J ok next) (fun g _ w => J g w) E g := by
  have hC := tame_framed frame safe J ok next
  induction n with
  | done a w =>
    intro g h
    refine hC.wp_resumed (S.safe_of h) (fun w' hd => ?_) fun w' hd => ?_
    · refine Node.wp_mono (fun _ _ _ h => h) (fun g' e w'' h' => S.raise e h') _ g
        (wp_closing hC hq (fun _ _ i => S.interfere i) (fun _ _ => S.safe_of) (S.disturbed hd h))
    · exact S.wp_closeAndRaise hC hq (S.raise _ (S.disturbed hd h))
  | raised e w =>
    intro g h
    refine hC.wp_resumed (S.safe_exc h) (fun w' hd => ?_) fun w' hd => ?_
    · exact S.wp_closeAndRaise hC hq (S.disturbed_exc hd h)
    · exact S.wp_closeAndRaise hC hq (S.throw _ (S.masked (S.disturbed_exc hd h)))
  | hang w => exact fun g h => h
  | await q w k ih =>
    intro g h
    exact S.wp_raced (within_framed frame safe J ok next) hC (fun _ _ _ h => h) h.1 h.2
      (fun r w' hd => ih r w' g (h.2 r w' hd)) (fun _ _ _ => S.wp_closeAndRaise hC hq)
  | yield y w k ih =>
    intro g h
    refine hC.wp_resumed (S.safe_of h.1.1) (fun w' hd => ?_) fun w' hd => ?_
    · have hok' : ok g y w' := hd.keeps (fun _ i => hok i) h.1.2
      refine ⟨⟨S.disturbed hd h.1.1, hok'⟩, fun r g' w'' hr => ?_⟩
      obtain ⟨rfl, hres, hn, hJ⟩ := hr
      exact ih .next w'' g' (h.2 .next g' w'' ⟨rfl, hframe _ _ _ hd hres, hn, hJ⟩)
    · exact S.wp_closeAndRaise hC hq (S.raise _ (S.disturbed hd h.1.1))

theorem wp_iteratePromised (S : Steady safe J L E) {ok : G → Y → World → Prop}
    {next : G → Y → G → Prop} (hok : ∀ {g y w} i, ok g y w → ok g y (w.interfere i)) (idle : Bool)
    {aclose : Gen Empty Unit} (hq : Quietly aclose) (n : Tree Y Unit) :
    ∀ g, n.wp (promising safe J ok next) (fun g _ w => J g w) E g →
      (iterateCancellable idle aclose n).wp (promising safe J ok next) (fun g _ w => J g w) E g := by
  have hframe : ∀ w w' w'' : World, w.Disturbed w' → w'.Resumed w'' → w.Resumed w'' :=
    fun _ _ _ hd hres => hd.resumed.trans hres
  exact S.wp_iterateFramed hframe hok idle hq n

theorem wp_iterateCancellable (S : Steady safe J L E) {ok : G → Y → Prop} {next : G → Y → G → Prop}
    (idle : Bool) {aclose : Gen Empty Unit} (hq : Quietly aclose) (n : Tree Y Unit) (g : G)
    (h : n.wp (keeping safe J ok next) (fun g _ w => J g w) E g) :
    (iterateCancellable idle aclose n).wp (keeping safe J ok next) (fun g _ w => J g w) E g := by
  have h' : n.wp (promising safe J (fun g y _ => ok g y) next) (fun g _ w => J g w) E g := h
  refine S.wp_iteratePromised ?_ idle hq n g h'
  exact fun _ h => h

/-! ## Recording -/

/-- A method of the memory transcript, with what it returns. -/
theorem wp_method (S : Steady safe J L E) (hC : Tame safe C)
    (method : MemoryTranscript → Except Exc α × MemoryTranscript) {R : G → α → World → Prop} {g : G}
    {w : World}
    (hok : ∀ w a, J g w → (method w.transcript).1 = .ok a →
      R g a { w with transcript := (method w.transcript).2 })
    (herror : ∀ w e, J g w → (method w.transcript).1 = .error e →
      E g e { w with transcript := (method w.transcript).2 })
    (h : J g w) : ((locked method : Gen Y α) w).wp C R E g := by
  refine (Proc.wp_bind' _ _ w g).mpr (hC.wp_ask (S.safe_of h) fun w' hd =>
    ⟨fun _ => ?_, fun e => S.raise e (S.disturbed hd h)⟩)
  have h' := S.disturbed hd h
  simp only [Proc.wp_bind', Proc.wp_get, Proc.wp_modify]
  have hok' := hok w'
  have herror' := herror w'
  rcases hr : method w'.transcript with ⟨r, t⟩
  rw [hr] at hok' herror'
  cases r with
  | ok a => exact hok' a h' rfl
  | error e => exact herror' e h' rfl

/-- A method that is a call, with what the call returns. -/
theorem wp_call (S : Steady safe J L E) (hC : Tame safe C) (c : Call) (into : α → Reply)
    (method : MemoryTranscript → Except Exc α × MemoryTranscript)
    (hmethod : ∀ t, c.exec t = (method t).map (·.map into) id) {R : G → α → World → Prop} {g : G}
    {w : World}
    (hok : ∀ w a, J g w → (c.exec w.transcript).1 = .ok (into a) →
      R g a { w with transcript := (c.exec w.transcript).2 })
    (herror : ∀ w e, J g w → (c.exec w.transcript).1 = .error e →
      E g e { w with transcript := (c.exec w.transcript).2 })
    (h : J g w) : ((locked method : Gen Y α) w).wp C R E g := by
  have hnext : ∀ t, (method t).2 = (c.exec t).2 := fun t => by
    rw [hmethod]
    rfl
  refine S.wp_method hC method (fun w a h hr => ?_) (fun w e h he => ?_) h
  · rw [hnext]
    refine hok w a h ?_
    rw [hmethod]
    exact congrArg (Except.map into) hr
  · rw [hnext]
    refine herror w e h ?_
    rw [hmethod]
    exact congrArg (Except.map into) he

/-- A method that keeps `J`. -/
theorem wp_locked (S : Steady safe J L E) (hC : Tame safe C)
    (method : MemoryTranscript → Except Exc α × MemoryTranscript) {g : G} {w : World}
    (hmethod : ∀ g w, J g w → J g { w with transcript := (method w.transcript).2 }) (h : J g w) :
    ((locked method : Gen Y α) w).wp C (fun g _ w => J g w) E g :=
  S.wp_method hC method (fun w _ h _ => hmethod g w h) (fun w e h _ => S.raise e (hmethod g w h)) h

end Steady

/-- What the calls of the run itself keep, but for `finalize_run`. -/
def Records (J : G → World → Prop) : Prop :=
  ∀ call : Call, (∀ runId, call.finalizes runId = false) → ∀ g w, J g w →
    J g { w with transcript := (call.exec w.transcript).2 }

theorem Records.since {J : G → World → Prop} (hr : Records J) (w₀ : World) :
    Records fun g w => J g w ∧ w₀.Resumed w :=
  fun call hcall g w h => ⟨hr call hcall g w h.1, h.2⟩

/-- The methods of a recorder, but for `finalize_run`, keep what interference and the calls of the run
keep. -/
structure TranscriptPort.Keeps (t : TranscriptPort) : Prop where
  recordTextDelta : ∀ {G Y : Type} {safe : World → Prop} {J L : G → World → Prop}
    {E : G → Exc → World → Prop} {C : RunContract G Y}, Steady safe J L E → Records J → Tame safe C →
    ∀ args {g w}, J g w → ((t.recordTextDelta args : Gen Y _) w).wp C (fun g _ w => J g w) E g
  recordTextFinal : ∀ {G Y : Type} {safe : World → Prop} {J L : G → World → Prop}
    {E : G → Exc → World → Prop} {C : RunContract G Y}, Steady safe J L E → Records J → Tame safe C →
    ∀ args {g w}, J g w → ((t.recordTextFinal args : Gen Y _) w).wp C (fun g _ w => J g w) E g
  recordToolCalls : ∀ {G Y : Type} {safe : World → Prop} {J L : G → World → Prop}
    {E : G → Exc → World → Prop} {C : RunContract G Y}, Steady safe J L E → Records J → Tame safe C →
    ∀ args {g w}, J g w → ((t.recordToolCalls args : Gen Y _) w).wp C (fun g _ w => J g w) E g
  recordToolResults : ∀ {G Y : Type} {safe : World → Prop} {J L : G → World → Prop}
    {E : G → Exc → World → Prop} {C : RunContract G Y}, Steady safe J L E → Records J → Tame safe C →
    ∀ args {g w}, J g w → ((t.recordToolResults args : Gen Y _) w).wp C (fun g _ w => J g w) E g

theorem memoryTranscript_keeps : memoryTranscript.Keeps where
  recordTextDelta S hr hC args _ _ h :=
    S.wp_locked hC (·.recordTextDelta args) (hr (.recordTextDelta args) fun _ => rfl) h
  recordTextFinal S hr hC args _ _ h :=
    S.wp_locked hC (·.recordTextFinal args) (hr (.recordTextFinal args) fun _ => rfl) h
  recordToolCalls S hr hC args _ _ h :=
    S.wp_locked hC (·.recordToolCalls args) (hr (.recordToolCalls args) fun _ => rfl) h
  recordToolResults S hr hC args _ _ h :=
    S.wp_locked hC (·.recordToolResults args) (hr (.recordToolResults args) fun _ => rfl) h

theorem hostTranscript_keeps : hostTranscript.Keeps where
  recordTextDelta S _ hC _ _ _ h := S.wp_hostAsk hC h
  recordTextFinal S _ hC _ _ _ h := S.wp_hostAsk hC h
  recordToolCalls S _ hC _ _ _ h := S.wp_hostAsk hC h
  recordToolResults S _ hC _ _ _ h := S.wp_hostAsk hC h

end AgentRuntime
