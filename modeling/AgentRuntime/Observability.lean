import AgentRuntime.Async.Channel
import AgentRuntime.Async.Trace

/-!
# The isolated observer

`IsolatedObserver` of `observability.py`: a bounded queue, the task that pumps it to the observer of the host, and
how it is closed. The pump, the host and the calls of `aclose` are interleaved in any way.

* `onEvent` — the runner hands over an event; it never waits, and an event that finds no room is dropped;
* `IsolatedObserver.Step` — a step of the pump, of the host, of a call of `aclose`, or of the scope;
* `Orderly` — what holds in every run: the queue takes events, and then sentinels;
* `observer_sound` — what the observer of the host gets, and what a close leaves behind.
-/

set_option autoImplicit false

namespace AgentRuntime

open Async

/-- Where the task of `_pump` stands. -/
inductive Pump (E : Type) where
  /-- `start` has not been called. -/
  | absent
  /-- `await self._queue.get()`. -/
  | getting
  /-- `await asyncio.wait_for(self._inner.on_event(item), …)`. -/
  | handling (event : E)
  /-- It has found a sentinel. -/
  | drained
  /-- It was cancelled, or an exception that is no `Exception` came out of the inner observer. -/
  | broken
  deriving DecidableEq

/-- `task.done()`. -/
def Pump.done {E : Type} : Pump E → Bool
  | drained | broken => true
  | _ => false

/-- The sentinel that the pump has taken out of the queue. -/
def Pump.sentinels {E : Type} : Pump E → List (Option E)
  | drained => [none]
  | _ => []

/-- Where a call of `aclose` stands. -/
inductive ObserverClose where
  /-- `await wait_for(shield(task), …)`. -/
  | waiting
  /-- `await gather(task, …)`, after `task.cancel()`. -/
  | gathering
  | returned
  | interrupted
  /-- There was no task. -/
  | unstarted
  deriving DecidableEq, Repr

/-- What `aclose` waits for first. -/
def Pump.awaited {E : Type} : Pump E → ObserverClose
  | absent => .unstarted
  | _ => .waiting

structure IsolatedObserver (E : Type) where
  /-- The queue; `none` is the sentinel. -/
  queue : Channel (Option E)
  pump : Pump E := .absent
  /-- `task.cancel()` was called. -/
  cancelling : Bool := false
  closed : Bool := false
  closes : List ObserverClose := []
  /-- The events that `self._inner.on_event` was called with. -/
  handed : List E := []

namespace IsolatedObserver

variable {E : Type}

/-- `IsolatedObserver(inner, maxsize=…)`. -/
def of (maxsize : Nat) : IsolatedObserver E where
  queue := .empty maxsize

/-- `put_nowait`, when `QueueFull` is passed over. -/
def offer (o : IsolatedObserver E) (item : Option E) : IsolatedObserver E :=
  { o with queue := (o.queue.putNowait item).getD o.queue }

/-- `on_event`. -/
def onEvent (o : IsolatedObserver E) (event : E) : IsolatedObserver E :=
  if o.closed then o else o.offer (some event)

/-- `start`. -/
def start (o : IsolatedObserver E) : IsolatedObserver E :=
  match o.pump with
  | .absent => { o with pump := .getting }
  | _ => o

/-- `aclose`, to its first suspension. -/
def aclose (o : IsolatedObserver E) : IsolatedObserver E :=
  let o := { o with closed := true }.offer none
  { o with closes := o.closes ++ [o.pump.awaited] }

/-- One pass of `_pump`, once `get` has returned. -/
def take (o : IsolatedObserver E) (item : Option E) (rest : Channel (Option E)) : IsolatedObserver E :=
  match item with
  | none => { o with queue := rest, pump := .drained }
  | some event => { o with queue := rest, pump := .handling event, handed := o.handed ++ [event] }

/-- The events that found room in the queue. -/
def accepted (o : IsolatedObserver E) : List E := o.queue.entered.filterMap id

inductive Label (E : Type) where
  | start
  | onEvent (event : E)
  | aclose
  /-- The `get` of the pump returns. -/
  | get
  /-- The inner observer returned, raised an `Exception`, or was timed out. -/
  | handled
  /-- The pump is cancelled, and ends; or what came out of the inner observer ends it. -/
  | cancel
  | break
  /-- The wait of a call of `aclose` is over, or fails; the task it gathers is done, or it is cancelled again. -/
  | waited (call : Nat)
  | waitFailed (call : Nat)
  | gathered (call : Nat)
  | interrupted (call : Nat)

/-- A call of `aclose` goes on. -/
def moved (o : IsolatedObserver E) (call : Nat) (close : ObserverClose) : IsolatedObserver E :=
  { o with closes := o.closes.set call close }

inductive Step : IsolatedObserver E → Label E → IsolatedObserver E → Prop where
  | start (o : IsolatedObserver E) : Step o .start o.start
  | onEvent (o : IsolatedObserver E) (event : E) : Step o (.onEvent event) (o.onEvent event)
  | aclose (o : IsolatedObserver E) : Step o .aclose o.aclose
  | get {o : IsolatedObserver E} {item : Option E} {rest : Channel (Option E)} : o.pump = .getting →
      o.queue.getNowait = some (item, rest) → Step o .get (o.take item rest)
  | handled {o : IsolatedObserver E} {event : E} : o.pump = .handling event →
      Step o .handled { o with pump := .getting }
  | cancel (o : IsolatedObserver E) : Step o .cancel { o with cancelling := true }
  | cancelled {o : IsolatedObserver E} : o.cancelling = true → o.pump ≠ .absent → o.pump.done = false →
      Step o .break { o with pump := .broken }
  | break {o : IsolatedObserver E} {event : E} : o.pump = .handling event →
      Step o .break { o with pump := .broken }
  | waited {o : IsolatedObserver E} {call : Nat} : o.closes[call]? = some .waiting → o.pump = .drained →
      Step o (.waited call) (o.moved call .returned)
  | waitFailed {o : IsolatedObserver E} {call : Nat} : o.closes[call]? = some .waiting →
      Step o (.waitFailed call) ({ o with cancelling := true }.moved call .gathering)
  | gathered {o : IsolatedObserver E} {call : Nat} : o.closes[call]? = some .gathering → o.pump.done = true →
      Step o (.gathered call) (o.moved call .returned)
  | interrupted {o : IsolatedObserver E} {call : Nat} : o.closes[call]? = some .gathering →
      Step o (.interrupted call) (o.moved call .interrupted)

/-! ## What is handed over -/

def Label.isClose : Label E → Bool
  | .aclose => true
  | _ => false

def Label.event? : Label E → Option E
  | .onEvent event => some event
  | _ => none

/-- The events that are handed over before the first close, in order. -/
def offersIn (ls : List (Label E)) : List E := (ls.takeWhile fun l => !l.isClose).filterMap Label.event?

theorem offersIn_snoc (ls : List (Label E)) (l : Label E) :
    offersIn (ls ++ [l]) = if ls.any Label.isClose then offersIn ls else offersIn ls ++ l.event?.toList := by
  induction ls with
  | nil => cases l <;> rfl
  | cons l' ls ih =>
    cases hl : l'.isClose with
    | true => simp [offersIn, hl]
    | false =>
      have hcons : ∀ ms : List (Label E), offersIn (l' :: ms) = l'.event?.toList ++ offersIn ms := by
        intro ms
        simp only [offersIn, List.takeWhile_cons, hl, Bool.not_false, if_true, List.filterMap_cons]
        cases l'.event? <;> rfl
      rw [List.cons_append, hcons, hcons, ih, List.any_cons, hl, Bool.false_or]
      split
      · rfl
      · rw [List.append_assoc]

/-! ## What holds in every run -/

/-- What a call of `aclose` can rely on where it stands. -/
def Allows (o : IsolatedObserver E) : ObserverClose → Prop
  | .waiting => o.pump ≠ .absent
  | .gathering => o.pump ≠ .absent ∧ o.cancelling = true
  | .returned => o.pump.done = true
  | _ => True

/-- The queue took events, and then sentinels; the events were taken out in order, and then one sentinel at most. -/
structure Orderly (maxsize : Nat) (ls : List (Label E)) (o : IsolatedObserver E) (accepted : List E) : Prop where
  limit : o.queue.limit = maxsize
  closed : o.closed = ls.any Label.isClose
  sublist : accepted.Sublist (offersIn ls)
  entered : ∃ k, o.queue.entered = accepted.map some ++ List.replicate k none ∧ (o.closed = false → k = 0)
  left : o.queue.left = o.handed.map some ++ o.pump.sentinels
  room : maxsize = 0 ∨ (offersIn ls).length ≤ maxsize → accepted = offersIn ls
  closes : ∀ (call : Nat) close, o.closes[call]? = some close → o.Allows close

variable {maxsize : Nat} {ls : List (Label E)} {o : IsolatedObserver E} {accepted : List E}

theorem orderly_of (maxsize : Nat) : Orderly maxsize [] (of maxsize : IsolatedObserver E) [] where
  limit := rfl
  closed := rfl
  sublist := List.Sublist.slnil
  entered := ⟨0, rfl, fun _ => rfl⟩
  left := rfl
  room _ := rfl
  closes call close h := by simp [of] at h

/-- A label that hands nothing over and closes nothing. -/
theorem offersIn_other (ls : List (Label E)) {l : Label E} (hclose : l.isClose = false) (hevent : l.event? = none) :
    offersIn (ls ++ [l]) = offersIn ls ∧ (ls ++ [l]).any Label.isClose = ls.any Label.isClose := by
  rw [offersIn_snoc, hevent, List.any_append]
  simp [hclose]

/-- What is left of a step that puts nothing into the queue: how the pump and the closes stand. -/
theorem Orderly.same (h : Orderly maxsize ls o accepted) {l : Label E} (hclose : l.isClose = false)
    (hevent : l.event? = none) {o' : IsolatedObserver E} (hlimit : o'.queue.limit = o.queue.limit)
    (hentered : o'.queue.entered = o.queue.entered) (hclosed : o'.closed = o.closed)
    (hleft : o'.queue.left = o'.handed.map some ++ o'.pump.sentinels)
    (hcloses : ∀ (call : Nat) close, o'.closes[call]? = some close → o'.Allows close) :
    Orderly maxsize (ls ++ [l]) o' accepted := by
  obtain ⟨hoffers, hany⟩ := offersIn_other ls hclose hevent
  refine ⟨hlimit.trans h.limit, ?_, ?_, ?_, hleft, ?_, hcloses⟩
  · rw [hclosed, h.closed, hany]
  · rw [hoffers]
    exact h.sublist
  · rw [hentered, hclosed]
    exact h.entered
  · rw [hoffers]
    exact h.room

/-! ## One step -/

/-- An event is accepted while the observer is open and has room. -/
theorem Orderly.onEvent (h : Orderly maxsize ls o accepted) (event : E) :
    ∃ accepted', Orderly maxsize (ls ++ [.onEvent event]) (o.onEvent event) accepted' := by
  have hoffers := offersIn_snoc ls (.onEvent event)
  have hany : (ls ++ [Label.onEvent event]).any Label.isClose = ls.any Label.isClose := by
    rw [List.any_append]
    exact Bool.or_false _
  unfold IsolatedObserver.onEvent
  cases hclosed : o.closed with
  | true =>
    rw [← h.closed, hclosed, if_pos rfl] at hoffers
    refine ⟨accepted, h.limit, ?_, ?_, h.entered, h.left, ?_, h.closes⟩
    · rw [hany]
      exact h.closed
    · rw [hoffers]
      exact h.sublist
    · rw [hoffers]
      exact h.room
  | false =>
    rw [← h.closed, hclosed] at hoffers hany
    have hoffers : offersIn (ls ++ [.onEvent event]) = offersIn ls ++ [event] := hoffers
    obtain ⟨k, hentered, hk⟩ := h.entered
    obtain rfl := hk hclosed
    simp only [Bool.false_eq_true, if_false, offer]
    cases hput : o.queue.putNowait (some event) with
    | some queue =>
      obtain ⟨hlimit, -, hentered', hleft⟩ := Channel.put_spec hput
      refine ⟨accepted ++ [event], hlimit.trans h.limit, ?_, ?_, ⟨0, ?_, fun _ => rfl⟩, ?_, ?_, h.closes⟩
      · rw [hany]
        exact hclosed
      · rw [hoffers]
        exact h.sublist.append_right [event]
      · simp only [Option.getD_some, hentered', hentered, List.replicate_zero, List.append_nil, List.map_append,
          List.map_cons, List.map_nil]
      · simp only [Option.getD_some, hleft]
        exact h.left
      · intro hroom
        rw [hoffers, h.room]
        rw [hoffers, List.length_append, List.length_singleton] at hroom
        omega
    | none =>
      refine ⟨accepted, h.limit, ?_, ?_, ⟨0, hentered, fun _ => rfl⟩, h.left, ?_, h.closes⟩
      · rw [hany]
        exact hclosed
      · rw [hoffers]
        exact h.sublist.trans (List.sublist_append_left _ _)
      · intro hroom
        have hfull := Channel.put_none hput
        have hconserved := congrArg List.length o.queue.conserved
        have hshort := h.sublist.length_le
        simp only [Channel.full, h.limit, decide_eq_true_eq] at hfull
        rw [hoffers, List.length_append, List.length_singleton] at hroom
        rw [hentered] at hconserved
        simp only [List.length_append, List.length_map, List.replicate_zero, List.length_nil] at hconserved
        omega

theorem Orderly.aclose (h : Orderly maxsize ls o accepted) :
    Orderly maxsize (ls ++ [.aclose]) o.aclose accepted := by
  have hoffers : offersIn (ls ++ [.aclose]) = offersIn ls := by
    rw [offersIn_snoc]
    split
    · rfl
    · exact List.append_nil _
  have hany : (ls ++ [Label.aclose (E := E)]).any Label.isClose = true := by
    rw [List.any_append]
    simp [Label.isClose]
  obtain ⟨k, hentered, -⟩ := h.entered
  have hqueue : ∃ k,
      ((o.queue.putNowait none).getD o.queue).entered = accepted.map some ++ List.replicate k none := by
    cases hput : o.queue.putNowait none with
    | none => exact ⟨k, hentered⟩
    | some queue =>
      obtain ⟨-, -, hentered', -⟩ := Channel.put_spec hput
      refine ⟨k + 1, ?_⟩
      rw [Option.getD_some, hentered', hentered, List.append_assoc, ← List.replicate_succ']
  have hleft : ((o.queue.putNowait none).getD o.queue).left = o.queue.left ∧
      ((o.queue.putNowait none).getD o.queue).limit = o.queue.limit := by
    cases hput : o.queue.putNowait none with
    | none => exact ⟨rfl, rfl⟩
    | some queue =>
      obtain ⟨hlimit, -, -, hleft⟩ := Channel.put_spec hput
      exact ⟨hleft, hlimit⟩
  obtain ⟨k', hentered'⟩ := hqueue
  refine ⟨hleft.2.trans h.limit, hany.symm, hoffers ▸ h.sublist, ⟨k', hentered', fun hc => by cases hc⟩,
    hleft.1.trans h.left, hoffers ▸ h.room, fun call close hcall => ?_⟩
  have hsame : ∀ close, o.Allows close → o.aclose.Allows close := fun close hallows => by
    cases close <;> exact hallows
  rcases getElem?_snoc hcall with ⟨hold, -⟩ | ⟨hnew, -⟩
  · exact hsame close (h.closes call close hold)
  · have hawaited : o.Allows o.pump.awaited := by
      cases hpump : o.pump with
      | absent => trivial
      | _ =>
        intro heq
        rw [hpump] at heq
        cases heq
    rw [← hnew]
    exact hsame _ hawaited

/-- The pump has gone on, and what was allowed is allowed. -/
theorem Allows.mono {close : ObserverClose} (h : o.Allows close) {o' : IsolatedObserver E}
    (habsent : o.pump ≠ .absent → o'.pump ≠ .absent) (hcancel : o.cancelling = true → o'.cancelling = true)
    (hdone : o.pump.done = true → o'.pump.done = true) : o'.Allows close := by
  cases close with
  | waiting => exact habsent h
  | gathering => exact ⟨habsent h.1, hcancel h.2⟩
  | returned => exact hdone h
  | interrupted | unstarted => trivial

/-- A call of `aclose` goes on, while the pump stands still. -/
theorem Orderly.moved (h : Orderly maxsize ls o accepted) {l : Label E} (hclose : l.isClose = false)
    (hevent : l.event? = none) {call : Nat} {close : ObserverClose} {cancelling : Bool}
    (hcancel : o.cancelling = true → cancelling = true)
    (hallows : ({ o with cancelling := cancelling }.moved call close).Allows close) :
    Orderly maxsize (ls ++ [l]) ({ o with cancelling := cancelling }.moved call close) accepted := by
  refine h.same hclose hevent rfl rfl rfl h.left fun call' close' hcall => ?_
  change (o.closes.set call close)[call']? = some close' at hcall
  rw [List.getElem?_set] at hcall
  split at hcall
  · split at hcall
    · obtain rfl := Option.some.inj hcall
      exact hallows
    · cases hcall
  · exact Allows.mono (h.closes call' close' hcall) id hcancel id

theorem Orderly.step (h : Orderly maxsize ls o accepted) {l : Label E} {o' : IsolatedObserver E}
    (hstep : Step o l o') : ∃ accepted', Orderly maxsize (ls ++ [l]) o' accepted' := by
  -- but for `on_event` and `aclose` nothing is put into the queue
  cases hstep with
  | onEvent event => exact h.onEvent event
  | aclose => exact ⟨_, h.aclose⟩
  | start =>
    refine ⟨accepted, ?_⟩
    unfold IsolatedObserver.start
    split
    · rename_i hpump
      have hleft := h.left
      rw [hpump] at hleft
      refine h.same rfl rfl rfl rfl rfl hleft fun call close hcall => ?_
      refine Allows.mono (h.closes call close hcall) (fun _ heq => by cases heq) id fun hdone => ?_
      rw [hpump] at hdone
      cases hdone
    · exact h.same rfl rfl rfl rfl rfl h.left h.closes
  | @get item rest hpump hget =>
    obtain ⟨hlimit, -, hentered, hrest⟩ := Channel.get_spec hget
    have hleft := h.left
    rw [hpump] at hleft
    refine ⟨accepted, ?_⟩
    cases item with
    | none =>
      refine h.same rfl rfl hlimit hentered rfl ?_ fun call close hcall => ?_
      · simp only [take, hrest, hleft, Pump.sentinels, List.append_nil]
      · exact Allows.mono (h.closes call close hcall) (fun _ heq => by cases heq) id fun _ => rfl
    | some event =>
      refine h.same rfl rfl hlimit hentered rfl ?_ fun call close hcall => ?_
      · simp only [take, hrest, hleft, Pump.sentinels, List.append_nil, List.map_append, List.map_cons,
          List.map_nil]
      · refine Allows.mono (h.closes call close hcall) (fun _ heq => by cases heq) id fun hdone => ?_
        rw [hpump] at hdone
        cases hdone
  | handled hpump =>
    have hleft := h.left
    rw [hpump] at hleft
    refine ⟨accepted, h.same rfl rfl rfl rfl rfl hleft fun call close hcall => ?_⟩
    refine Allows.mono (h.closes call close hcall) (fun _ heq => by cases heq) id fun hdone => ?_
    rw [hpump] at hdone
    cases hdone
  | cancel =>
    exact ⟨accepted, h.same rfl rfl rfl rfl rfl h.left fun call close hcall =>
      Allows.mono (h.closes call close hcall) id (fun _ => rfl) id⟩
  | cancelled _ habsent hdone =>
    have hleft := h.left
    have hnone : o.pump.sentinels = [] := by
      cases hpump : o.pump with
      | drained =>
        rw [hpump] at hdone
        cases hdone
      | _ => rfl
    rw [hnone] at hleft
    exact ⟨accepted, h.same rfl rfl rfl rfl rfl hleft fun call close hcall =>
      Allows.mono (h.closes call close hcall) (fun _ heq => by cases heq) id fun _ => rfl⟩
  | «break» hpump =>
    have hleft := h.left
    rw [hpump] at hleft
    exact ⟨accepted, h.same rfl rfl rfl rfl rfl hleft fun call close hcall =>
      Allows.mono (h.closes call close hcall) (fun _ heq => by cases heq) id fun _ => rfl⟩
  | waited _ hpump =>
    refine ⟨accepted, h.moved rfl rfl id ?_⟩
    change o.pump.done = true
    rw [hpump]
    rfl
  | waitFailed hcall => exact ⟨accepted, h.moved rfl rfl (fun _ => rfl) ⟨h.closes _ _ hcall, rfl⟩⟩
  | gathered _ hdone => exact ⟨accepted, h.moved rfl rfl id hdone⟩
  | interrupted _ => exact ⟨accepted, h.moved rfl rfl id trivial⟩

theorem trace_orderly (h : Trace Step (of maxsize) ls o) : ∃ accepted, Orderly maxsize ls o accepted :=
  Trace.invariant (I := fun o ls => ∃ accepted, Orderly maxsize ls o accepted) ⟨[], orderly_of maxsize⟩
    (fun hrun hstep => hrun.elim fun _ hrun => hrun.step hstep) h

/-- The queue tells which events were taken. -/
theorem Orderly.accepted_eq (h : Orderly maxsize ls o accepted) : o.accepted = accepted := by
  obtain ⟨k, hentered, -⟩ := h.entered
  simp [IsolatedObserver.accepted, hentered, List.filterMap_append, List.filterMap_map]

/-- An event is taken when it comes to an open observer with room, and never later. -/
theorem Step.accepts {l : Label E} {o' : IsolatedObserver E} (hstep : Step o l o') :
    o'.accepted = o.accepted ++ if o.closed ∨ o.queue.full then [] else l.event?.toList := by
  -- but for `on_event` and `aclose` the queue is given nothing
  have hidle : ∀ {o' : IsolatedObserver E}, o'.queue.entered = o.queue.entered →
      o'.accepted = o.accepted ++ if o.closed ∨ o.queue.full then [] else (none : Option E).toList := fun h => by
    simp [IsolatedObserver.accepted, h]
  cases hstep with
  | onEvent event =>
    unfold IsolatedObserver.onEvent
    cases hclosed : o.closed with
    | true => simp
    | false =>
      simp only [Bool.false_eq_true, if_false, false_or, offer]
      cases hput : o.queue.putNowait (some event) with
      | none => simp [IsolatedObserver.accepted, Channel.put_none hput]
      | some queue =>
        obtain ⟨-, -, hentered, -⟩ := Channel.put_spec hput
        simp [IsolatedObserver.accepted, Channel.full_of_put hput, hentered, Label.event?]
  | aclose =>
    unfold IsolatedObserver.aclose offer
    cases hput : o.queue.putNowait none with
    | none => exact hidle rfl
    | some queue =>
      obtain ⟨-, -, hentered, -⟩ := Channel.put_spec hput
      simp [IsolatedObserver.accepted, hentered, Label.event?]
  | start =>
    unfold IsolatedObserver.start
    split <;> exact hidle rfl
  | @get item rest _ hget =>
    obtain ⟨-, -, hentered, -⟩ := Channel.get_spec hget
    cases item <;> exact hidle hentered
  | _ => exact hidle rfl

/-- Events before a sentinel are all of the events, if sentinels come last. -/
theorem events_eq {items : List (Option E)} {k : Nat} : ∀ {xs ys : List E},
    xs.map some ++ none :: items = ys.map some ++ List.replicate k none → xs = ys
  | [], [], _ => rfl
  | [], y :: ys, h => by cases (List.cons.inj h).1
  | x :: xs, [], h => by
    have hmem : some x ∈ List.map some ([] : List E) ++ List.replicate k none := by
      rw [← h]
      exact List.mem_cons_self
    cases List.eq_of_mem_replicate hmem
  | x :: xs, y :: ys, h => by
    obtain ⟨hhead, htail⟩ := List.cons.inj h
    rw [Option.some.inj hhead, events_eq htail]

/-- Behind a sentinel, every event has been handed to the inner observer. -/
theorem Orderly.drained (h : Orderly maxsize ls o accepted) (hpump : o.pump = .drained) : o.handed = accepted := by
  obtain ⟨k, hentered, -⟩ := h.entered
  have hleft := h.left
  have hconserved := o.queue.conserved
  rw [hpump] at hleft
  rw [hleft, hentered, List.append_assoc] at hconserved
  exact events_eq hconserved

theorem Orderly.handed_prefix (h : Orderly maxsize ls o accepted) : o.handed <+: accepted := by
  obtain ⟨k, hentered, -⟩ := h.entered
  have hprefix := o.queue.left_prefix
  rw [h.left, hentered] at hprefix
  have hevents : o.handed.map some <+: accepted.map some ++ List.replicate k none :=
    (List.prefix_append _ _).trans hprefix
  have hall := hevents.filterMap id
  simpa [List.filterMap_append, List.filterMap_map, List.filterMap_replicate] using hall

theorem moved_at {call : Nat} {close close' : ObserverClose} (h : o.closes[call]? = some close) :
    (o.moved call close').closes[call]? = some close' := by
  have hlt := (List.getElem?_eq_some_iff.mp h).1
  exact List.getElem?_set_self hlt

/-- A call that gathers ends, once the pump is gone. -/
theorem gathering_ends {call : Nat} (hcall : o.closes[call]? = some .gathering) (hpump : o.pump ≠ .absent)
    (hcancel : o.cancelling = true) :
    ∃ ls' o', Trace Step o ls' o' ∧ Label.handled ∉ ls' ∧ o'.closes[call]? = some .returned := by
  cases hdone : o.pump.done with
  | true =>
    refine ⟨[.gathered call], _, (Trace.nil o).snoc (.gathered hcall hdone), ?_, moved_at hcall⟩
    simp
  | false =>
    have hbreak : Step o .break { o with pump := .broken } := .cancelled hcancel hpump hdone
    have hgather :
        Step { o with pump := .broken } (.gathered call) ({ o with pump := .broken }.moved call .returned) :=
      .gathered hcall rfl
    refine ⟨[.break, .gathered call], _, ((Trace.nil o).snoc hbreak).snoc hgather, ?_,
      moved_at (o := { o with pump := .broken }) hcall⟩
    simp

/-- A close needs nothing of the inner observer. -/
theorem Orderly.close_ends (h : Orderly maxsize ls o accepted) {call : Nat} {close : ObserverClose}
    (hcall : o.closes[call]? = some close) (hopen : close = .waiting ∨ close = .gathering) :
    ∃ ls' o', Trace Step o ls' o' ∧ Label.handled ∉ ls' ∧ o'.closes[call]? = some .returned := by
  have hallows := h.closes call close hcall
  rcases hopen with rfl | rfl
  · have hgathering : ({ o with cancelling := true }.moved call .gathering).closes[call]? = some .gathering :=
      moved_at (o := { o with cancelling := true }) hcall
    obtain ⟨ls', o', htrace, hhandled, hend⟩ := gathering_ends hgathering hallows rfl
    refine ⟨[.waitFailed call] ++ ls', o', ((Trace.nil o).snoc (.waitFailed hcall)).append htrace, ?_, hend⟩
    simpa using hhandled
  · exact gathering_ends hcall hallows.1 hallows.2

/-- **The isolated observer.** In every interleaving, the events taken are some of those handed over before the
first close, in order: each that came to an open observer with room, and no other, so that all are taken if there is
room for all; no more than `maxsize` items wait; the observer of the host gets the taken events in order, each once,
and all of them if the pump found a sentinel; a close that has returned leaves no pump behind; and a close that is
under way can end without the observer of the host. -/
theorem observer_sound (h : Trace Step (of maxsize) ls o) :
    o.accepted.Sublist (offersIn ls) ∧
      (∀ (l : Label E) (o' : IsolatedObserver E), Step o l o' → o'.accepted = o.accepted ++
        if o.closed ∨ maxsize ≠ 0 ∧ maxsize ≤ o.queue.items.length then [] else l.event?.toList) ∧
      (maxsize = 0 ∨ o.queue.items.length ≤ maxsize) ∧
      (maxsize = 0 ∨ (offersIn ls).length ≤ maxsize → o.accepted = offersIn ls) ∧
      o.handed <+: o.accepted ∧ (o.pump = .drained → o.handed = o.accepted) ∧
      (∀ call : Nat, o.closes[call]? = some .returned → o.pump.done = true) ∧
      ∀ (call : Nat) close, o.closes[call]? = some close → close = .waiting ∨ close = .gathering →
        ∃ ls' o', Trace Step o ls' o' ∧ Label.handled ∉ ls' ∧ o'.closes[call]? = some .returned := by
  obtain ⟨accepted, hrun⟩ := trace_orderly h
  obtain rfl := hrun.accepted_eq
  have hbounded := o.queue.bounded
  rw [hrun.limit] at hbounded
  refine ⟨hrun.sublist, fun l o' hstep => ?_, hbounded, hrun.room, hrun.handed_prefix, hrun.drained,
    fun call hcall => hrun.closes call .returned hcall, fun call close hcall hopen => hrun.close_ends hcall hopen⟩
  have hfull : (o.queue.full = true) = (maxsize ≠ 0 ∧ maxsize ≤ o.queue.items.length) := by
    simp only [Channel.full, hrun.limit, decide_eq_true_eq]
  simp only [hstep.accepts, hfull]

/-- Two events for a queue of one, and a close that finds it empty. -/
def crowded : List (Label Nat) :=
  [.start, .onEvent 1, .onEvent 2, .get, .handled, .aclose, .get, .waited 0]

theorem crowded_sound : ∃ o : IsolatedObserver Nat, Trace Step (of 1) crowded o ∧ o.accepted = [1] ∧
    o.accepted.Sublist [1, 2] ∧ o.handed = o.accepted := by
  have hclose : Trace Step (of 1) crowded _ :=
    ((((((((Trace.nil (of 1)).snoc (.start _)).snoc (.onEvent _ 1)).snoc (.onEvent _ 2)).snoc (.get rfl rfl)).snoc
      (.handled rfl)).snoc (.aclose _)).snoc (.get rfl rfl)).snoc (.waited rfl rfl)
  obtain ⟨hsublist, -, -, -, -, hdrained, -⟩ := observer_sound hclose
  exact ⟨_, hclose, rfl, hsublist, hdrained rfl⟩

end IsolatedObserver

end AgentRuntime
