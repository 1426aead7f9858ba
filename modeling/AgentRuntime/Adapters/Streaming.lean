import AgentRuntime.Adapters.Chunking
import AgentRuntime.Async.Channel
import AgentRuntime.Async.Trace

/-!
# A stream of the adapter, step by step

`_stream` of `adapters/openai.py`: a task that reads the provider and fills a queue, the generator that empties it
under the deadline, and the close of what was opened. Anything may happen between two of their steps, a close of the
whole adapter included.

* `AdapterStream` — where one stream stands; `Producer`, `StreamPoint` — its task and its generator;
* `leave`, `release`, `settle` — the generator, from each of its suspensions to the next;
* `AdapterStream.Step` — a step of the provider, of the generator, of its consumer or of the adapter;
* `Sound` — what holds of the queue, of the task and of the stream that was opened;
* `stream_sound` — what the consumer has got, how the generator ends, and what becomes of the opened stream.
-/

set_option autoImplicit false

namespace AgentRuntime.OpenaiAdapter

open Async

/-- What the task puts into the queue: an event, `_STREAM_END`, or an exception. -/
inductive StreamItem where
  | event (event : ModelStepEvent)
  | finished
  | failed (e : Exc)

/-- The event that an item is. -/
def StreamItem.event? : StreamItem → Option ModelStepEvent
  | .event e => some e
  | _ => none

/-- The task of `produce`. -/
inductive Producer where
  /-- `await create(…)`. -/
  | creating
  /-- `async for event in normalize_chat_completion_stream(…)`: the events still to come. -/
  | reading (rest : List ModelStepEvent)
  | done

/-- `producer.done()`. -/
def Producer.isDone : Producer → Bool
  | done => true
  | _ => false

/-- How the body of the generator is left: behind `_STREAM_END`, or with an exception in flight. -/
inductive StreamExit where
  | drained
  | raised (e : Exc)

/-- Where the generator is suspended. -/
inductive StreamPoint where
  /-- `await _await_deadline(queue.get(), deadline)`. -/
  | waiting
  /-- The consumer holds an event. -/
  | holding
  /-- `await wait_for(gather(producer), …)`. -/
  | stopping (exit : StreamExit)
  /-- `await _release_within(stream, …)`. -/
  | closing (exit : StreamExit)
  | settled (outcome : Except Exc Unit)

/-- One run of `_stream`, from the moment its task is there. -/
structure AdapterStream where
  queue : Channel StreamItem := .empty 0
  producer : Producer := .creating
  /-- `producer.cancel()` was called. -/
  cancelling : Bool := false
  /-- The stream is in `opened`, and in `_active_streams`. -/
  opened : Bool := false
  active : Bool := false
  /-- The deadline has passed. -/
  late : Bool := false
  point : StreamPoint := .waiting
  /-- The local `released`. -/
  released : Bool := true
  /-- What was yielded, and how often the generator asked the stream to close. -/
  handed : List ModelStepEvent := []
  closes : Nat := 0

/-- `raise item`, or `raise AdapterError(str(item)) from item`. -/
def wrapped (e : Exc) : Exc := if e.isAdapter then e else .adapter e.text (some e)

def timeoutError (message : String) : Exc := .other "TimeoutError" message none

def closeExceeded : Exc := .adapter "stream close exceeded the adapter timeout"

/-- What may come out of the generator: an `AdapterError`, or what is no `Exception`. -/
def Outgoing (e : Exc) : Prop := e.isAdapter = true ∨ e.isException = false

namespace AdapterStream

/-- `await queue.put(item)`: the queue has no bound. -/
def put (s : AdapterStream) (item : StreamItem) : AdapterStream :=
  { s with queue := (s.queue.putNowait item).getD s.queue }

/-- The `finally`, up to the wait for the task. -/
def leave (s : AdapterStream) (exit : StreamExit) : AdapterStream :=
  { s with cancelling := !s.producer.isDone, point := .stopping exit }

/-- What follows `_release_producer`. -/
def settle (s : AdapterStream) (exit : StreamExit) : AdapterStream :=
  match exit with
  | .raised e => { s with point := .settled (.error e) }
  | .drained => { s with point := .settled (if s.released then .ok () else .error closeExceeded) }

/-- `for stream in list(opened)`. -/
def release (s : AdapterStream) (exit : StreamExit) : AdapterStream :=
  if s.opened then { s with point := .closing exit, closes := s.closes + 1 } else s.settle exit

/-- The top of `while True`: `_await_deadline` looks at the clock before it waits. -/
def next (s : AdapterStream) : AdapterStream :=
  if s.late then s.leave (.raised (wrapped (timeoutError "adapter timeout"))) else { s with point := .waiting }

/-- `_stream`, to its first suspension. -/
def begun (late : Bool) : AdapterStream := ({ late := late } : AdapterStream).next

/-- `queue.get()` has returned. -/
def take (s : AdapterStream) (item : StreamItem) (rest : Channel StreamItem) : AdapterStream :=
  match item with
  | .event event => { s with queue := rest, point := .holding, handed := s.handed ++ [event] }
  | .finished => { s with queue := rest }.leave .drained
  | .failed e => { s with queue := rest }.leave (.raised (wrapped e))

inductive Label where
  /-- The provider opens its stream, an event of it is read, or it is read to its end. -/
  | created
  | read
  | ended
  /-- An exception comes out of the provider, a `TimeoutError` of the task among them; or what is no `Exception`,
  as when the task is cancelled. -/
  | failed (e : Exc)
  | broke
  /-- The deadline passes. -/
  | expire
  /-- The generator gets an item, or its wait times out. -/
  | get
  | getTimedOut
  /-- The consumer pulls, or closes. -/
  | pull
  | close
  /-- The task is done, or is not in time. -/
  | stopped
  | stopTimedOut
  /-- The stream is closed, or is not in time. -/
  | streamClosed
  | closeTimedOut
  /-- What is no `Exception` comes out of an await of the generator, as when its task is cancelled. -/
  | interruptGet
  | interruptStop
  | interruptClose
  /-- `aclose` of the adapter drops the streams it owns. It asks each of them to close as well; `closes` counts the
  requests of the generator only. -/
  | disown

/-- What is read of the provider is `script`, and then its end or `failure`, if nothing comes before. -/
inductive Step (script : List ModelStepEvent) (failure : Option Exc) :
    AdapterStream → Label → AdapterStream → Prop where
  | created {s : AdapterStream} : s.producer = .creating →
      Step script failure s .created { s with producer := .reading script, opened := true, active := true }
  | read {s : AdapterStream} {event : ModelStepEvent} {rest : List ModelStepEvent} :
      s.producer = .reading (event :: rest) →
      Step script failure s .read ({ s with producer := .reading rest }.put (.event event))
  | ended {s : AdapterStream} : s.producer = .reading [] → failure = none →
      Step script failure s .ended ({ s with producer := .done }.put .finished)
  | failed {s : AdapterStream} {e : Exc} : s.producer ≠ .done → e.isException = true →
      Step script failure s (.failed e) ({ s with producer := .done }.put (.failed e))
  | broke {s : AdapterStream} : s.producer ≠ .done → Step script failure s .broke { s with producer := .done }
  | expire (s : AdapterStream) : Step script failure s .expire { s with late := true }
  | get {s : AdapterStream} {item : StreamItem} {rest : Channel StreamItem} : s.point = .waiting →
      s.queue.getNowait = some (item, rest) → Step script failure s .get (s.take item rest)
  | getTimedOut {s : AdapterStream} : s.point = .waiting → s.late = true →
      Step script failure s .getTimedOut (s.leave (.raised (wrapped (timeoutError ""))))
  | interruptGet {s : AdapterStream} {e : Exc} : s.point = .waiting → e.isException = false →
      Step script failure s .interruptGet (s.leave (.raised e))
  | pull {s : AdapterStream} : s.point = .holding → Step script failure s .pull s.next
  | close {s : AdapterStream} : s.point = .holding →
      Step script failure s .close (s.leave (.raised .generatorExit))
  | stopped {s : AdapterStream} {exit : StreamExit} : s.point = .stopping exit → s.producer = .done →
      Step script failure s .stopped (s.release exit)
  | stopTimedOut {s : AdapterStream} {exit : StreamExit} : s.point = .stopping exit →
      Step script failure s .stopTimedOut ({ s with released := false }.release exit)
  | interruptStop {s : AdapterStream} {exit : StreamExit} {e : Exc} : s.point = .stopping exit →
      e.isException = false → Step script failure s .interruptStop { s with point := .settled (.error e) }
  | streamClosed {s : AdapterStream} {exit : StreamExit} : s.point = .closing exit →
      Step script failure s .streamClosed ({ s with active := false }.settle exit)
  | closeTimedOut {s : AdapterStream} {exit : StreamExit} : s.point = .closing exit →
      Step script failure s .closeTimedOut ({ s with released := false, active := false }.settle exit)
  | interruptClose {s : AdapterStream} {exit : StreamExit} {e : Exc} : s.point = .closing exit →
      e.isException = false →
      Step script failure s .interruptClose { s with active := false, point := .settled (.error e) }
  | disown (s : AdapterStream) : Step script failure s .disown { s with active := false }

/-! ## What holds in every run -/

/-- What the task has put into the queue. -/
inductive Filled (script : List ModelStepEvent) (failure : Option Exc) (s : AdapterStream) : Prop where
  | creating : s.producer = .creating → s.queue.entered = [] → s.opened = false → Filled script failure s
  | reading (sent : List ModelStepEvent) {rest : List ModelStepEvent} : s.producer = .reading rest →
      script = sent ++ rest → s.queue.entered = sent.map .event → s.opened = true → Filled script failure s
  | ended : s.producer = .done → s.queue.entered = script.map .event ++ [.finished] → failure = none →
      s.opened = true → Filled script failure s
  | broken (sent : List ModelStepEvent) {rest : List ModelStepEvent} (items : List StreamItem) : s.producer = .done →
      script = sent ++ rest → s.queue.entered = sent.map .event ++ items →
      (items = [] ∨ ∃ e, items = [.failed e]) → Filled script failure s

/-- How a body that was left has emptied the queue. -/
def Emptied (s : AdapterStream) : StreamExit → Prop
  | .drained => s.queue.left = s.handed.map .event ++ [.finished]
  | .raised e => (s.queue.left = s.handed.map .event ∨ ∃ e, s.queue.left = s.handed.map .event ++ [.failed e]) ∧
    Outgoing e

/-- The stream that was opened is still owned by the adapter, if nobody else saw to that. -/
def Owned (ls : List Label) (s : AdapterStream) : Prop :=
  s.closes = 0 ∧ (s.opened = true → s.active = true ∨ .disown ∈ ls)

/-- What holds of the generator where it is suspended. -/
def Standing (ls : List Label) (s : AdapterStream) : StreamPoint → Prop
  | .waiting | .holding => s.queue.left = s.handed.map .event ∧ s.Owned ls ∧ s.released = true
  | .stopping exit => s.Emptied exit ∧ s.Owned ls ∧ s.released = true
  | .closing exit => s.Emptied exit ∧ s.closes = 1 ∧ s.opened = true ∧
    (.stopTimedOut ∉ ls → s.producer = .done)
  | .settled (.ok ()) => s.Emptied .drained ∧ s.closes = 1 ∧ s.active = false ∧ s.opened = true
  | .settled (.error e) => (∃ exit, s.Emptied exit) ∧ Outgoing e ∧
    (s.closes = 1 ∧ s.active = false ∧ s.opened = true ∨ s.Owned ls) ∧
    (.interruptStop ∉ ls → .stopTimedOut ∉ ls → s.producer = .done ∧ (s.opened = true → s.closes = 1))

structure Sound (script : List ModelStepEvent) (failure : Option Exc) (ls : List Label) (s : AdapterStream) :
    Prop where
  limit : s.queue.limit = 0
  filled : Filled script failure s
  standing : s.Standing ls s.point

variable {script : List ModelStepEvent} {failure : Option Exc} {ls : List Label} {s : AdapterStream}

theorem put_queue (h : s.queue.limit = 0) (item : StreamItem) :
    (s.put item).queue.limit = 0 ∧ (s.put item).queue.entered = s.queue.entered ++ [item] ∧
      (s.put item).queue.left = s.queue.left := by
  have hroom : s.queue.full = false := by simp [Channel.full, h]
  obtain ⟨queue, hput⟩ := Channel.put_of_room (a := item) hroom
  obtain ⟨hlimit, -, hentered, hleft⟩ := Channel.put_spec hput
  simp only [put, hput, Option.getD_some]
  exact ⟨hlimit.trans h, hentered, hleft⟩

theorem wrapped_isAdapter (e : Exc) : (wrapped e).isAdapter = true := by
  unfold wrapped
  split
  · assumption
  · rfl

theorem notMem_of_snoc {l l' : Label} (h : l ∉ ls ++ [l']) : l ∉ ls := fun hmem => h (List.mem_append_left _ hmem)

/-! ## Steps of the provider -/

/-- Nothing differs for the generator, but that a stream may have been opened. -/
structure Provided (s s' : AdapterStream) : Prop where
  point : s'.point = s.point
  left : s'.queue.left = s.queue.left
  handed : s'.handed = s.handed
  closes : s'.closes = s.closes
  released : s'.released = s.released
  opened : s.opened = true → s'.opened = true ∧ s'.active = s.active
  fresh : s'.opened = true → s'.active = true ∨ s.opened = true
  done : s.producer = .done → s'.producer = .done ∧ s'.opened = s.opened

variable {s' : AdapterStream}

theorem Provided.emptied (h : Provided s s') {exit : StreamExit} (hs : s.Emptied exit) : s'.Emptied exit := by
  cases exit with
  | drained =>
    change s'.queue.left = s'.handed.map .event ++ [.finished]
    rw [h.left, h.handed]
    exact hs
  | raised e =>
    change (s'.queue.left = s'.handed.map .event ∨ ∃ e, s'.queue.left = s'.handed.map .event ++ [.failed e]) ∧ _
    rw [h.left, h.handed]
    exact hs

theorem Provided.owned (h : Provided s s') {l : Label} (hs : s.Owned ls) : s'.Owned (ls ++ [l]) := by
  refine ⟨h.closes.trans hs.1, fun hopened => ?_⟩
  rcases h.fresh hopened with hactive | hold
  · exact .inl hactive
  · rw [(h.opened hold).2]
    exact (hs.2 hold).imp_right (List.mem_append_left _)

theorem Provided.standing (h : Provided s s') {l : Label} (hs : s.Standing ls s.point) :
    s'.Standing (ls ++ [l]) s'.point := by
  rw [h.point]
  generalize s.point = point at hs
  cases point with
  | waiting | holding =>
    refine ⟨?_, h.owned hs.2.1, h.released.trans hs.2.2⟩
    rw [h.left, h.handed]
    exact hs.1
  | stopping exit => exact ⟨h.emptied hs.1, h.owned hs.2.1, h.released.trans hs.2.2⟩
  | closing exit =>
    exact ⟨h.emptied hs.1, h.closes.trans hs.2.1, (h.opened hs.2.2.1).1, fun hnot =>
      (h.done (hs.2.2.2 (notMem_of_snoc hnot))).1⟩
  | settled outcome =>
    cases outcome with
    | ok _ =>
      obtain ⟨hopened, hactive⟩ := h.opened hs.2.2.2
      exact ⟨h.emptied hs.1, h.closes.trans hs.2.1, hactive.trans hs.2.2.1, hopened⟩
    | error e =>
      obtain ⟨⟨exit, hexit⟩, he, hstream, hdone⟩ := hs
      refine ⟨⟨exit, h.emptied hexit⟩, he, ?_, fun hstop htimeout => ?_⟩
      · rcases hstream with ⟨hcloses, hactive, hopened⟩ | howned
        · obtain ⟨hopened', hactive'⟩ := h.opened hopened
          exact .inl ⟨h.closes.trans hcloses, hactive'.trans hactive, hopened'⟩
        · exact .inr (h.owned howned)
      · obtain ⟨hproducer, hcloses⟩ := hdone (notMem_of_snoc hstop) (notMem_of_snoc htimeout)
        obtain ⟨hproducer', hopened'⟩ := h.done hproducer
        exact ⟨hproducer', fun hopened => h.closes.trans (hcloses (hopened' ▸ hopened))⟩

/-- The task puts an item into the queue. -/
theorem provided_put (h : s.queue.limit = 0) (producer : Producer) (item : StreamItem)
    (hdone : s.producer ≠ .done) : Provided s ({ s with producer := producer }.put item) where
  point := rfl
  left := (put_queue (s := { s with producer := producer }) h item).2.2
  handed := rfl
  closes := rfl
  released := rfl
  opened hopened := ⟨hopened, rfl⟩
  fresh hopened := .inr hopened
  done hproducer := absurd hproducer hdone

/-! ## Steps of the generator -/

theorem Filled.same (h : Filled script failure s) (hproducer : s'.producer = s.producer)
    (hentered : s'.queue.entered = s.queue.entered) (hopened : s'.opened = s.opened) :
    Filled script failure s' := by
  cases h with
  | creating hp he ho => exact .creating (hproducer.trans hp) (hentered.trans he) (hopened.trans ho)
  | reading sent hp hscript he ho =>
    exact .reading sent (hproducer.trans hp) hscript (hentered.trans he) (hopened.trans ho)
  | ended hp he hf ho => exact .ended (hproducer.trans hp) (hentered.trans he) hf (hopened.trans ho)
  | broken sent items hp hscript he hitems =>
    exact .broken sent items (hproducer.trans hp) hscript (hentered.trans he) hitems

/-- `_STREAM_END` comes last, and only behind every event. -/
theorem Filled.finished (h : Filled script failure s) (hmem : .finished ∈ s.queue.entered) :
    s.producer = .done ∧ s.queue.entered = script.map .event ++ [.finished] ∧ failure = none ∧
      s.opened = true := by
  cases h with
  | creating _ hentered _ =>
    rw [hentered] at hmem
    cases hmem
  | reading _ _ _ hentered _ =>
    rw [hentered] at hmem
    simp at hmem
  | ended hp hentered hfailure hopened => exact ⟨hp, hentered, hfailure, hopened⟩
  | broken _ _ _ _ hentered hitems =>
    rw [hentered] at hmem
    rcases hitems with rfl | ⟨e, rfl⟩ <;> simp at hmem

theorem Sound.drained (h : Sound script failure ls s) (hexit : s.Emptied .drained) :
    s.producer = .done ∧ s.queue.entered = script.map .event ++ [.finished] ∧ failure = none ∧
      s.opened = true := by
  have hleft : s.queue.left = s.handed.map .event ++ [.finished] := hexit
  refine h.filled.finished (s.queue.left_prefix.subset ?_)
  rw [hleft]
  exact List.mem_append_right _ List.mem_cons_self

theorem Owned.mono (h : s.Owned ls) (l : Label) : s.Owned (ls ++ [l]) :=
  ⟨h.1, fun hopened => (h.2 hopened).imp_right (List.mem_append_left _)⟩

/-- The stream was asked to close, and is not owned any more. -/
theorem settle_standing {exit : StreamExit} (hexit : s.Emptied exit) (hcloses : s.closes = 1)
    (hactive : s.active = false) (hopened : s.opened = true)
    (hdone : .stopTimedOut ∉ ls → s.producer = .done) :
    (s.settle exit).Standing ls (s.settle exit).point := by
  cases exit with
  | raised e =>
    exact ⟨⟨.raised e, hexit⟩, hexit.2, .inl ⟨hcloses, hactive, hopened⟩, fun _ htimeout =>
      ⟨hdone htimeout, fun _ => hcloses⟩⟩
  | drained =>
    cases hreleased : s.released with
    | true =>
      simp only [settle, hreleased, if_true]
      exact ⟨hexit, hcloses, hactive, hopened⟩
    | false =>
      simp only [settle, hreleased, Bool.false_eq_true, if_false]
      exact ⟨⟨.drained, hexit⟩, .inl rfl, .inl ⟨hcloses, hactive, hopened⟩, fun _ htimeout =>
        ⟨hdone htimeout, fun _ => hcloses⟩⟩

/-- What was opened is asked to close; without a stream the body cannot have come to `_STREAM_END`. -/
theorem release_standing {exit : StreamExit} (hexit : s.Emptied exit) (howned : s.Owned ls)
    (hdone : .stopTimedOut ∉ ls → s.producer = .done) (hfinished : exit = .drained → s.opened = true) :
    (s.release exit).Standing ls (s.release exit).point := by
  cases hopened : s.opened with
  | true =>
    simp only [release, hopened, if_true]
    refine ⟨?_, ?_, rfl, hdone⟩
    · cases exit <;> exact hexit
    · change s.closes + 1 = 1
      rw [howned.1]
  | false =>
    simp only [release, hopened, Bool.false_eq_true, if_false]
    cases exit with
    | drained =>
      rw [hfinished rfl] at hopened
      cases hopened
    | raised e =>
      refine ⟨⟨.raised e, hexit⟩, hexit.2, .inr howned, fun _ htimeout => ⟨hdone htimeout, fun hopened' => ?_⟩⟩
      rw [show s.opened = true from hopened'] at hopened
      cases hopened

/-- The adapter drops the streams it owns. -/
theorem disowned_standing (h : s.Standing ls s.point) :
    ({ s with active := false } : AdapterStream).Standing (ls ++ [.disown]) s.point := by
  have hexit {exit : StreamExit} (hs : s.Emptied exit) :
      ({ s with active := false } : AdapterStream).Emptied exit := by
    cases exit <;> exact hs
  have howned (hs : s.Owned ls) : ({ s with active := false } : AdapterStream).Owned (ls ++ [.disown]) :=
    ⟨hs.1, fun _ => .inr (List.mem_append_right _ List.mem_cons_self)⟩
  generalize s.point = point at h
  cases point with
  | waiting | holding => exact ⟨h.1, howned h.2.1, h.2.2⟩
  | stopping exit => exact ⟨hexit h.1, howned h.2.1, h.2.2⟩
  | closing exit => exact ⟨hexit h.1, h.2.1, h.2.2.1, fun hnot => h.2.2.2 (notMem_of_snoc hnot)⟩
  | settled outcome =>
    cases outcome with
    | ok _ => exact ⟨h.1, h.2.1, rfl, h.2.2.2⟩
    | error e =>
      obtain ⟨⟨exit, hs⟩, he, hstream, hdone⟩ := h
      refine ⟨⟨exit, hexit hs⟩, he, ?_, fun hstop htimeout => hdone (notMem_of_snoc hstop) (notMem_of_snoc htimeout)⟩
      exact hstream.imp (fun hs => ⟨hs.1, rfl, hs.2.2⟩) howned

/-- The body is left, with everything that was taken handed over. -/
theorem leave_standing {exit : StreamExit} (hexit : s.Emptied exit) (howned : s.Owned ls)
    (hreleased : s.released = true) : (s.leave exit).Standing ls (s.leave exit).point := by
  refine ⟨?_, howned, hreleased⟩
  cases exit <;> exact hexit

/-- The task puts an item into the queue, and goes on with `producer`. -/
theorem Sound.put (h : Sound script failure ls s) {producer : Producer} {item : StreamItem} {l : Label}
    (hdone : s.producer ≠ .done)
    (hfilled : ∀ s' : AdapterStream, s'.producer = producer → s'.queue.entered = s.queue.entered ++ [item] →
      s'.opened = s.opened → Filled script failure s') :
    Sound script failure (ls ++ [l]) ({ s with producer := producer }.put item) := by
  obtain ⟨hlimit, hentered, -⟩ := put_queue (s := { s with producer := producer }) h.limit item
  exact ⟨hlimit, hfilled _ rfl hentered rfl, (provided_put h.limit producer item hdone).standing h.standing⟩

/-- The task ends with an exception in the queue. -/
theorem Sound.broken (h : Sound script failure ls s) (e : Exc) (l : Label) (hdone : s.producer ≠ .done) :
    Sound script failure (ls ++ [l]) ({ s with producer := .done }.put (.failed e)) := by
  refine h.put hdone fun s' hp hentered _ => ?_
  cases h.filled with
  | creating _ hold _ =>
    refine .broken [] [.failed e] hp rfl ?_ (.inr ⟨e, rfl⟩)
    rw [hentered, hold]
    rfl
  | reading sent _ hscript hold _ =>
    refine .broken sent [.failed e] hp hscript ?_ (.inr ⟨e, rfl⟩)
    rw [hentered, hold]
  | ended hp' _ _ _ | broken _ _ hp' _ _ _ => exact absurd hp' hdone

/-- The generator takes a step by itself. -/
theorem Sound.moved (h : Sound script failure ls s) {l : Label} (hlimit : s'.queue.limit = s.queue.limit)
    (hproducer : s'.producer = s.producer) (hentered : s'.queue.entered = s.queue.entered)
    (hopened : s'.opened = s.opened) (hstanding : s'.Standing (ls ++ [l]) s'.point) :
    Sound script failure (ls ++ [l]) s' :=
  ⟨hlimit.trans h.limit, h.filled.same hproducer hentered hopened, hstanding⟩

theorem release_frame (s : AdapterStream) (exit : StreamExit) : (s.release exit).queue = s.queue ∧
    (s.release exit).producer = s.producer ∧ (s.release exit).opened = s.opened := by
  unfold release settle
  split
  · exact ⟨rfl, rfl, rfl⟩
  · cases exit <;> exact ⟨rfl, rfl, rfl⟩

theorem settle_frame (s : AdapterStream) (exit : StreamExit) : (s.settle exit).queue = s.queue ∧
    (s.settle exit).producer = s.producer ∧ (s.settle exit).opened = s.opened := by
  cases exit <;> exact ⟨rfl, rfl, rfl⟩

/-- The wait for the task is over. -/
theorem Sound.release (h : Sound script failure ls s) {exit : StreamExit} (hpoint : s.point = .stopping exit)
    (released : Bool) {l : Label} (hdone : .stopTimedOut ∉ ls ++ [l] → s.producer = .done) :
    Sound script failure (ls ++ [l]) ({ s with released := released }.release exit) := by
  have hstanding := h.standing
  rw [hpoint] at hstanding
  obtain ⟨hexit, howned, -⟩ := hstanding
  obtain ⟨hqueue, hproducer, hopened⟩ := release_frame { s with released := released } exit
  refine h.moved (congrArg Channel.limit hqueue) hproducer (congrArg Channel.entered hqueue) hopened ?_
  refine release_standing (s := { s with released := released }) ?_ (howned.mono l) hdone fun heq => ?_
  · cases exit <;> exact hexit
  · subst heq
    exact (h.drained hexit).2.2.2

/-- The close of the stream is over. -/
theorem Sound.settle (h : Sound script failure ls s) {exit : StreamExit} (hpoint : s.point = .closing exit)
    (released : Bool) (l : Label) :
    Sound script failure (ls ++ [l]) ({ s with released := released, active := false }.settle exit) := by
  have hstanding := h.standing
  rw [hpoint] at hstanding
  obtain ⟨hexit, hcloses, hopened, hdone⟩ := hstanding
  obtain ⟨hqueue, hproducer, hopened'⟩ := settle_frame { s with released := released, active := false } exit
  refine h.moved (congrArg Channel.limit hqueue) hproducer (congrArg Channel.entered hqueue) hopened' ?_
  refine settle_standing (s := { s with released := released, active := false }) ?_ hcloses rfl hopened fun hnot =>
    hdone (notMem_of_snoc hnot)
  cases exit <;> exact hexit

/-- The generator leaves its body at an await of its own, with an exception. -/
theorem Sound.leave (h : Sound script failure ls s) (hpoint : s.point = .waiting ∨ s.point = .holding) {e : Exc}
    (he : Outgoing e) (l : Label) :
    Sound script failure (ls ++ [l]) (s.leave (.raised e)) := by
  have hstanding := h.standing
  rcases hpoint with hpoint | hpoint <;> rw [hpoint] at hstanding <;>
    exact h.moved rfl rfl rfl rfl (leave_standing ⟨.inl hstanding.1, he⟩ (hstanding.2.1.mono l) hstanding.2.2)

theorem Sound.get (h : Sound script failure ls s) {item : StreamItem} {rest : Channel StreamItem}
    (hpoint : s.point = .waiting) (hget : s.queue.getNowait = some (item, rest)) :
    Sound script failure (ls ++ [.get]) (s.take item rest) := by
  obtain ⟨hlimit, -, hentered, hrest⟩ := Channel.get_spec hget
  have hstanding := h.standing
  rw [hpoint] at hstanding
  obtain ⟨hleft, howned, hreleased⟩ := hstanding
  rw [hleft] at hrest
  cases item with
  | event event =>
    refine h.moved hlimit rfl hentered rfl ⟨?_, howned.mono _, hreleased⟩
    simp only [take, hrest, List.map_append, List.map_cons, List.map_nil]
  | finished =>
    exact h.moved hlimit rfl hentered rfl (leave_standing (s := { s with queue := rest })
      (show Emptied _ .drained from hrest) (howned.mono _) hreleased)
  | failed e =>
    exact h.moved hlimit rfl hentered rfl (leave_standing (s := { s with queue := rest })
      (show Emptied _ (.raised (wrapped e)) from ⟨.inr ⟨e, hrest⟩, .inl (wrapped_isAdapter e)⟩) (howned.mono _)
      hreleased)

theorem sound_start (late : Bool) : Sound script failure [] (begun late) := by
  have howned {s : AdapterStream} (hcloses : s.closes = 0) (hopened : s.opened = false) : s.Owned [] :=
    ⟨hcloses, fun h => by rw [hopened] at h; cases h⟩
  unfold begun AdapterStream.next
  split
  · exact ⟨rfl, .creating rfl rfl rfl, ⟨.inl rfl, .inl (wrapped_isAdapter _)⟩, howned rfl rfl, rfl⟩
  · exact ⟨rfl, .creating rfl rfl rfl, rfl, howned rfl rfl, rfl⟩

/-- One step keeps it. -/
theorem Sound.step (h : Sound script failure ls s) {l : Label} (hstep : Step script failure s l s') :
    Sound script failure (ls ++ [l]) s' := by
  have hstanding := h.standing
  cases hstep with
  | created hp =>
    cases h.filled with
    | creating _ hentered hopened =>
      refine ⟨h.limit, .reading [] rfl rfl hentered rfl, Provided.standing ?_ hstanding⟩
      refine ⟨rfl, rfl, rfl, rfl, rfl, fun hold => ?_, fun _ => .inl rfl, fun hdone => ?_⟩
      · rw [hopened] at hold
        cases hold
      · rw [hp] at hdone
        cases hdone
    | reading _ hp' _ _ _ | ended hp' _ _ _ | broken _ _ hp' _ _ _ =>
      rw [hp] at hp'
      cases hp'
  | @failed e hp _ => exact h.broken e _ hp
  | @read event rest hp =>
    refine h.put (fun hdone => by rw [hp] at hdone; cases hdone) fun s' hp' hentered hopened => ?_
    cases h.filled with
    | @reading sent rest' hp'' hscript hold ho =>
      obtain rfl : rest' = event :: rest := Producer.reading.inj (hp''.symm.trans hp)
      refine .reading (sent ++ [event]) hp' ?_ ?_ (hopened.trans ho)
      · rw [hscript, List.append_assoc]
        rfl
      · rw [hentered, hold, List.map_append]
        rfl
    | creating hp'' _ _ | ended hp'' _ _ _ | broken _ _ hp'' _ _ _ =>
      rw [hp] at hp''
      cases hp''
  | ended hp hf =>
    refine h.put (fun hdone => by rw [hp] at hdone; cases hdone) fun s' hp' hentered hopened => ?_
    cases h.filled with
    | @reading sent rest' hp'' hscript hold ho =>
      obtain rfl : rest' = [] := Producer.reading.inj (hp''.symm.trans hp)
      rw [List.append_nil] at hscript
      refine .ended hp' ?_ hf (hopened.trans ho)
      rw [hentered, hold, hscript]
    | creating hp'' _ _ | ended hp'' _ _ _ | broken _ _ hp'' _ _ _ =>
      rw [hp] at hp''
      cases hp''
  | broke hp =>
    have hfilled : Filled script failure { s with producer := .done } := by
      cases h.filled with
      | creating _ hentered _ => exact .broken [] [] rfl rfl hentered (.inl rfl)
      | reading sent _ hscript hentered _ =>
        exact .broken sent [] rfl hscript (hentered.trans (List.append_nil _).symm) (.inl rfl)
      | ended hp' _ _ _ | broken _ _ hp' _ _ _ => exact absurd hp' hp
    refine ⟨h.limit, hfilled, Provided.standing ?_ hstanding⟩
    exact ⟨rfl, rfl, rfl, rfl, rfl, fun hold => ⟨hold, rfl⟩, .inr, fun hdone => absurd hdone hp⟩
  | expire =>
    refine ⟨h.limit, h.filled.same rfl rfl rfl, Provided.standing ?_ hstanding⟩
    exact ⟨rfl, rfl, rfl, rfl, rfl, fun hold => ⟨hold, rfl⟩, .inr, fun hdone => ⟨hdone, rfl⟩⟩
  | get hpoint hget => exact h.get hpoint hget
  | getTimedOut hpoint _ => exact h.leave (.inl hpoint) (.inl (wrapped_isAdapter _)) _
  | interruptGet hpoint he => exact h.leave (.inl hpoint) (.inr he) _
  | close hpoint => exact h.leave (.inr hpoint) (.inr rfl) _
  | pull hpoint =>
    unfold AdapterStream.next
    split
    · exact h.leave (.inr hpoint) (.inl (wrapped_isAdapter _)) _
    · rw [hpoint] at hstanding
      exact h.moved rfl rfl rfl rfl ⟨hstanding.1, hstanding.2.1.mono _, hstanding.2.2⟩
  | stopped hpoint hp => exact h.release hpoint s.released fun _ => hp
  | stopTimedOut hpoint =>
    exact h.release hpoint false fun hnot => absurd (List.mem_append_right _ List.mem_cons_self) hnot
  | @interruptStop exit e hpoint he =>
    rw [hpoint] at hstanding
    refine h.moved rfl rfl rfl rfl ⟨⟨exit, hstanding.1⟩, .inr he, .inr (hstanding.2.1.mono _), fun hnot => ?_⟩
    exact absurd (List.mem_append_right _ List.mem_cons_self) hnot
  | streamClosed hpoint => exact h.settle hpoint s.released _
  | closeTimedOut hpoint => exact h.settle hpoint false _
  | @interruptClose exit e hpoint he =>
    rw [hpoint] at hstanding
    obtain ⟨hexit, hcloses, hopened, hdone⟩ := hstanding
    exact h.moved rfl rfl rfl rfl ⟨⟨exit, hexit⟩, .inr he, .inl ⟨hcloses, rfl, hopened⟩, fun _ htimeout =>
      ⟨hdone (notMem_of_snoc htimeout), fun _ => hcloses⟩⟩
  | disown => exact h.moved rfl rfl rfl rfl (disowned_standing hstanding)

theorem sound_run {late : Bool} (htrace : Trace (Step script failure) (begun late) ls s) :
    Sound script failure ls s :=
  htrace.invariant (I := fun s ls => Sound script failure ls s) (sound_start late) fun h hstep => h.step hstep

/-! ## What the consumer gets -/

theorem events_map (events : List ModelStepEvent) :
    (events.map StreamItem.event).filterMap StreamItem.event? = events := by
  induction events with
  | nil => rfl
  | cons event events ih => simp only [List.map_cons, List.filterMap_cons, StreamItem.event?, ih]

theorem events_snoc {item : StreamItem} (h : item.event? = none) (events : List ModelStepEvent) :
    (events.map StreamItem.event ++ [item]).filterMap StreamItem.event? = events := by
  rw [List.filterMap_append, events_map, List.filterMap_cons_none h, List.filterMap_nil, List.append_nil]

theorem Emptied.handed {exit : StreamExit} (h : s.Emptied exit) :
    s.queue.left.filterMap StreamItem.event? = s.handed := by
  cases exit with
  | drained =>
    rw [show s.queue.left = s.handed.map .event ++ [.finished] from h, events_snoc rfl]
  | raised e =>
    rcases h.1 with hleft | ⟨e', hleft⟩
    · rw [hleft, events_map]
    · rw [hleft, events_snoc rfl]

/-- The events taken out of the queue are those handed over. -/
theorem Standing.handed {point : StreamPoint} (h : s.Standing ls point) :
    s.queue.left.filterMap StreamItem.event? = s.handed := by
  cases point with
  | waiting | holding => rw [h.1, events_map]
  | stopping exit | closing exit => exact Emptied.handed h.1
  | settled outcome =>
    cases outcome with
    | ok _ => exact Emptied.handed (show s.Emptied .drained from h.1)
    | error e =>
      obtain ⟨exit, hexit⟩ := h.1
      exact hexit.handed

/-- The events put into the queue begin the script. -/
theorem Filled.entered (h : Filled script failure s) :
    s.queue.entered.filterMap StreamItem.event? <+: script := by
  cases h with
  | creating _ hentered _ =>
    rw [hentered]
    exact List.nil_prefix
  | reading _ _ hscript hentered _ =>
    rw [hentered, hscript, events_map]
    exact List.prefix_append _ _
  | ended _ hentered _ _ =>
    rw [hentered, events_snoc rfl]
  | broken _ _ _ hscript hentered hitems =>
    rw [hentered, hscript]
    rcases hitems with rfl | ⟨e, rfl⟩
    · rw [List.append_nil, events_map]
      exact List.prefix_append _ _
    · rw [events_snoc rfl]
      exact List.prefix_append _ _

/-- Behind `_STREAM_END` everything was handed over. -/
theorem Sound.handed_all (h : Sound script failure ls s) (hexit : s.Emptied .drained) : s.handed = script := by
  obtain ⟨-, hentered, -, -⟩ := h.drained hexit
  have hleft : s.queue.left = s.handed.map .event ++ [.finished] := hexit
  have hconserved := s.queue.conserved
  rw [hleft, hentered, List.append_assoc] at hconserved
  have hno : StreamItem.finished ∉ script.map StreamItem.event := by simp
  obtain ⟨hmap, -, -⟩ := (List.append_cons_inj_of_notMem hno List.not_mem_nil).mp hconserved.symm
  rw [← events_map s.handed, ← hmap, events_map]

theorem Sound.handed_prefix (h : Sound script failure ls s) : s.handed <+: script := by
  rw [← h.standing.handed]
  exact (s.queue.left_prefix.filterMap _).trans h.filled.entered

theorem Sound.returned (h : Sound script failure ls s) (hpoint : s.point = .settled (.ok ())) :
    s.handed = script ∧ failure = none ∧ s.closes = 1 ∧ s.active = false := by
  have hstanding := h.standing
  rw [hpoint] at hstanding
  obtain ⟨hexit, hcloses, hactive, -⟩ := hstanding
  obtain ⟨-, -, hfailure, -⟩ := h.drained hexit
  exact ⟨h.handed_all hexit, hfailure, hcloses, hactive⟩

theorem Standing.closes_le {point : StreamPoint} (h : s.Standing ls point) : s.closes ≤ 1 := by
  cases point with
  | waiting | holding | stopping exit =>
    rw [h.2.1.1]
    exact Nat.zero_le _
  | closing exit => exact Nat.le_of_eq h.2.1
  | settled outcome =>
    cases outcome with
    | ok _ => exact Nat.le_of_eq h.2.1
    | error e =>
      rcases h.2.2.1 with hclosed | howned
      · exact Nat.le_of_eq hclosed.1
      · rw [howned.1]
        exact Nat.zero_le _

/-- Whatever the provider, the consumer and the adapter do: the consumer gets events of the provider in order, and
all of them if the generator returns; otherwise an `AdapterError` comes out of it, or what is no `Exception`. The
stream that was opened is closed once by its generator, or it is in the hands of the adapter, or was dropped by it:
what the adapter's own `aclose` asks of a stream is not counted. -/
theorem stream_sound {late : Bool} (htrace : Trace (Step script failure) (begun late) ls s) :
    s.handed <+: script ∧ s.closes ≤ 1 ∧
      (s.point = .settled (.ok ()) → s.handed = script ∧ failure = none ∧ s.closes = 1 ∧ s.active = false) ∧
      (∀ e, s.point = .settled (.error e) → e.isAdapter = true ∨ e.isException = false) ∧
      ∀ outcome, s.point = .settled outcome →
        (s.opened = true →
          s.closes = 1 ∧ s.active = false ∨ s.closes = 0 ∧ (s.active = true ∨ .disown ∈ ls)) ∧
        (.interruptStop ∉ ls → .stopTimedOut ∉ ls → s.producer = .done ∧ (s.opened = true → s.closes = 1)) := by
  have hsound := sound_run htrace
  have hstanding := hsound.standing
  refine ⟨hsound.handed_prefix, hstanding.closes_le, hsound.returned, fun e hpoint => ?_, fun outcome hpoint => ?_⟩
  · rw [hpoint] at hstanding
    exact hstanding.2.1
  · rw [hpoint] at hstanding
    cases outcome with
    | ok _ =>
      obtain ⟨hexit, hcloses, hactive, -⟩ := hstanding
      exact ⟨fun _ => .inl ⟨hcloses, hactive⟩, fun _ _ => ⟨(hsound.drained hexit).1, fun _ => hcloses⟩⟩
    | error e =>
      obtain ⟨-, -, hstream, hdone⟩ := hstanding
      refine ⟨fun hopened => hstream.imp (fun h => ⟨h.1, h.2.1⟩) fun h => ⟨h.1, h.2 hopened⟩, hdone⟩

def hello : ModelStepEvent := .textDelta ⟨"openai", 0, 0⟩ "hello" 1 none

/-- One event is read and handed over, the stream ends and is closed. -/
theorem helloStream_sound : ∃ s ls, Trace (Step [hello] none) (begun false) ls s ∧ s.point = .settled (.ok ()) ∧
    s.handed = [hello] ∧ s.closes = 1 := by
  have hcreated : Step [hello] none (begun false) .created _ := .created rfl
  have h := ((((((((Trace.nil _).snoc hcreated).snoc (.read rfl)).snoc (.get rfl rfl)).snoc (.pull rfl)).snoc
    (.ended rfl rfl)).snoc (.get rfl rfl)).snoc (.stopped rfl rfl)).snoc (.streamClosed rfl)
  obtain ⟨hhanded, -, hcloses, -⟩ := (stream_sound h).2.2.1 rfl
  exact ⟨_, _, h, rfl, hhanded, hcloses⟩

end AdapterStream

/-! ## From the chunks to the consumer -/

/-- The events of chunks that were read to their end: the text in pieces, and the result, if it is effective. -/
def Published (json : JsonModule) (identity : StepIdentity) (chunks : List Chunk) (zs : List ModelStepEvent) : Prop :=
  ∃ (texts : List String) (result : ModelResult),
    String.join texts = String.join (chunks.map Chunk.text) ∧
    result.text = nonEmpty (some (String.join texts)) ∧
    assembleToolCalls json (fragmentsOf chunks) = .ok result.toolCalls ∧
    zs = texts.map (textEvent identity) ++ if result.isEffective then [.completed identity result none] else []

section Normalized

variable {may : (q : Query) → Except Exc (Answer q) → Prop} {json : JsonModule} {identity : StepIdentity}
  {chunks : Gen Chunk Unit} {w w' : World} {script : List ModelStepEvent} {o : Except Exc Unit}

/-- What begins a text in pieces, or is followed by its result, is the whole if it holds anything else. -/
theorem Published.whole {ys : List Chunk} {zs : List ModelStepEvent} (h : Published json identity ys script)
    (hscript : zs <+: script) {event : ModelStepEvent} (hmem : event ∈ zs)
    (hother : ∀ text, event ≠ textEvent identity text) : zs = script := by
  obtain ⟨texts, result, -, -, -, rfl⟩ := h
  have hno {us : List ModelStepEvent} (hus : us <+: texts.map (textEvent identity)) : event ∉ us := fun hin => by
    obtain ⟨text, -, heq⟩ := List.mem_map.mp (hus.subset hin)
    exact hother text heq.symm
  split at hscript
  · rename_i heffective
    rw [if_pos heffective]
    rcases List.prefix_concat_iff.mp hscript with hall | htexts
    · exact hall
    · exact absurd hmem (hno htexts)
  · rw [List.append_nil] at hscript
    exact absurd hmem (hno hscript)

end Normalized

end AgentRuntime.OpenaiAdapter
