/-!
# Asynchronous generators as resumption trees

A shallow embedding of cooperative asynchronous code: between two suspensions a coroutine runs
atomically on a shared state, and at a suspension everything outside it may act.

* `Node` — the tree of a coroutine from one state on: it has finished, raised, hangs for ever,
  awaits the answer to a query, or (a generator) has yielded an item to its consumer.
* `Proc` — a coroutine, as a function of the state it starts in; a monad.
* `Node.handle` — sequencing on both outcomes; `Node.bind`, `Node.except` and `Node.ensure` are
  its instances.
* `Node.forTry` — `try: async for … : body / except: handler`, with the loop's locals threaded
  through. A consumer that leaves the loop abandons the generator; its exceptions never reach
  the generator's own handlers.
* `Move`, `Node.play` — one environment step at a suspension, and a run of them. A run is a list
  of moves, so "for every behaviour of the environment" is a quantifier over lists.
-/

set_option autoImplicit false

namespace Async

/-- What a consumer does with a suspended generator: pull the next item, or close it. -/
inductive Resume where
  | next
  | close
  deriving DecidableEq, Repr

/-- A coroutine from one state on. `σ` is the shared state, `ε` the exceptions, `Q` the queries
put to the environment with answers in `A`, `Y` the items yielded, `α` the result. -/
inductive Node (σ ε Q : Type) (A : Q → Type) (Y α : Type) where
  | done (a : α) (s : σ)
  | raised (e : ε) (s : σ)
  | hang (s : σ)
  | await (q : Q) (s : σ) (k : Except ε (A q) → σ → Node σ ε Q A Y α)
  | yield (y : Y) (s : σ) (k : Resume → σ → Node σ ε Q A Y α)

/-- A coroutine: the tree it unfolds to from each state. -/
def Proc (σ ε Q : Type) (A : Q → Type) (Y α : Type) : Type := σ → Node σ ε Q A Y α

variable {σ ε Q : Type} {A : Q → Type} {Y Y' α β γ : Type}

namespace Node

/-- The shared state at the node. -/
def state : Node σ ε Q A Y α → σ
  | done _ s | raised _ s | hang s | await _ s _ | yield _ s _ => s

/-- The coroutine has returned or raised. -/
def Finished : Node σ ε Q A Y α → Prop
  | done _ _ | raised _ _ => True
  | _ => False

/-- What the coroutine has returned. -/
def returned? : Node σ ε Q A Y α → Option α
  | done a _ => some a
  | _ => none

/-- Sequencing with a continuation for either outcome. -/
def handle : Node σ ε Q A Y α → (α → σ → Node σ ε Q A Y β) → (ε → σ → Node σ ε Q A Y β) →
    Node σ ε Q A Y β
  | done a s, f, _ => f a s
  | raised e s, _, h => h e s
  | hang s, _, _ => hang s
  | await q s k, f, h => await q s fun r s' => (k r s').handle f h
  | yield y s k, f, h => yield y s fun r s' => (k r s').handle f h

def bind (n : Node σ ε Q A Y α) (f : α → σ → Node σ ε Q A Y β) : Node σ ε Q A Y β :=
  n.handle f raised

/-- `try: n / except: h`. -/
def except (n : Node σ ε Q A Y α) (h : ε → σ → Node σ ε Q A Y α) : Node σ ε Q A Y α :=
  n.handle done h

/-- `try: n / finally: f`. An exception of `f` replaces the outcome of `n`. -/
def ensure (n : Node σ ε Q A Y α) (f : σ → Node σ ε Q A Y Unit) : Node σ ε Q A Y α :=
  n.handle (fun a s => (f s).bind fun _ => done a) (fun e s => (f s).bind fun _ => raised e)

/-- A coroutine that yields nothing, awaited inside a generator. -/
def lift : Node σ ε Q A Empty α → Node σ ε Q A Y α
  | done a s => done a s
  | raised e s => raised e s
  | hang s => hang s
  | await q s k => await q s fun r s' => (k r s').lift

/-- `try: async for y in n: body / except: handler`, then `after`. The locals of the loop are `b`:
`enter` updates them when an item arrives, `body` ends one pass with new locals (`inl`) or leaves
the loop (`inr`), and both `handler` and `after` see them. -/
def forTry (enter : β → Y → β) (body : β → Y → σ → Node σ ε Q A Y' (β ⊕ γ))
    (after : β → σ → Node σ ε Q A Y' γ) (handler : β → ε → σ → Node σ ε Q A Y' γ) :
    Node σ ε Q A Y Unit → β → Node σ ε Q A Y' γ
  | done _ s, b => after b s
  | raised e s, b => handler b e s
  | hang s, _ => hang s
  | await q s k, b => await q s fun r s' => forTry enter body after handler (k r s') b
  | yield y s k, b =>
    (body (enter b y) y s).handle
      (fun r s' => match r with
        | .inl b' => forTry enter body after handler (k .next s') b'
        | .inr c => done c s')
      (handler (enter b y))

/-- `async for y in n: body`, then `after`. -/
def forEach (body : β → Y → σ → Node σ ε Q A Y' (β ⊕ γ)) (after : β → σ → Node σ ε Q A Y' γ)
    (n : Node σ ε Q A Y Unit) (b : β) : Node σ ε Q A Y' γ :=
  forTry (fun b _ => b) body after (fun _ => raised) n b

/-- Run a coroutine whose outcome nobody reads (a cancelled task that is awaited until it exits).
`drop` is what happens to the state with an exception that is lost. -/
def settle (drop : ε → σ → σ) : Node σ ε Q A Y α → Node σ ε Q A Y' Unit
  | done _ s => done () s
  | raised e s => done () (drop e s)
  | hang s => hang s
  | await q s k => await q s fun r s' => (k r s').settle drop
  | yield _ s _ => done () s

end Node

/-! ## The monad -/

namespace Proc

def throw (e : ε) : Proc σ ε Q A Y α := fun s => .raised e s

/-- A wait that nothing ends (also: the observer stopped watching). -/
def hang : Proc σ ε Q A Y α := fun s => .hang s

def get : Proc σ ε Q A Y σ := fun s => .done s s

def modify (f : σ → σ) : Proc σ ε Q A Y Unit := fun s => .done () (f s)

/-- Put a query to the environment. An exceptional answer is raised here. -/
def ask (q : Q) : Proc σ ε Q A Y (A q) := fun s =>
  .await q s fun r s' => match r with
    | .ok a => .done a s'
    | .error e => .raised e s'

/-- Yield an item. Closing the generator raises `closed` here. -/
def yield (closed : ε) (y : Y) : Proc σ ε Q A Y Unit := fun s =>
  .yield y s fun r s' => match r with
    | .next => .done () s'
    | .close => .raised closed s'

def tryCatch (p : Proc σ ε Q A Y α) (h : ε → Proc σ ε Q A Y α) : Proc σ ε Q A Y α :=
  fun s => (p s).except fun e => h e

def tryFinally (p : Proc σ ε Q A Y α) (f : Proc σ ε Q A Y Unit) : Proc σ ε Q A Y α :=
  fun s => (p s).ensure f

def lift (p : Proc σ ε Q A Empty α) : Proc σ ε Q A Y α := fun s => (p s).lift

def forTry (n : Proc σ ε Q A Y Unit) (b : β) (enter : β → Y → β)
    (body : β → Y → Proc σ ε Q A Y' (β ⊕ γ)) (after : β → Proc σ ε Q A Y' γ)
    (handler : β → ε → Proc σ ε Q A Y' γ) : Proc σ ε Q A Y' γ :=
  fun s => (n s).forTry enter (fun b y => body b y) (fun b => after b) (fun b e => handler b e) b

def forEach (n : Proc σ ε Q A Y Unit) (b : β) (body : β → Y → Proc σ ε Q A Y' (β ⊕ γ))
    (after : β → Proc σ ε Q A Y' γ) : Proc σ ε Q A Y' γ :=
  fun s => (n s).forEach (fun b y => body b y) (fun b => after b) b

instance : Monad (Proc σ ε Q A Y) where
  pure a := fun s => .done a s
  bind p f := fun s => (p s).bind fun a => f a

end Proc

/-! ## Runs -/

/-- One step of the environment: its answer should a query be pending, its signal should an item
have been yielded, and what it does to the shared state before the coroutine goes on. -/
structure Move (σ ε Q : Type) (A : Q → Type) where
  reply : (q : Q) → Except ε (A q)
  signal : Resume
  disturb : σ → σ

namespace Node

def step (m : Move σ ε Q A) : Node σ ε Q A Y α → Node σ ε Q A Y α
  | await q s k => k (m.reply q) (m.disturb s)
  | yield _ s k => k m.signal (m.disturb s)
  | n => n

/-- The node a list of moves leads to. -/
def play (n : Node σ ε Q A Y α) (ms : List (Move σ ε Q A)) : Node σ ε Q A Y α :=
  ms.foldl (fun n m => n.step m) n

theorem play_cons (n : Node σ ε Q A Y α) (m : Move σ ε Q A) (ms : List (Move σ ε Q A)) :
    n.play (m :: ms) = (n.step m).play ms := rfl

theorem play_append (n : Node σ ε Q A Y α) (ms ms' : List (Move σ ε Q A)) :
    n.play (ms ++ ms') = (n.play ms).play ms' := List.foldl_append

/-- The run of a coroutine whose result is passed on. -/
theorem play_map (f : α → β) (ms : List (Move σ ε Q A)) : ∀ n : Node σ ε Q A Y α,
    (n.bind fun a s => done (f a) s).play ms = (n.play ms).bind fun a s => done (f a) s := by
  induction ms with
  | nil => exact fun _ => rfl
  | cons m ms ih =>
    intro n
    rw [play_cons, play_cons, ← ih]
    cases n with
    | done a s => rfl
    | raised e s => rfl
    | hang s => rfl
    | await q s k => rfl
    | yield y s k => rfl

theorem returns_map {f : α → β} {ms : List (Move σ ε Q A)} {n : Node σ ε Q A Y α} {b : β} {s : σ}
    (h : (n.bind fun a s => done (f a) s).play ms = done b s) :
    ∃ a, n.play ms = done a s ∧ f a = b := by
  rw [play_map] at h
  cases hn : n.play ms with
  | done a s' =>
    rw [hn] at h
    cases h
    exact ⟨a, rfl, rfl⟩
  | raised e s' =>
    rw [hn] at h
    cases h
  | hang s' =>
    rw [hn] at h
    cases h
  | await q s' k =>
    rw [hn] at h
    cases h
  | yield y s' k =>
    rw [hn] at h
    cases h

/-- Some run of the coroutine returns the value, in the state. -/
inductive Returns : Node σ ε Q A Y α → α → σ → Prop where
  | done (a : α) (s : σ) : Returns (done a s) a s
  | await {q : Q} {s₀ s : σ} {k : Except ε (A q) → σ → Node σ ε Q A Y α} {a : α}
      (r : Except ε (A q)) (s' : σ) : Returns (k r s') a s → Returns (await q s₀ k) a s
  | yield {y : Y} {s₀ s : σ} {k : Resume → σ → Node σ ε Q A Y α} {a : α} (r : Resume) (s' : σ) :
      Returns (k r s') a s → Returns (yield y s₀ k) a s

theorem not_finished_await (q : Q) (s : σ) (k : Except ε (A q) → σ → Node σ ε Q A Y α) :
    ¬ (await q s k).Finished := id

theorem step_of_finished {n : Node σ ε Q A Y α} (h : n.Finished) (m : Move σ ε Q A) : n.step m = n := by
  cases n with
  | done a s => rfl
  | raised e s => rfl
  | hang s => exact h.elim
  | await q s k => exact h.elim
  | yield y s k => exact h.elim

/-- A run that has come to its end stays there. -/
theorem play_of_finished {n : Node σ ε Q A Y α} (h : n.Finished) (ms : List (Move σ ε Q A)) :
    n.play ms = n := by
  induction ms with
  | nil => rfl
  | cons m ms ih => rw [play_cons, step_of_finished h, ih]

/-- At some moment of the run, before it comes to its end, the state satisfies `P`. -/
def Passes (P : σ → Prop) (n : Node σ ε Q A Y α) (ms : List (Move σ ε Q A)) : Prop :=
  ∃ k ≤ ms.length, ¬ (n.play (ms.take k)).Finished ∧ P (n.play (ms.take k)).state

theorem passes_here {P : σ → Prop} {n : Node σ ε Q A Y α} (hn : ¬ n.Finished) (h : P n.state)
    (ms : List (Move σ ε Q A)) : n.Passes P ms :=
  ⟨0, Nat.zero_le _, by rw [List.take_zero]; exact ⟨hn, h⟩⟩

theorem passes_cons {P : σ → Prop} {n : Node σ ε Q A Y α} {m : Move σ ε Q A}
    {ms : List (Move σ ε Q A)} (h : (n.step m).Passes P ms) : n.Passes P (m :: ms) := by
  obtain ⟨k, hk, hrun⟩ := h
  refine ⟨k + 1, Nat.succ_le_succ hk, ?_⟩
  rw [List.take_succ_cons, play_cons]
  exact hrun

/-- Trees are well-founded: whatever the environment does, a run comes to an end or hangs. -/
theorem ends (n : Node σ ε Q A Y α) : ∀ ms : Nat → Move σ ε Q A, ∃ k,
    (n.play ((List.range k).map ms)).Finished ∨ ∃ s, n.play ((List.range k).map ms) = .hang s := by
  induction n with
  | done a s => exact fun _ => ⟨0, .inl trivial⟩
  | raised e s => exact fun _ => ⟨0, .inl trivial⟩
  | hang s => exact fun _ => ⟨0, .inr ⟨s, rfl⟩⟩
  | await q s k ih =>
    intro ms
    obtain ⟨m, hm⟩ := ih ((ms 0).reply q) ((ms 0).disturb s) fun i => ms (i + 1)
    refine ⟨m + 1, ?_⟩
    rw [List.range_succ_eq_map, List.map_cons, List.map_map]
    exact hm
  | yield y s k ih =>
    intro ms
    obtain ⟨m, hm⟩ := ih (ms 0).signal ((ms 0).disturb s) fun i => ms (i + 1)
    refine ⟨m + 1, ?_⟩
    rw [List.range_succ_eq_map, List.map_cons, List.map_map]
    exact hm

end Node

end Async
