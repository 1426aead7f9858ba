import AgentRuntime.Lifecycle
import AgentRuntime.Async.Trace

/-!
# Streams over a generator

`CallbackStream` of `lifecycle.py`, over an asynchronous generator, as everywhere in the package. Any number of tasks
read it and close it, interleaved in any way.

* `anext`, `aclose` — a call, to its first suspension;
* `CallbackStream.Step` — a step of a caller, or of the generator for one;
* `Guarded` — what holds in every run;
* `stream_guarded` — one caller at a time is in the generator, which is closed once, and never read again.
-/

set_option autoImplicit false

namespace AgentRuntime

open Async

/-- Where an asynchronous generator stands: not started or at a `yield`, in the hands of a caller, or at its end. -/
inductive Generator where
  | suspended
  | running
  | ended
  deriving DecidableEq, Repr

/-- Where a call of the stream stands. -/
inductive StreamCall (T : Type) where
  /-- `await self._iterator.__anext__()`. -/
  | reading
  /-- `await closer()`. -/
  | closing
  | got (item : T)
  /-- `StopAsyncIteration`. -/
  | stopped
  /-- `aclose` has returned. -/
  | returned
  | raised (e : Exc)

/-- The call is in the generator. -/
def StreamCall.inside {T : Type} : StreamCall T → Bool
  | reading | closing => true
  | _ => false

structure CallbackStream (T : Type) where
  iterator : Generator := .suspended
  closed : Bool := false
  closeCount : Nat := 0
  /-- The calls of `on_close`. -/
  notified : Nat := 0
  calls : List (StreamCall T) := []

/-- What a generator raises that is in the hands of another caller. -/
def generatorRunning (method : String) : Exc :=
  .other "RuntimeError" (method ++ "(): asynchronous generator is already running") none

namespace CallbackStream

variable {T : Type}

/-- The end of `aclose`, behind a `closer()` that returned or raised. -/
def settle (s : CallbackStream T) (failure : Option Exc) : CallbackStream T × StreamCall T :=
  match failure with
  | some e => if e.alreadyRunning then ({ s with notified := s.notified + 1 }, .returned) else (s, .raised e)
  | none => ({ s with notified := s.notified + 1 }, .returned)

/-- `aclose`. -/
def aclose (s : CallbackStream T) : CallbackStream T × StreamCall T :=
  if s.closed then (s, .returned)
  else
    let s := { s with closed := true, closeCount := s.closeCount + 1 }
    match s.iterator with
    | .suspended => ({ s with iterator := .running }, .closing)
    | .running => s.settle (some (generatorRunning "aclose"))
    | .ended => s.settle none

/-- `except StopAsyncIteration`: the generator has come to its end, so closing it does not take any time. -/
def exhausted (s : CallbackStream T) : CallbackStream T × StreamCall T :=
  (({ s with iterator := .ended } : CallbackStream T).aclose.1, .stopped)

/-- `__anext__`. -/
def anext (s : CallbackStream T) : CallbackStream T × StreamCall T :=
  if s.closed then (s, .stopped)
  else
    match s.iterator with
    | .suspended => ({ s with iterator := .running }, .reading)
    | .running => (s, .raised (generatorRunning "anext"))
    | .ended => s.exhausted

/-- A new call. -/
def called (r : CallbackStream T × StreamCall T) : CallbackStream T := { r.1 with calls := r.1.calls ++ [r.2] }

/-- A call goes on. -/
def moved (call : Nat) (r : CallbackStream T × StreamCall T) : CallbackStream T :=
  { r.1 with calls := r.1.calls.set call r.2 }

/-- The generator refuses to close, as it is being read. -/
def refuses (s : CallbackStream T) : Bool := !s.closed && s.iterator = .running

inductive Label (T : Type) where
  | anext
  | aclose
  | refused
  /-- The generator yields, ends or raises to the call that reads it. -/
  | item (call : Nat) (item : T)
  | exhausted (call : Nat)
  | failed (call : Nat) (e : Exc)
  /-- It is closed, raises to the call that closes it, or yields there. -/
  | unwound (call : Nat)
  | unwindFailed (call : Nat) (e : Exc)
  | ignored (call : Nat)

inductive Step : CallbackStream T → Label T → CallbackStream T → Prop where
  | anext (s : CallbackStream T) : Step s .anext (called s.anext)
  | aclose {s : CallbackStream T} : s.refuses = false → Step s .aclose (called s.aclose)
  | refused {s : CallbackStream T} : s.refuses = true → Step s .refused (called s.aclose)
  | item {s : CallbackStream T} {call : Nat} {item : T} : s.calls[call]? = some .reading →
      Step s (.item call item) (moved call ({ s with iterator := .suspended }, .got item))
  | exhausted {s : CallbackStream T} {call : Nat} : s.calls[call]? = some .reading →
      Step s (.exhausted call) (moved call s.exhausted)
  | failed {s : CallbackStream T} {call : Nat} {e : Exc} : s.calls[call]? = some .reading →
      Step s (.failed call e) (moved call ({ s with iterator := .ended }, .raised e))
  | unwound {s : CallbackStream T} {call : Nat} : s.calls[call]? = some .closing →
      Step s (.unwound call) (moved call (({ s with iterator := .ended } : CallbackStream T).settle none))
  | unwindFailed {s : CallbackStream T} {call : Nat} {e : Exc} : s.calls[call]? = some .closing →
      Step s (.unwindFailed call e) (moved call (({ s with iterator := .ended } : CallbackStream T).settle (some e)))
  | ignored {s : CallbackStream T} {call : Nat} : s.calls[call]? = some .closing →
      Step s (.ignored call) (moved call (({ s with iterator := .suspended } : CallbackStream T).settle
        (some (.other "RuntimeError" "async generator ignored GeneratorExit" none))))

/-! ## What holds in every run -/

/-- The call `call` is in the generator. -/
def Inside (s : CallbackStream T) (call : Nat) : Prop := ∃ c, s.calls[call]? = some c ∧ c.inside = true

/-- The close has reached the generator: it was not refused, nor ignored. -/
def Unspared (ls : List (Label T)) : Prop := .refused ∉ ls ∧ ∀ call, .ignored call ∉ ls

structure Guarded (ls : List (Label T)) (s : CallbackStream T) : Prop where
  count : s.closeCount = s.closed.toNat
  notified : s.notified ≤ s.closeCount
  running : s.iterator = .running ↔ ∃ call, s.Inside call
  alone : ∀ call call', s.Inside call → s.Inside call' → call = call'
  closing : ∀ call : Nat, s.calls[call]? = some .closing → s.closed = true ∧ s.notified = 0
  stopped : ∀ call : Nat, s.calls[call]? = some .stopped → s.closed = true
  unwound : Unspared ls → s.closed = true → s.iterator = .ended ∨ ∃ call : Nat, s.calls[call]? = some .closing

variable {ls : List (Label T)} {s : CallbackStream T} {r : CallbackStream T × StreamCall T}

theorem guarded_start : Guarded [] ({} : CallbackStream T) where
  count := rfl
  notified := Nat.le_refl _
  running := ⟨fun h => (by cases h), fun ⟨call, c, hcall, _⟩ => by cases hcall⟩
  alone call call' h := by
    obtain ⟨c, hcall, -⟩ := h
    cases hcall
  closing call h := by cases h
  stopped call h := by cases h
  unwound _ h := by cases h

theorem Unspared.of_snoc {l : Label T} (h : Unspared (ls ++ [l])) : Unspared ls :=
  ⟨fun hmem => h.1 (List.mem_append_left _ hmem), fun call hmem => h.2 call (List.mem_append_left _ hmem)⟩

theorem Guarded.idle (h : Guarded ls s) (hidle : s.iterator ≠ .running) (call : Nat) : ¬ s.Inside call :=
  fun hinside => hidle (h.running.mpr ⟨call, hinside⟩)

theorem inside_of_closing {call : Nat} (h : s.calls[call]? = some .closing) : s.Inside call := ⟨_, h, rfl⟩

theorem inside_called_iff (hcalls : r.1.calls = s.calls) (call : Nat) :
    (called r).Inside call ↔ s.Inside call ∨ call = s.calls.length ∧ r.2.inside = true := by
  have hget : (called r).calls = s.calls ++ [r.2] := by rw [← hcalls]; rfl
  constructor
  · rintro ⟨c, hcall, hc⟩
    rw [hget] at hcall
    rcases getElem?_snoc hcall with ⟨hold, -⟩ | ⟨rfl, -⟩
    · exact .inl ⟨c, hold, hc⟩
    · have hlt := (List.getElem?_eq_some_iff.mp hcall).1
      rw [List.length_append, List.length_singleton] at hlt
      rcases Nat.lt_or_eq_of_le (Nat.le_of_lt_succ hlt) with hlt | heq
      · rw [List.getElem?_append_left hlt] at hcall
        exact .inl ⟨_, hcall, hc⟩
      · exact .inr ⟨heq, hc⟩
  · rintro (⟨c, hcall, hc⟩ | ⟨rfl, hc⟩)
    · refine ⟨c, ?_, hc⟩
      rw [hget, List.getElem?_append_left (List.getElem?_eq_some_iff.mp hcall).1]
      exact hcall
    · exact ⟨r.2, by rw [hget, List.getElem?_concat_length], hc⟩

/-- A call that is over where it is made. -/
theorem Guarded.called_outside (h : Guarded ls s) {l : Label T} (hcalls : r.1.calls = s.calls)
    (hout : r.2.inside = false) (hiterator : r.1.iterator = .running ↔ s.iterator = .running)
    (hcount : r.1.closeCount = r.1.closed.toNat) (hnotified : r.1.notified ≤ r.1.closeCount)
    (hclosing : s.closed = true → r.1.closed = true ∧ r.1.notified = s.notified)
    (hstopped : r.2 = .stopped → r.1.closed = true)
    (hunwound : Unspared (ls ++ [l]) → r.1.closed = true →
      r.1.iterator = .ended ∨ ∃ call : Nat, s.calls[call]? = some .closing) :
    Guarded (ls ++ [l]) (called r) := by
  have hget : (called r).calls = s.calls ++ [r.2] := by rw [← hcalls]; rfl
  have hinside (call : Nat) : (called r).Inside call ↔ s.Inside call := by
    rw [inside_called_iff hcalls, hout]
    simp
  refine ⟨hcount, hnotified, ?_, fun call call' h₁ h₂ => ?_, fun call hcall => ?_, fun call hcall => ?_,
    fun hls hclosed => ?_⟩
  · simp only [hinside]
    exact hiterator.trans h.running
  · exact h.alone call call' ((hinside call).mp h₁) ((hinside call').mp h₂)
  · rw [hget] at hcall
    rcases getElem?_snoc hcall with ⟨hold, -⟩ | ⟨hnew, -⟩
    · obtain ⟨hclosed, hzero⟩ := h.closing call hold
      obtain ⟨hclosed', hsame⟩ := hclosing hclosed
      exact ⟨hclosed', hsame.trans hzero⟩
    · rw [hnew] at hout
      cases hout
  · rw [hget] at hcall
    rcases getElem?_snoc hcall with ⟨hold, -⟩ | ⟨hnew, -⟩
    · exact (hclosing (h.stopped call hold)).1
    · exact hstopped hnew
  · refine (hunwound hls hclosed).imp_right fun ⟨call, hcall⟩ => ⟨call, ?_⟩
    rw [hget, List.getElem?_append_left (List.getElem?_eq_some_iff.mp hcall).1]
    exact hcall

/-- A call that goes into the generator. -/
theorem Guarded.called_inside (h : Guarded ls s) {l : Label T} (hcalls : r.1.calls = s.calls)
    (hin : r.2.inside = true) (hidle : s.iterator ≠ .running) (hiterator : r.1.iterator = .running)
    (hcount : r.1.closeCount = r.1.closed.toNat) (hnotified : r.1.notified ≤ r.1.closeCount)
    (hclosing : r.2 = .closing → r.1.closed = true ∧ r.1.notified = 0) (hclosed : s.closed = true → r.1.closed = true)
    (hunwound : r.1.closed = true → r.2 = .closing) : Guarded (ls ++ [l]) (called r) := by
  have hget : (called r).calls = s.calls ++ [r.2] := by rw [← hcalls]; rfl
  have hinside (call : Nat) : (called r).Inside call ↔ call = s.calls.length := by
    rw [inside_called_iff hcalls, hin]
    simp [h.idle hidle call]
  refine ⟨hcount, hnotified, ?_, fun call call' h₁ h₂ => ?_, fun call hcall => ?_, fun call hcall => ?_, fun _ hc => ?_⟩
  · simp only [hinside, exists_eq, iff_true]
    exact hiterator
  · exact ((hinside call).mp h₁).trans ((hinside call').mp h₂).symm
  · rw [hget] at hcall
    rcases getElem?_snoc hcall with ⟨hold, -⟩ | ⟨hnew, -⟩
    · exact absurd (inside_of_closing hold) (h.idle hidle call)
    · exact hclosing hnew
  · rw [hget] at hcall
    rcases getElem?_snoc hcall with ⟨hold, -⟩ | ⟨hnew, -⟩
    · exact hclosed (h.stopped call hold)
    · rw [hnew] at hin
      cases hin
  · refine .inr ⟨s.calls.length, ?_⟩
    rw [hget, List.getElem?_concat_length, hunwound hc]

/-- The call in the generator comes out of it. -/
theorem Guarded.moved (h : Guarded ls s) {l : Label T} {call : Nat} (hcall : s.Inside call)
    (hcalls : r.1.calls = s.calls) (hout : r.2.inside = false) (hiterator : r.1.iterator ≠ .running)
    (hcount : r.1.closeCount = r.1.closed.toNat) (hnotified : r.1.notified ≤ r.1.closeCount)
    (hstopped : r.2 = .stopped → r.1.closed = true) (hclosed : s.closed = true → r.1.closed = true)
    (hunwound : Unspared (ls ++ [l]) → r.1.closed = true → r.1.iterator = .ended) :
    Guarded (ls ++ [l]) (moved call r) := by
  have hget : (CallbackStream.moved call r).calls = s.calls.set call r.2 := by rw [← hcalls]; rfl
  have hlt : call < s.calls.length := by
    obtain ⟨c, hc, -⟩ := hcall
    exact (List.getElem?_eq_some_iff.mp hc).1
  have hother {call' : Nat} {c : StreamCall T} (hne : call' ≠ call)
      (hc : (CallbackStream.moved call r).calls[call']? = some c) : s.calls[call']? = some c := by
    rw [hget, List.getElem?_set_ne hne.symm] at hc
    exact hc
  have hself {c : StreamCall T} (hc : (CallbackStream.moved call r).calls[call]? = some c) : r.2 = c := by
    rw [hget, List.getElem?_set_self hlt] at hc
    exact Option.some.inj hc
  have hnone (call' : Nat) : ¬ (CallbackStream.moved call r).Inside call' := by
    rintro ⟨c, hc, hinside⟩
    by_cases heq : call' = call
    · subst heq
      rw [← hself hc, hout] at hinside
      cases hinside
    · exact heq (h.alone call' call ⟨c, hother heq hc, hinside⟩ hcall)
  refine ⟨hcount, hnotified, ⟨fun hrun => absurd hrun hiterator, fun ⟨call', h'⟩ => absurd h' (hnone call')⟩,
    fun call' _ h' _ => absurd h' (hnone call'), fun call' hc => absurd (inside_of_closing hc) (hnone call'),
    fun call' hc => ?_, fun hls hc => .inl (hunwound hls hc)⟩
  by_cases heq : call' = call
  · subst heq
    exact hstopped (hself hc)
  · exact hclosed (h.stopped call' (hother heq hc))

/-! ## One step -/

/-- The end of a close, as the wrapper sees it. -/
theorem settle_frame (s : CallbackStream T) (failure : Option Exc) :
    (s.settle failure).1.calls = s.calls ∧ (s.settle failure).1.iterator = s.iterator ∧
      (s.settle failure).1.closed = s.closed ∧ (s.settle failure).1.closeCount = s.closeCount ∧
      (s.settle failure).1.notified ≤ s.notified + 1 ∧ (s.settle failure).2.inside = false ∧
      (s.settle failure).2 ≠ .stopped := by
  cases failure with
  | none => exact ⟨rfl, rfl, rfl, rfl, Nat.le_refl _, rfl, fun h => by cases h⟩
  | some e =>
    simp only [settle]
    split
    · exact ⟨rfl, rfl, rfl, rfl, Nat.le_refl _, rfl, fun h => by cases h⟩
    · exact ⟨rfl, rfl, rfl, rfl, Nat.le_succ _, rfl, fun h => by cases h⟩

theorem Guarded.notified_zero (h : Guarded ls s) (hopen : s.closed = false) : s.closeCount = 0 ∧ s.notified = 0 := by
  have hcount := h.count
  rw [hopen, Bool.toNat_false] at hcount
  have hnotified := h.notified
  exact ⟨hcount, by omega⟩

theorem Guarded.aclose (h : Guarded ls s) {l : Label T} (hl : s.refuses = true → l = .refused) :
    Guarded (ls ++ [l]) (called s.aclose) := by
  unfold CallbackStream.aclose
  cases hclosed : s.closed with
  | true =>
    simp only [if_true]
    exact h.called_outside rfl rfl Iff.rfl h.count h.notified (fun hc => ⟨hc, rfl⟩) (fun heq => by cases heq)
      fun hls hc => h.unwound hls.of_snoc hc
  | false =>
    obtain ⟨hcount, hnotified⟩ := h.notified_zero hclosed
    simp only [Bool.false_eq_true, if_false]
    cases hiterator : s.iterator with
    | suspended =>
      refine h.called_inside rfl rfl (by rw [hiterator]; decide) rfl ?_ ?_ (fun _ => ⟨rfl, hnotified⟩) (fun _ => rfl)
        fun _ => rfl
      · simp only [hcount, Bool.toNat_true]
      · simp only [hnotified, Nat.zero_le]
    | running =>
      have hrefused : l = .refused := hl (by simp [refuses, hclosed, hiterator])
      -- what is raised there does not matter
      generalize some (generatorRunning "aclose") = failure
      obtain ⟨h₁, h₂, h₃, h₄, h₅, h₆, h₇⟩ := settle_frame
        { s with closed := true, closeCount := s.closeCount + 1, iterator := .running } failure
      refine h.called_outside h₁ h₆ ?_ ?_ ?_ (fun hc => ?_) (fun heq => absurd heq h₇) fun hls _ => ?_
      · rw [h₂, hiterator]
      · rw [h₄, h₃, hcount]
        rfl
      · rw [h₄]
        calc
          _ ≤ s.notified + 1 := h₅
          _ = s.closeCount + 1 := by rw [hcount, hnotified]
      · rw [hclosed] at hc
        cases hc
      · rw [hrefused] at hls
        exact absurd (List.mem_append_right _ List.mem_cons_self) hls.1
    | ended =>
      refine h.called_outside rfl rfl ?_ ?_ ?_ (fun hc => ?_) (fun heq => by cases heq) fun _ _ => .inl rfl
      · simp [hiterator, settle]
      · simp [settle, hcount]
      · simp [settle, hcount, hnotified]
      · rw [hclosed] at hc
        cases hc

/-- The generator comes to its end, and is closed if it was not. -/
theorem exhausted_spec (s : CallbackStream T) :
    s.exhausted.1.calls = s.calls ∧ s.exhausted.1.iterator = .ended ∧ s.exhausted.1.closed = true ∧
      (s.closed = true → s.exhausted.1.closeCount = s.closeCount ∧ s.exhausted.1.notified = s.notified) ∧
      (s.closed = false →
        s.exhausted.1.closeCount = s.closeCount + 1 ∧ s.exhausted.1.notified = s.notified + 1) := by
  unfold CallbackStream.exhausted CallbackStream.aclose
  cases hclosed : s.closed with
  | true => exact ⟨rfl, rfl, rfl, fun _ => ⟨rfl, rfl⟩, fun hc => by cases hc⟩
  | false => exact ⟨rfl, rfl, rfl, fun hc => (by cases hc), fun _ => ⟨rfl, rfl⟩⟩

theorem Guarded.exhausted_counts (h : Guarded ls s) :
    s.exhausted.1.closeCount = s.exhausted.1.closed.toNat ∧ s.exhausted.1.notified ≤ s.exhausted.1.closeCount := by
  obtain ⟨-, -, hclosed', hkept, hcounted⟩ := exhausted_spec s
  cases hclosed : s.closed with
  | true =>
    obtain ⟨hcount, hnotified⟩ := hkept hclosed
    rw [hcount, hnotified, hclosed', h.count, hclosed]
    exact ⟨rfl, by rw [← hclosed, ← h.count]; exact h.notified⟩
  | false =>
    obtain ⟨hcount, hnotified⟩ := hcounted hclosed
    obtain ⟨hzero, hzero'⟩ := h.notified_zero hclosed
    rw [hcount, hnotified, hclosed', hzero, hzero']
    exact ⟨rfl, Nat.le_refl _⟩

theorem Guarded.anext (h : Guarded ls s) : Guarded (ls ++ [.anext]) (called s.anext) := by
  unfold CallbackStream.anext
  by_cases hclosed : s.closed = true
  · rw [if_pos hclosed]
    exact h.called_outside rfl rfl Iff.rfl h.count h.notified (fun hc => ⟨hc, rfl⟩) (fun _ => hclosed)
      fun hls hc => h.unwound hls.of_snoc hc
  · rw [if_neg hclosed]
    cases hiterator : s.iterator with
    | suspended =>
      exact h.called_inside rfl rfl (by rw [hiterator]; decide) rfl h.count h.notified (fun heq => by cases heq)
        (fun hc => hc) fun hc => absurd hc hclosed
    | running =>
      exact h.called_outside rfl rfl Iff.rfl h.count h.notified (fun hc => ⟨hc, rfl⟩) (fun heq => by cases heq)
        fun _ hc => absurd hc hclosed
    | ended =>
      obtain ⟨hcalls, hended, hclosed', -, -⟩ := exhausted_spec s
      obtain ⟨hcount, hnotified⟩ := h.exhausted_counts
      refine h.called_outside hcalls rfl ?_ hcount hnotified (fun hc => absurd hc hclosed) (fun _ => hclosed')
        fun _ _ => .inl hended
      change s.exhausted.1.iterator = .running ↔ _
      rw [hended, hiterator]

/-- The generator is closed for the call that closes it. -/
theorem Guarded.settle (h : Guarded ls s) {l : Label T} {call : Nat} (hcall : s.calls[call]? = some .closing)
    (failure : Option Exc) {iterator : Generator} (hiterator : iterator ≠ .running)
    (hended : Unspared (ls ++ [l]) → iterator = .ended) :
    Guarded (ls ++ [l])
      (CallbackStream.moved call (({ s with iterator := iterator } : CallbackStream T).settle failure)) := by
  obtain ⟨hclosed, hzero⟩ := h.closing call hcall
  obtain ⟨h₁, h₂, h₃, h₄, h₅, h₆, h₇⟩ := settle_frame ({ s with iterator := iterator } : CallbackStream T) failure
  refine h.moved (inside_of_closing hcall) h₁ h₆ ?_ ?_ ?_ (fun heq => absurd heq h₇) (fun _ => h₃.trans hclosed)
    fun hls _ => h₂.trans (hended hls)
  · rw [h₂]
    exact hiterator
  · rw [h₄, h₃]
    exact h.count
  · have hcount := h.count
    rw [hclosed, Bool.toNat_true] at hcount
    rw [h₄]
    calc
      _ ≤ s.notified + 1 := h₅
      _ = s.closeCount := by rw [hzero, hcount]

/-- One step keeps it. -/
theorem Guarded.step (h : Guarded ls s) {l : Label T} {s' : CallbackStream T} (hstep : Step s l s') :
    Guarded (ls ++ [l]) s' := by
  cases hstep with
  | anext => exact h.anext
  | aclose hopen => exact h.aclose fun hrefuses => by rw [hopen] at hrefuses; cases hrefuses
  | refused => exact h.aclose fun _ => rfl
  | @item call item hcall =>
    have hinside : s.Inside call := ⟨_, hcall, rfl⟩
    refine h.moved hinside rfl rfl (fun heq => by cases heq) h.count h.notified (fun heq => by cases heq)
      (fun hc => hc) fun hls hc => ?_
    -- the generator is read here, so a close that was not refused is not behind it
    rcases h.unwound hls.of_snoc hc with hended | ⟨call', hclosing⟩
    · have hrunning := h.running.mpr ⟨call, hinside⟩
      rw [hended] at hrunning
      cases hrunning
    · obtain rfl := h.alone call call' hinside (inside_of_closing hclosing)
      rw [hcall] at hclosing
      cases hclosing
  | exhausted hcall =>
    obtain ⟨hcalls, hended, hclosed, -, -⟩ := exhausted_spec s
    obtain ⟨hcount, hnotified⟩ := h.exhausted_counts
    exact h.moved ⟨_, hcall, rfl⟩ hcalls rfl (by rw [hended]; decide) hcount hnotified (fun _ => hclosed)
      (fun _ => hclosed) fun _ _ => hended
  | failed hcall =>
    exact h.moved ⟨_, hcall, rfl⟩ rfl rfl (fun heq => by cases heq) h.count h.notified (fun heq => by cases heq)
      (fun hc => hc) fun _ _ => rfl
  | unwound hcall => exact h.settle hcall none (by decide) fun _ => rfl
  | @unwindFailed call e hcall => exact h.settle hcall (some e) (by decide) fun _ => rfl
  | @ignored call hcall =>
    exact h.settle hcall _ (by decide) fun hls => absurd (List.mem_append_right _ List.mem_cons_self) (hls.2 call)

theorem guarded_run (htrace : Trace Step {} ls s) : Guarded ls s :=
  htrace.invariant (I := fun s ls => Guarded ls s) guarded_start fun h hstep => h.step hstep

/-- A call that was made since then has not been in the generator. -/
def TurnedAway (since : Nat) (s : CallbackStream T) : Prop :=
  s.closed = true ∧ since ≤ s.calls.length ∧
    ∀ (call : Nat) c, since ≤ call → s.calls[call]? = some c → c = .stopped ∨ c = .returned

theorem TurnedAway.called {since : Nat} (h : TurnedAway since s) {c : StreamCall T} (hc : c = .stopped ∨ c = .returned) :
    TurnedAway since (CallbackStream.called (s, c)) := by
  refine ⟨h.1, ?_, fun call c' hsince hcall => ?_⟩
  · simp only [CallbackStream.called, List.length_append]
    exact Nat.le_trans h.2.1 (Nat.le_add_right _ _)
  · rcases getElem?_snoc hcall with ⟨hold, -⟩ | ⟨rfl, -⟩
    · exact h.2.2 call c' hsince hold
    · exact hc

theorem TurnedAway.moved {since call : Nat} (h : TurnedAway since s) (hcall : s.Inside call)
    (hcalls : r.1.calls = s.calls) (hclosed : r.1.closed = true) : TurnedAway since (CallbackStream.moved call r) := by
  obtain ⟨c, hc, hinside⟩ := hcall
  have hbefore : call < since := by
    refine Nat.lt_of_not_le fun hsince => ?_
    rcases h.2.2 call c hsince hc with rfl | rfl <;> cases hinside
  refine ⟨hclosed, ?_, fun call' c' hsince hcall' => ?_⟩
  · simp only [CallbackStream.moved, hcalls, List.length_set]
    exact h.2.1
  · have hne : call ≠ call' := fun heq => by omega
    simp only [CallbackStream.moved, hcalls, List.getElem?_set_ne hne] at hcall'
    exact h.2.2 call' c' hsince hcall'

theorem TurnedAway.step {since : Nat} (h : TurnedAway since s) {l : Label T} {s' : CallbackStream T}
    (hstep : Step s l s') : TurnedAway since s' := by
  cases hstep with
  | anext =>
    have hanext : s.anext = (s, .stopped) := by simp only [CallbackStream.anext, h.1, if_true]
    rw [hanext]
    exact h.called (.inl rfl)
  | aclose _ | refused _ =>
    have haclose : s.aclose = (s, .returned) := by simp only [CallbackStream.aclose, h.1, if_true]
    rw [haclose]
    exact h.called (.inr rfl)
  | item hcall | failed hcall => exact h.moved ⟨_, hcall, rfl⟩ rfl h.1
  | exhausted hcall =>
    obtain ⟨hcalls, -, hclosed, -, -⟩ := exhausted_spec s
    exact h.moved ⟨_, hcall, rfl⟩ hcalls hclosed
  | unwound hcall | unwindFailed hcall | ignored hcall =>
    obtain ⟨h₁, -, h₃, -⟩ := settle_frame ({ s with iterator := _ } : CallbackStream T) _
    exact h.moved (inside_of_closing hcall) h₁ (h₃.trans h.1)

/-- However its callers are interleaved: the stream is closed once, in the first call that closes it or finds its end,
and says so once at most; one call at a time is in the generator; a reader that was told of the end left the stream
closed. A close that was neither refused nor ignored leaves the generator at its end, and calls made behind it do not
touch the generator. -/
theorem stream_guarded (htrace : Trace Step {} ls s) :
    s.closeCount = s.closed.toNat ∧ s.notified ≤ s.closeCount ∧
      (∀ call call', s.Inside call → s.Inside call' → call = call') ∧
      (∀ call : Nat, s.calls[call]? = some .stopped → s.closed = true) ∧
      (Unspared ls → s.closed = true → s.iterator = .ended ∨ ∃ call : Nat, s.calls[call]? = some .closing) ∧
      ∀ ls' s', Trace Step s ls' s' → s.closed = true → ∀ (call : Nat) c, s.calls.length ≤ call →
        s'.calls[call]? = some c → c = .stopped ∨ c = .returned := by
  have h := guarded_run htrace
  refine ⟨h.count, h.notified, h.alone, h.stopped, h.unwound, fun ls' s' htrace' hclosed => ?_⟩
  have hstart : TurnedAway s.calls.length s := by
    refine ⟨hclosed, Nat.le_refl _, fun call c hsince hcall => ?_⟩
    have hlt := (List.getElem?_eq_some_iff.mp hcall).1
    omega
  have hrun : TurnedAway s.calls.length s' :=
    htrace'.invariant (I := fun s' _ => TurnedAway s.calls.length s') hstart fun h hstep => h.step hstep
  exact fun call c hsince hcall => hrun.2.2 call c hsince hcall

/-- One item is read, the next read finds the end, and the stream is closed again behind it. -/
def readOut : List (Label Nat) := [.anext, .item 0 7, .anext, .exhausted 1, .aclose]

theorem readOut_guarded : ∃ s : CallbackStream Nat, Trace Step {} readOut s ∧ s.closeCount = s.closed.toNat ∧
    s.closed = true ∧ s.calls = [.got 7, .stopped, .returned] ∧
    (s.iterator = .ended ∨ ∃ call : Nat, s.calls[call]? = some .closing) := by
  have htrace : Trace Step ({} : CallbackStream Nat) readOut _ :=
    (((((Trace.nil _).snoc (.anext _)).snoc (.item rfl)).snoc (.anext _)).snoc (.exhausted rfl)).snoc (.aclose rfl)
  obtain ⟨hcount, -, -, -, hunwound, -⟩ := stream_guarded htrace
  refine ⟨_, htrace, hcount, rfl, rfl, hunwound ⟨?_, fun call => ?_⟩ rfl⟩ <;> simp [readOut]

end CallbackStream

end AgentRuntime
