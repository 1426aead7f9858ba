import AgentRuntime.Async.Drain
import AgentRuntime.Core

/-!
# Strict streams

`iterate_strict` as a recognizer of streams, for any kind of item: the one completion of a stream must
come, and must come last.

* `strictStream`, `consumeStrict` — `iterate_strict` and `consume_strict`;
* `iterateStrict_eq` — the streams of the phases are strict ones;
* `ends_iterateCancellable` — without a stop, a cancellable stream is the stream itself;
* `Complete`, `Violation` — the streams that are accepted, and what is wrong with the others;
* `strictOf_recognizes` — a strict stream ends normally on the first, and raises on the others.
-/

set_option autoImplicit false

namespace AgentRuntime

open Async

variable {Y : Type}

/-- `iterate_strict`, over the cancellable stream, with its locals `completion` and `last`. `accepted` is
what is noted of a stream that is accepted. -/
def strictStream (isCompletion : Y → Bool) (accepted : World → World) :
    Tree Y Unit → (completion last : Option Y) → Tree Y Unit
  | .done _ w, completion, last =>
    if completion.isNone then .raised (.completionProtocol "missing completion event") w
    else if last.all (!isCompletion ·) then
      .raised (.completionProtocol "completion event must be last") w
    else .done () (accepted w)
  | .raised e w, completion, _ => strictRaise completion.isSome e w
  | .hang w, _, _ => .hang w
  | .await q w k, completion, last =>
    .await q w fun r w => strictStream isCompletion accepted (k r w) completion last
  | .yield item w k, completion, _ =>
    if completion.isSome then .raised (.completionProtocol "trailing event after completion") w
    else
      let completion := if isCompletion item then some item else completion
      .yield item w fun r w => match r with
        | .next => strictStream isCompletion accepted (k .next w) completion (some item)
        | .close => strictRaise completion.isSome .generatorExit w

/-- The strict stream of a phase notes that it is accepted. -/
theorem iterateStrict_eq (p : Phase) (n : Tree p.Event Unit) : ∀ completion last : Option p.Event,
    iterateStrict p n completion last =
      strictStream p.isCompletion (·.note (.accepted p)) n completion last := by
  induction n with
  | done a w => exact fun _ _ => rfl
  | raised e w => exact fun _ _ => rfl
  | hang w => exact fun _ _ => rfl
  | await q w k ih =>
    intro completion last
    rw [iterateStrict, strictStream]
    exact congrArg _ (funext fun r => funext fun w => ih r w completion last)
  | yield item w k ih =>
    intro completion last
    rw [iterateStrict, strictStream]
    split
    · rfl
    · refine congrArg _ (funext fun r => funext fun w => ?_)
      cases r with
      | next => exact ih .next w _ _
      | close => rfl

/-- `iterate_strict` of a stream. -/
def strictOf (isCompletion : Y → Bool) (accepted : World → World) (idle : Bool) (stream : Stream Y) :
    Gen Y Unit :=
  fun w => strictStream isCompletion accepted (iterateCancellable idle stream.aclose (stream.body w))
    none none

/-- The strict stream that a phase of the loop drains. -/
theorem strictOf_phase (loop : AgentLoop) (p : Phase) (stream : Stream p.Event) :
    (strictOf p.isCompletion (·.note (.accepted p)) (loop.idleTimeout p) stream : Gen p.Event Unit) =
      fun w => iterateStrict p (iterateCancellable (loop.idleTimeout p) stream.aclose (stream.body w))
        none none :=
  funext fun _ => (iterateStrict_eq p _ none none).symm

/-- An item is added to `items`, the first local of `consume_strict`; the second one is `completion`. -/
def collect (isCompletion : Y → Bool) (locals : List Y × Option Y) (item : Y) : List Y × Option Y :=
  (locals.1 ++ [item], if isCompletion item then some item else locals.2)

/-- `consume_strict`, over the strict stream. -/
def consumeStrict (isCompletion : Y → Bool) (strict : Gen Y Unit) : Gen Empty (Y × List Y) :=
  strict.forEach (([], none) : List Y × Option Y)
    (fun locals item => pure (.inl (collect isCompletion locals item)))
    (fun locals => match locals.2 with
      | some completion => pure (completion, locals.1)
      | none => Proc.throw (.completionProtocol "missing completion event"))

/-! ## Runs without a stop -/

/-- How queries may be answered where no stop source is involved: no wait ends before its work does. -/
structure Uninterrupted (may : (q : Query) → Except Exc (Answer q) → Prop) : Prop where
  race : ∀ r, may .race r ↔ r = .ok .work
  resume : ∀ r, may .resume r ↔ r = .ok ()

/-- A stream that is closed without a failure. -/
structure Closes (may : (q : Query) → Except Exc (Answer q) → Prop) (aclose : Gen Empty Unit) : Prop where
  ok : ∀ {w w' o}, Node.Ends may anyState (aclose w) [] o w' → o = .ok ()
  ends : ∀ w, ∃ w', Node.Ends may anyState (aclose w) [] (.ok ()) w'

variable {may : (q : Query) → Except Exc (Answer q) → Prop}

namespace Uninterrupted

variable {α : Type} {pull : World → World → Prop} {ys : List Y} {w w' : World}

theorem ends_resumed (hmay : Uninterrupted may) {go cancelled : World → Tree Y α} {o : Except Exc α} :
    Node.Ends may pull (resumed w go cancelled) ys o w' ↔ ∃ w₁, Node.Ends may pull (go w₁) ys o w' := by
  unfold resumed
  rw [Node.ends_await]
  constructor
  · rintro ⟨r, w₁, hr, h⟩
    obtain rfl := (hmay.resume r).mp hr
    exact ⟨w₁, h⟩
  · rintro ⟨w₁, h⟩
    exact ⟨.ok (), w₁, (hmay.resume _).mpr rfl, h⟩

theorem offers_resumed (hmay : Uninterrupted may) {go cancelled : World → Tree Y α} {y : Y} :
    Node.Offers may pull (resumed w go cancelled) ys y ↔
      ∃ w₁, Node.Offers may pull (go w₁) ys y := by
  unfold resumed
  rw [Node.offers_await]
  constructor
  · rintro ⟨r, w₁, hr, h⟩
    obtain rfl := (hmay.resume r).mp hr
    exact ⟨w₁, h⟩
  · rintro ⟨w₁, h⟩
    exact ⟨.ok (), w₁, (hmay.resume _).mpr rfl, h⟩

variable {Y' β : Type} {idle : Bool} {q : Query} {k : Except Exc (Answer q) → World → Tree Y' β}
  {go : Except Exc (Answer q) → World → Tree Y α} {abort : Exc → World → Tree Y α}

theorem ends_raced (hmay : Uninterrupted may) {o : Except Exc α} :
    Node.Ends may pull (raced idle q w k go abort) ys o w' ↔
      ∃ r w₁, may q r ∧ Node.Ends may pull (go r w₁) ys o w' := by
  unfold raced
  rw [Node.ends_await]
  constructor
  · rintro ⟨race, w₁, hrace, h⟩
    obtain rfl := (hmay.race race).mp hrace
    exact Node.ends_await.mp h
  · rintro ⟨r, w₁, hr, h⟩
    exact ⟨.ok .work, w, (hmay.race _).mpr rfl, Node.ends_await.mpr ⟨r, w₁, hr, h⟩⟩

theorem offers_raced (hmay : Uninterrupted may) {y : Y} :
    Node.Offers may pull (raced idle q w k go abort) ys y ↔
      ∃ r w₁, may q r ∧ Node.Offers may pull (go r w₁) ys y := by
  unfold raced
  rw [Node.offers_await]
  constructor
  · rintro ⟨race, w₁, hrace, h⟩
    obtain rfl := (hmay.race race).mp hrace
    exact Node.offers_await.mp h
  · rintro ⟨r, w₁, hr, h⟩
    exact ⟨.ok .work, w, (hmay.race _).mpr rfl, Node.offers_await.mpr ⟨r, w₁, hr, h⟩⟩

end Uninterrupted

namespace Closes

variable {aclose : Gen Empty Unit} {pull : World → World → Prop} {ys : List Y} {w w' : World}

theorem ends_closing (h : Closes may aclose) {o : Except Exc Unit} :
    Node.Ends may pull ((closing aclose : Gen Y Unit) w) ys o w' ↔
      ys = [] ∧ o = .ok () ∧ Node.Ends may anyState (aclose w) [] (.ok ()) w' := by
  refine Proc.ends_tryCatch.trans ⟨?_, ?_⟩
  · rintro ⟨us, ws, r, w₁, rfl, hlift, hrest⟩
    obtain ⟨rfl, hclose⟩ := Node.ends_lift.mp hlift
    obtain rfl := h.ok hclose
    obtain ⟨rfl, rfl, rfl⟩ := Node.ends_done.mp hrest
    exact ⟨rfl, rfl, hclose⟩
  · rintro ⟨rfl, rfl, hclose⟩
    exact ⟨[], [], .ok (), w', rfl, Node.ends_lift.mpr ⟨rfl, hclose⟩, .done () w'⟩

theorem ends_closeAndRaise (h : Closes may aclose) {e : Exc} {o : Except Exc Unit} :
    Node.Ends may pull ((closeAndRaise aclose e : Gen Y Unit) w) ys o w' ↔
      ys = [] ∧ o = .error e ∧ Node.Ends may anyState (aclose w) [] (.ok ()) w' := by
  refine Proc.ends_bind.trans ⟨?_, ?_⟩
  · rintro ⟨us, ws, r, w₁, rfl, hguarded, hrest⟩
    obtain ⟨us', ws', r', w₂, rfl, hclosing, hdone⟩ := Proc.ends_tryCatch.mp hguarded
    obtain ⟨rfl, rfl, hclose⟩ := h.ends_closing.mp hclosing
    obtain ⟨rfl, rfl, rfl⟩ := Node.ends_done.mp hdone
    obtain ⟨rfl, rfl, rfl⟩ := Node.ends_raised.mp hrest
    exact ⟨rfl, rfl, hclose⟩
  · rintro ⟨rfl, rfl, hclose⟩
    refine ⟨[], [], .ok (), w', rfl, Proc.ends_tryCatch.mpr ?_, .raised e w'⟩
    exact ⟨[], [], .ok (), w', rfl, h.ends_closing.mpr ⟨rfl, rfl, hclose⟩, .done () w'⟩

theorem not_offers_closing {y : Y} (h : Closes may aclose) :
    ¬ Node.Offers may pull ((closing aclose : Gen Y Unit) w) ys y := by
  intro hoffers
  rcases Node.offers_handle _ hoffers with hlift | ⟨us, ws, r, w₁, rfl, hlift, hrest⟩
  · exact Node.not_offers_lift hlift
  · obtain ⟨rfl, hclose⟩ := Node.ends_lift.mp hlift
    obtain rfl := h.ok hclose
    cases hrest

theorem not_offers_closeAndRaise {e : Exc} {y : Y} (h : Closes may aclose) :
    ¬ Node.Offers may pull ((closeAndRaise aclose e : Gen Y Unit) w) ys y := by
  intro hoffers
  rcases Node.offers_handle _ hoffers with hguarded | ⟨us, ws, r, w₁, rfl, hguarded, hrest⟩
  · rcases Node.offers_handle _ hguarded with hclosing | ⟨us, ws, r, w₁, rfl, hclosing, hrest⟩
    · exact h.not_offers_closing hclosing
    · obtain ⟨rfl, rfl, -⟩ := h.ends_closing.mp hclosing
      cases hrest
  · obtain ⟨us', ws', r', w₂, rfl, hclosing, hdone⟩ := Proc.ends_tryCatch.mp hguarded
    obtain ⟨rfl, rfl, hclose⟩ := h.ends_closing.mp hclosing
    obtain ⟨rfl, rfl, rfl⟩ := Node.ends_done.mp hdone
    cases hrest

end Closes

/-- Without a stop, a cancellable stream ends like the stream, with the same items. -/
theorem ends_iterateCancellable {idle : Bool} {aclose : Gen Empty Unit} (hmay : Uninterrupted may)
    (hclose : Closes may aclose) {pull : World → World → Prop} (hpull : ∀ w, pull w w) (n : Tree Y Unit) :
    ∀ {ys : List Y} {o : Except Exc Unit},
      (∃ w', Node.Ends may pull (iterateCancellable idle aclose n) ys o w') ↔
        ∃ w', Node.Ends may anyState n ys o w' := by
  induction n with
  | done a w =>
    intro ys o
    rw [iterateCancellable]
    constructor
    · rintro ⟨w', h⟩
      obtain ⟨w₁, h⟩ := hmay.ends_resumed.mp h
      obtain ⟨rfl, rfl, -⟩ := hclose.ends_closing.mp h
      exact ⟨w, .done () w⟩
    · rintro ⟨w', h⟩
      obtain ⟨rfl, rfl, rfl⟩ := Node.ends_done.mp h
      obtain ⟨w₁, h⟩ := hclose.ends w'
      exact ⟨w₁, hmay.ends_resumed.mpr ⟨w', hclose.ends_closing.mpr ⟨rfl, rfl, h⟩⟩⟩
  | raised e w =>
    intro ys o
    rw [iterateCancellable]
    constructor
    · rintro ⟨w', h⟩
      obtain ⟨w₁, h⟩ := hmay.ends_resumed.mp h
      obtain ⟨rfl, rfl, -⟩ := hclose.ends_closeAndRaise.mp h
      exact ⟨w, .raised e w⟩
    · rintro ⟨w', h⟩
      obtain ⟨rfl, rfl, rfl⟩ := Node.ends_raised.mp h
      obtain ⟨w₁, h⟩ := hclose.ends w'
      exact ⟨w₁, hmay.ends_resumed.mpr ⟨w', hclose.ends_closeAndRaise.mpr ⟨rfl, rfl, h⟩⟩⟩
  | hang w =>
    intro ys o
    exact ⟨fun ⟨w', h⟩ => absurd h Node.not_ends_hang, fun ⟨w', h⟩ => absurd h Node.not_ends_hang⟩
  | await q w k ih =>
    intro ys o
    rw [iterateCancellable]
    constructor
    · rintro ⟨w', h⟩
      obtain ⟨r, w₁, hr, h⟩ := hmay.ends_raced.mp h
      obtain ⟨w', h⟩ := (ih r w₁).mp ⟨w', h⟩
      exact ⟨w', .await r w₁ hr h⟩
    · rintro ⟨w', h⟩
      obtain ⟨r, w₁, hr, h⟩ := Node.ends_await.mp h
      obtain ⟨w', h⟩ := (ih r w₁).mpr ⟨w', h⟩
      exact ⟨w', hmay.ends_raced.mpr ⟨r, w₁, hr, h⟩⟩
  | yield y w k ih =>
    intro ys o
    rw [iterateCancellable]
    constructor
    · rintro ⟨w', h⟩
      obtain ⟨w₁, h⟩ := hmay.ends_resumed.mp h
      obtain ⟨ys', w₂, rfl, -, h⟩ := Node.ends_yield.mp h
      obtain ⟨w', h⟩ := (ih .next w₂).mp ⟨w', h⟩
      exact ⟨w', .yield w₂ trivial h⟩
    · rintro ⟨w', h⟩
      obtain ⟨ys', w₂, rfl, -, h⟩ := Node.ends_yield.mp h
      obtain ⟨w', h⟩ := (ih .next w₂).mpr ⟨w', h⟩
      exact ⟨w', hmay.ends_resumed.mpr ⟨w₂, .yield w₂ (hpull w₂) h⟩⟩

/-- It offers the same items. -/
theorem offers_iterateCancellable {idle : Bool} {aclose : Gen Empty Unit} (hmay : Uninterrupted may)
    (hclose : Closes may aclose) {pull : World → World → Prop} (hpull : ∀ w, pull w w) (n : Tree Y Unit) :
    ∀ {ys : List Y} {y : Y}, Node.Offers may pull (iterateCancellable idle aclose n) ys y ↔
      Node.Offers may anyState n ys y := by
  induction n with
  | done a w =>
    intro ys y
    refine hmay.offers_resumed.trans ⟨?_, nofun⟩
    rintro ⟨w₁, h⟩
    exact absurd h hclose.not_offers_closing
  | raised e w =>
    intro ys y
    refine hmay.offers_resumed.trans ⟨?_, nofun⟩
    rintro ⟨w₁, h⟩
    exact absurd h hclose.not_offers_closeAndRaise
  | hang w =>
    intro ys y
    exact ⟨nofun, nofun⟩
  | await q w k ih =>
    intro ys y
    refine hmay.offers_raced.trans (Iff.trans ?_ Node.offers_await.symm)
    constructor
    · rintro ⟨r, w₁, hr, h⟩
      exact ⟨r, w₁, hr, (ih r w₁).mp h⟩
    · rintro ⟨r, w₁, hr, h⟩
      exact ⟨r, w₁, hr, (ih r w₁).mpr h⟩
  | yield y w k ih =>
    intro ys y'
    refine hmay.offers_resumed.trans (Iff.trans ?_ Node.offers_yield.symm)
    constructor
    · rintro ⟨w₁, h⟩
      rcases Node.offers_yield.mp h with ⟨rfl, rfl⟩ | ⟨ys', w₂, rfl, -, h⟩
      · exact .inl ⟨rfl, rfl⟩
      · exact .inr ⟨ys', w₂, rfl, trivial, (ih .next w₂).mp h⟩
    · rintro (⟨rfl, rfl⟩ | ⟨ys', w₂, rfl, -, h⟩)
      · exact ⟨w, .here _ _ _⟩
      · exact ⟨w₂, .yield w₂ (hpull w₂) ((ih .next w₂).mpr h)⟩

/-! ## The recognizer -/

/-- No item is a completion. -/
def Incomplete (isCompletion : Y → Bool) (ys : List Y) : Prop := ∀ y ∈ ys, isCompletion y = false

/-- Exactly one item is a completion, the last one. -/
def Complete (isCompletion : Y → Bool) (ys : List Y) : Prop :=
  ∃ items completion, ys = items ++ [completion] ∧ Incomplete isCompletion items ∧
    isCompletion completion = true

theorem incomplete_cons {isCompletion : Y → Bool} {y : Y} {ys : List Y} :
    Incomplete isCompletion (y :: ys) ↔ isCompletion y = false ∧ Incomplete isCompletion ys :=
  List.forall_mem_cons

theorem not_complete_nil {isCompletion : Y → Bool} : ¬ Complete isCompletion [] := by
  rintro ⟨items, completion, h, -⟩
  exact absurd h.symm (List.append_ne_nil_of_right_ne_nil items (List.cons_ne_nil _ _))

/-- A list that starts with its completion has no other item. -/
theorem complete_cons_completion {isCompletion : Y → Bool} {y : Y} {ys : List Y}
    (h : isCompletion y = true) : Complete isCompletion (y :: ys) ↔ ys = [] := by
  constructor
  · rintro ⟨items, completion, heq, hopen, hlast⟩
    cases items with
    | nil => exact (List.cons.inj heq).2
    | cons item items =>
      obtain ⟨rfl, -⟩ := List.cons.inj heq
      exact absurd h (by rw [(incomplete_cons.mp hopen).1]; exact Bool.false_ne_true)
  · rintro rfl
    exact ⟨[], y, rfl, nofun, h⟩

theorem complete_cons_other {isCompletion : Y → Bool} {y : Y} {ys : List Y}
    (h : isCompletion y = false) : Complete isCompletion (y :: ys) ↔ Complete isCompletion ys := by
  constructor
  · rintro ⟨items, completion, heq, hopen, hlast⟩
    cases items with
    | nil =>
      obtain ⟨rfl, -⟩ := List.cons.inj heq
      exact absurd hlast (by rw [h]; exact Bool.false_ne_true)
    | cons item items =>
      obtain ⟨rfl, rfl⟩ := List.cons.inj heq
      exact ⟨items, completion, rfl, (incomplete_cons.mp hopen).2, hlast⟩
  · rintro ⟨items, completion, rfl, hopen, hlast⟩
    exact ⟨y :: items, completion, rfl, incomplete_cons.mpr ⟨h, hopen⟩, hlast⟩

/-- The exception for an error behind a completion. -/
def lateError (e : Exc) : Exc :=
  if e.isCompletionProtocol || e.isCancelledError then e
  else .completionProtocol "error after completion event" (some e)

theorem isCompletionProtocol_lateError {e : Exc} (h : e.isCancelledError = false) :
    (lateError e).isCompletionProtocol = true := by
  unfold lateError
  rw [h, Bool.or_false]
  split
  · assumption
  · rfl

/-- A run of the stream to its end: the items, and how it ended. -/
def Runs (may : (q : Query) → Except Exc (Answer q) → Prop) (n : Tree Y Unit) (ys : List Y)
    (o : Except Exc Unit) : Prop :=
  ∃ w, Node.Ends may anyState n ys o w

/-- A run of the stream that is no complete one, up to its first violation. -/
inductive Violation (may : (q : Query) → Except Exc (Answer q) → Prop) (isCompletion : Y → Bool)
    (n : Tree Y Unit) : List Y → Exc → Prop where
  | failed {ys : List Y} {e : Exc} : Incomplete isCompletion ys → Runs may n ys (.error e) →
      Violation may isCompletion n ys e
  | missing {ys : List Y} : Incomplete isCompletion ys → Runs may n ys (.ok ()) →
      Violation may isCompletion n ys (.completionProtocol "missing completion event")
  | late {ys : List Y} {e : Exc} : Complete isCompletion ys → Runs may n ys (.error e) →
      Violation may isCompletion n ys (lateError e)
  | trailing {ys : List Y} {y : Y} : Complete isCompletion ys → Node.Offers may anyState n ys y →
      Violation may isCompletion n ys (.completionProtocol "trailing event after completion")

/-- How a strict stream ends with the outcome of its stream, before a completion and behind one. -/
def openOutcome : Except Exc Unit → Except Exc Unit
  | .ok _ => .error (.completionProtocol "missing completion event")
  | .error e => .error e

def closedOutcome : Except Exc Unit → Except Exc Unit
  | .ok _ => .ok ()
  | .error e => .error (lateError e)

section Recognizer

variable {isCompletion : Y → Bool} {accepted : World → World} {pull : World → World → Prop}

theorem ends_strictRaise {completed : Bool} {e : Exc} {w : World} {ys : List Y} {o : Except Exc Unit} :
    (∃ w', Node.Ends may pull ((strictRaise completed e : Gen Y Unit) w) ys o w') ↔
      ys = [] ∧ o = .error (if completed then lateError e else e) := by
  have hraise : ∃ w', (strictRaise completed e : Gen Y Unit) w =
      .raised (if completed then lateError e else e) w' := by
    unfold strictRaise lateError
    cases completed with
    | false =>
      rw [if_pos (by rw [Bool.not_false, Bool.or_true])]
      exact ⟨w, rfl⟩
    | true =>
      rw [Bool.not_true, Bool.or_false]
      split
      · exact ⟨w, rfl⟩
      · exact ⟨w.noteMasked e, rfl⟩
  obtain ⟨w₁, hraise⟩ := hraise
  rw [hraise]
  constructor
  · rintro ⟨w', h⟩
    obtain ⟨rfl, rfl, -⟩ := Node.ends_raised.mp h
    exact ⟨rfl, rfl⟩
  · rintro ⟨rfl, rfl⟩
    exact ⟨w₁, .raised _ w₁⟩

/-- Behind a completion nothing more is yielded. -/
theorem ends_strictStream_closed {completion last : Y} (hlast : isCompletion last = true)
    (n : Tree Y Unit) : ∀ {ys : List Y} {o : Except Exc Unit},
      (∃ w', Node.Ends may pull (strictStream isCompletion accepted n (some completion) (some last))
        ys o w') ↔
        ys = [] ∧ ((∃ r w', Node.Ends may pull n [] r w' ∧ o = closedOutcome r) ∨
          ∃ y, Node.Offers may pull n [] y ∧
            o = .error (.completionProtocol "trailing event after completion")) := by
  induction n with
  | done a w =>
    intro ys o
    have haccept : strictStream isCompletion accepted (.done a w) (some completion) (some last) =
        .done () (accepted w) := by
      rw [strictStream, if_neg (by simp), if_neg (by simp [hlast])]
    rw [haccept]
    constructor
    · rintro ⟨w', h⟩
      obtain ⟨rfl, rfl, -⟩ := Node.ends_done.mp h
      exact ⟨rfl, .inl ⟨.ok (), w, .done () w, rfl⟩⟩
    · rintro ⟨rfl, ⟨r, w', h, rfl⟩ | ⟨y, h, -⟩⟩
      · obtain ⟨-, rfl, -⟩ := Node.ends_done.mp h
        exact ⟨accepted w, .done () _⟩
      · cases h
  | raised e w =>
    intro ys o
    rw [strictStream, ends_strictRaise]
    constructor
    · rintro ⟨rfl, rfl⟩
      exact ⟨rfl, .inl ⟨.error e, w, .raised e w, rfl⟩⟩
    · rintro ⟨rfl, ⟨r, w', h, rfl⟩ | ⟨y, h, -⟩⟩
      · obtain ⟨-, rfl, -⟩ := Node.ends_raised.mp h
        exact ⟨rfl, rfl⟩
      · cases h
  | hang w =>
    intro ys o
    constructor
    · exact fun ⟨w', h⟩ => absurd h Node.not_ends_hang
    · rintro ⟨rfl, ⟨r, w', h, -⟩ | ⟨y, h, -⟩⟩
      · exact absurd h Node.not_ends_hang
      · cases h
  | await q w k ih =>
    intro ys o
    rw [strictStream]
    constructor
    · rintro ⟨w', h⟩
      obtain ⟨a, w₁, ha, h⟩ := Node.ends_await.mp h
      obtain ⟨rfl, ⟨r, w₂, hn, rfl⟩ | ⟨y, hn, rfl⟩⟩ := (ih a w₁).mp ⟨w', h⟩
      · exact ⟨rfl, .inl ⟨r, w₂, .await a w₁ ha hn, rfl⟩⟩
      · exact ⟨rfl, .inr ⟨y, .await a w₁ ha hn, rfl⟩⟩
    · rintro ⟨rfl, ⟨r, w', hn, rfl⟩ | ⟨y, hn, rfl⟩⟩
      · obtain ⟨a, w₁, ha, hn⟩ := Node.ends_await.mp hn
        obtain ⟨w', h⟩ := (ih a w₁).mpr ⟨rfl, .inl ⟨r, w', hn, rfl⟩⟩
        exact ⟨w', .await a w₁ ha h⟩
      · obtain ⟨a, w₁, ha, hn⟩ := Node.offers_await.mp hn
        obtain ⟨w', h⟩ := (ih a w₁).mpr ⟨rfl, .inr ⟨y, hn, rfl⟩⟩
        exact ⟨w', .await a w₁ ha h⟩
  | yield y w k ih =>
    intro ys o
    rw [strictStream, if_pos Option.isSome_some]
    constructor
    · rintro ⟨w', h⟩
      obtain ⟨rfl, rfl, -⟩ := Node.ends_raised.mp h
      exact ⟨rfl, .inr ⟨y, .here y w k, rfl⟩⟩
    · rintro ⟨rfl, ⟨r, w', h, -⟩ | ⟨y', -, rfl⟩⟩
      · cases h
      · exact ⟨w, .raised _ w⟩

/-- A strict stream, up to its completion. -/
theorem ends_strictStream (n : Tree Y Unit) : ∀ {last : Option Y} {ys : List Y} {o : Except Exc Unit},
    (∃ w', Node.Ends may pull (strictStream isCompletion accepted n none last) ys o w') ↔
      (Incomplete isCompletion ys ∧ ∃ r w', Node.Ends may pull n ys r w' ∧ o = openOutcome r) ∨
      (Complete isCompletion ys ∧ ((∃ r w', Node.Ends may pull n ys r w' ∧ o = closedOutcome r) ∨
        ∃ y, Node.Offers may pull n ys y ∧
          o = .error (.completionProtocol "trailing event after completion"))) := by
  induction n with
  | done a w =>
    intro last ys o
    constructor
    · rintro ⟨w', h⟩
      obtain ⟨rfl, rfl, -⟩ := Node.ends_raised.mp h
      exact .inl ⟨nofun, .ok (), w, .done () w, rfl⟩
    · rintro (⟨hopen, r, w', h, rfl⟩ | ⟨hcomplete, ⟨r, w', h, -⟩ | ⟨y, h, -⟩⟩)
      · obtain ⟨rfl, rfl, -⟩ := Node.ends_done.mp h
        exact ⟨w, .raised _ w⟩
      · obtain ⟨rfl, -⟩ := Node.ends_done.mp h
        exact absurd hcomplete not_complete_nil
      · cases h
  | raised e w =>
    intro last ys o
    rw [strictStream, ends_strictRaise]
    constructor
    · rintro ⟨rfl, rfl⟩
      exact .inl ⟨nofun, .error e, w, .raised e w, rfl⟩
    · rintro (⟨hopen, r, w', h, rfl⟩ | ⟨hcomplete, ⟨r, w', h, -⟩ | ⟨y, h, -⟩⟩)
      · obtain ⟨rfl, rfl, -⟩ := Node.ends_raised.mp h
        exact ⟨rfl, rfl⟩
      · obtain ⟨rfl, -⟩ := Node.ends_raised.mp h
        exact absurd hcomplete not_complete_nil
      · cases h
  | hang w =>
    intro last ys o
    constructor
    · exact fun ⟨w', h⟩ => absurd h Node.not_ends_hang
    · rintro (⟨-, r, w', h, -⟩ | ⟨-, ⟨r, w', h, -⟩ | ⟨y, h, -⟩⟩)
      · exact absurd h Node.not_ends_hang
      · exact absurd h Node.not_ends_hang
      · cases h
  | await q w k ih =>
    intro last ys o
    rw [strictStream]
    constructor
    · rintro ⟨w', h⟩
      obtain ⟨a, w₁, ha, h⟩ := Node.ends_await.mp h
      rcases (ih a w₁).mp ⟨w', h⟩ with
        ⟨hopen, r, w₂, hn, rfl⟩ | ⟨hcomplete, ⟨r, w₂, hn, rfl⟩ | ⟨y, hn, rfl⟩⟩
      · exact .inl ⟨hopen, r, w₂, .await a w₁ ha hn, rfl⟩
      · exact .inr ⟨hcomplete, .inl ⟨r, w₂, .await a w₁ ha hn, rfl⟩⟩
      · exact .inr ⟨hcomplete, .inr ⟨y, .await a w₁ ha hn, rfl⟩⟩
    · rintro (⟨hopen, r, w', hn, rfl⟩ | ⟨hcomplete, ⟨r, w', hn, rfl⟩ | ⟨y, hn, rfl⟩⟩)
      · obtain ⟨a, w₁, ha, hn⟩ := Node.ends_await.mp hn
        obtain ⟨w', h⟩ := (ih a w₁).mpr (.inl ⟨hopen, r, w', hn, rfl⟩)
        exact ⟨w', .await a w₁ ha h⟩
      · obtain ⟨a, w₁, ha, hn⟩ := Node.ends_await.mp hn
        obtain ⟨w', h⟩ := (ih a w₁).mpr (.inr ⟨hcomplete, .inl ⟨r, w', hn, rfl⟩⟩)
        exact ⟨w', .await a w₁ ha h⟩
      · obtain ⟨a, w₁, ha, hn⟩ := Node.offers_await.mp hn
        obtain ⟨w', h⟩ := (ih a w₁).mpr (.inr ⟨hcomplete, .inr ⟨y, hn, rfl⟩⟩)
        exact ⟨w', .await a w₁ ha h⟩
  | yield y w k ih =>
    intro last ys o
    rw [strictStream, if_neg (by exact Bool.false_ne_true)]
    cases hy : isCompletion y with
    | true =>
      simp only [if_true]
      constructor
      · rintro ⟨w', h⟩
        obtain ⟨ys', w₁, rfl, hp, h⟩ := Node.ends_yield.mp h
        obtain ⟨rfl, hend⟩ := (ends_strictStream_closed hy _).mp ⟨w', h⟩
        refine .inr ⟨(complete_cons_completion hy).mpr rfl, ?_⟩
        rcases hend with ⟨r, w₂, hn, rfl⟩ | ⟨y', hn, rfl⟩
        · exact .inl ⟨r, w₂, .yield w₁ hp hn, rfl⟩
        · exact .inr ⟨y', .yield w₁ hp hn, rfl⟩
      · rintro (⟨hopen, r, w', hn, rfl⟩ | ⟨hcomplete, ⟨r, w', hn, rfl⟩ | ⟨y', hn, rfl⟩⟩)
        · obtain ⟨ys', w₁, rfl, -, -⟩ := Node.ends_yield.mp hn
          exact absurd hy (by rw [(incomplete_cons.mp hopen).1]; exact Bool.false_ne_true)
        · obtain ⟨ys', w₁, rfl, hp, hn⟩ := Node.ends_yield.mp hn
          obtain rfl := (complete_cons_completion hy).mp hcomplete
          obtain ⟨w', h⟩ := (ends_strictStream_closed hy _).mpr ⟨rfl, .inl ⟨r, w', hn, rfl⟩⟩
          exact ⟨w', .yield w₁ hp h⟩
        · rcases Node.offers_yield.mp hn with ⟨rfl, -⟩ | ⟨ys', w₁, rfl, hp, hn⟩
          · exact absurd hcomplete not_complete_nil
          · obtain rfl := (complete_cons_completion hy).mp hcomplete
            obtain ⟨w', h⟩ := (ends_strictStream_closed hy _).mpr ⟨rfl, .inr ⟨y', hn, rfl⟩⟩
            exact ⟨w', .yield w₁ hp h⟩
    | false =>
      simp only [Bool.false_eq_true, if_false]
      constructor
      · rintro ⟨w', h⟩
        obtain ⟨ys', w₁, rfl, hp, h⟩ := Node.ends_yield.mp h
        rw [incomplete_cons, complete_cons_other hy]
        rcases (ih .next w₁).mp ⟨w', h⟩ with
          ⟨hopen, r, w₂, hn, rfl⟩ | ⟨hcomplete, ⟨r, w₂, hn, rfl⟩ | ⟨y', hn, rfl⟩⟩
        · exact .inl ⟨⟨hy, hopen⟩, r, w₂, .yield w₁ hp hn, rfl⟩
        · exact .inr ⟨hcomplete, .inl ⟨r, w₂, .yield w₁ hp hn, rfl⟩⟩
        · exact .inr ⟨hcomplete, .inr ⟨y', .yield w₁ hp hn, rfl⟩⟩
      · rintro (⟨hopen, r, w', hn, rfl⟩ | ⟨hcomplete, ⟨r, w', hn, rfl⟩ | ⟨y', hn, rfl⟩⟩)
        · obtain ⟨ys', w₁, rfl, hp, hn⟩ := Node.ends_yield.mp hn
          obtain ⟨w', h⟩ := (ih .next w₁).mpr (.inl ⟨(incomplete_cons.mp hopen).2, r, w', hn, rfl⟩)
          exact ⟨w', .yield w₁ hp h⟩
        · obtain ⟨ys', w₁, rfl, hp, hn⟩ := Node.ends_yield.mp hn
          rw [complete_cons_other hy] at hcomplete
          obtain ⟨w', h⟩ := (ih .next w₁).mpr (.inr ⟨hcomplete, .inl ⟨r, w', hn, rfl⟩⟩)
          exact ⟨w', .yield w₁ hp h⟩
        · rcases Node.offers_yield.mp hn with ⟨rfl, -⟩ | ⟨ys', w₁, rfl, hp, hn⟩
          · exact absurd hcomplete not_complete_nil
          · rw [complete_cons_other hy] at hcomplete
            obtain ⟨w', h⟩ := (ih .next w₁).mpr (.inr ⟨hcomplete, .inr ⟨y', hn, rfl⟩⟩)
            exact ⟨w', .yield w₁ hp h⟩

end Recognizer

/-! ## Strict streams of the host -/

section Strict

variable {isCompletion : Y → Bool} {accepted : World → World} {idle : Bool} {stream : Stream Y}
  {w : World} {pull : World → World → Prop} {ys : List Y}

theorem ends_strictOf (hmay : Uninterrupted may) (hclose : Closes may stream.aclose)
    (hpull : ∀ w, pull w w) {o : Except Exc Unit} :
    (∃ w', Node.Ends may pull (strictOf isCompletion accepted idle stream w) ys o w') ↔
      (Incomplete isCompletion ys ∧ ∃ r, Runs may (stream.body w) ys r ∧ o = openOutcome r) ∨
      (Complete isCompletion ys ∧ ((∃ r, Runs may (stream.body w) ys r ∧ o = closedOutcome r) ∨
        ∃ y, Node.Offers may anyState (stream.body w) ys y ∧
          o = .error (.completionProtocol "trailing event after completion"))) := by
  have hends : ∀ r, (∃ w', Node.Ends may pull
      (iterateCancellable idle stream.aclose (stream.body w)) ys r w') ↔ Runs may (stream.body w) ys r :=
    fun r => ends_iterateCancellable hmay hclose hpull (stream.body w)
  refine (ends_strictStream _).trans ?_
  simp only [← hends, offers_iterateCancellable hmay hclose hpull, exists_and_right]

theorem strictOf_returns (hmay : Uninterrupted may) (hclose : Closes may stream.aclose)
    (hpull : ∀ w, pull w w) :
    (∃ w', Node.Ends may pull (strictOf isCompletion accepted idle stream w) ys (.ok ()) w') ↔
      Runs may (stream.body w) ys (.ok ()) ∧ Complete isCompletion ys := by
  refine (ends_strictOf hmay hclose hpull).trans ⟨?_, ?_⟩
  · rintro (⟨hopen, r, hruns, ho⟩ | ⟨hcomplete, ⟨r, hruns, ho⟩ | ⟨y, hoffers, ho⟩⟩)
    · cases r <;> cases ho
    · cases r with
      | ok u => exact ⟨hruns, hcomplete⟩
      | error e => cases ho
    · cases ho
  · rintro ⟨hruns, hcomplete⟩
    exact .inr ⟨hcomplete, .inl ⟨.ok (), hruns, rfl⟩⟩

theorem strictOf_raises (hmay : Uninterrupted may) (hclose : Closes may stream.aclose)
    (hpull : ∀ w, pull w w) {e : Exc} :
    (∃ w', Node.Ends may pull (strictOf isCompletion accepted idle stream w) ys (.error e) w') ↔
      Violation may isCompletion (stream.body w) ys e := by
  refine (ends_strictOf hmay hclose hpull).trans ⟨?_, ?_⟩
  · rintro (⟨hopen, r, hruns, ho⟩ | ⟨hcomplete, ⟨r, hruns, ho⟩ | ⟨y, hoffers, ho⟩⟩)
    · cases r with
      | ok u =>
        cases ho
        exact .missing hopen hruns
      | error e' =>
        cases ho
        exact .failed hopen hruns
    · cases r with
      | ok u => cases ho
      | error e' =>
        cases ho
        exact .late hcomplete hruns
    · cases ho
      exact .trailing hcomplete hoffers
  · intro h
    cases h with
    | failed hopen hruns => exact .inl ⟨hopen, _, hruns, rfl⟩
    | missing hopen hruns => exact .inl ⟨hopen, _, hruns, rfl⟩
    | late hcomplete hruns => exact .inr ⟨hcomplete, .inl ⟨_, hruns, rfl⟩⟩
    | trailing hcomplete hoffers => exact .inr ⟨hcomplete, .inr ⟨_, hoffers, rfl⟩⟩

theorem collect_incomplete {items : List Y} (h : Incomplete isCompletion items) : ∀ locals,
    items.foldl (collect isCompletion) locals = (locals.1 ++ items, locals.2) := by
  induction items with
  | nil => exact fun locals => by rw [List.append_nil]; rfl
  | cons item items ih =>
    intro locals
    obtain ⟨hitem, hitems⟩ := incomplete_cons.mp h
    rw [List.foldl_cons, ih hitems]
    simp only [collect, hitem, Bool.false_eq_true, if_false, List.append_assoc, List.singleton_append]

/-- What `consume_strict` has collected of a complete stream. -/
theorem collect_complete (h : Complete isCompletion ys) :
    ∃ completion, ys.foldl (collect isCompletion) ([], none) = (ys, some completion) ∧
      ys.getLast? = some completion := by
  obtain ⟨items, completion, rfl, hopen, hlast⟩ := h
  refine ⟨completion, ?_, List.getLast?_concat⟩
  rw [List.foldl_append, collect_incomplete hopen]
  simp only [List.foldl_cons, List.foldl_nil, collect, hlast, if_true, List.nil_append]

/-- Every run of a stream is a complete one or comes to a violation. -/
theorem complete_or_violation {r : Except Exc Unit} (h : Runs may (stream.body w) ys r) :
    (r = .ok () ∧ Complete isCompletion ys) ∨
      ∃ items e, items <+: ys ∧ Violation may isCompletion (stream.body w) items e := by
  by_cases hopen : Incomplete isCompletion ys
  · cases r with
    | ok u => exact .inr ⟨ys, _, List.prefix_refl ys, .missing hopen h⟩
    | error e => exact .inr ⟨ys, e, List.prefix_refl ys, .failed hopen h⟩
  -- the items up to the first completion
  · obtain ⟨completion, items, rest, rfl, hcompletion, hitems⟩ :
        ∃ completion items rest, ys = items ++ completion :: rest ∧ isCompletion completion = true ∧
          Incomplete isCompletion items := by
      simp only [Incomplete, not_forall, Bool.not_eq_false] at hopen
      obtain ⟨y, hy, hcompletion⟩ := hopen
      obtain ⟨completion, hfind⟩ := Option.isSome_iff_exists.mp
        (List.find?_isSome.mpr ⟨y, hy, hcompletion⟩)
      obtain ⟨hcompletion, items, rest, rfl, hitems⟩ := List.find?_eq_some_iff_append.mp hfind
      exact ⟨completion, items, rest, rfl, hcompletion, fun y hy => by simpa using hitems y hy⟩
    have hcomplete : Complete isCompletion (items ++ [completion]) :=
      ⟨items, completion, rfl, hitems, hcompletion⟩
    cases rest with
    | nil =>
      cases r with
      | ok u => exact .inl ⟨rfl, hcomplete⟩
      | error e => exact .inr ⟨_, _, List.prefix_refl _, .late hcomplete h⟩
    | cons y rest =>
      rw [List.append_cons] at h ⊢
      obtain ⟨w', h⟩ := h
      exact .inr ⟨_, _, List.prefix_append _ _, .trailing hcomplete (Node.offers_of_ends h)⟩

end Strict

/-- `iterate_strict` is a recognizer: without a stop, and over a stream that is closed without a failure, it
yields the items of a run up to its first violation, which it raises, and it ends normally exactly on the
complete ones. `consume_strict` returns the completion and the items of these. -/
theorem strictOf_recognizes (isCompletion : Y → Bool) (accepted : World → World) (idle : Bool)
    (stream : Stream Y) (hmay : Uninterrupted may) (hclose : Closes may stream.aclose) (w : World) :
    (∀ ys, (∃ w', Node.Ends may anyState (strictOf isCompletion accepted idle stream w) ys (.ok ()) w') ↔
      Runs may (stream.body w) ys (.ok ()) ∧ Complete isCompletion ys) ∧
    (∀ ys e,
      (∃ w', Node.Ends may anyState (strictOf isCompletion accepted idle stream w) ys (.error e) w') ↔
        Violation may isCompletion (stream.body w) ys e) ∧
    (∀ ys r, Runs may (stream.body w) ys r → (r = .ok () ∧ Complete isCompletion ys) ∨
      ∃ items e, items <+: ys ∧ Violation may isCompletion (stream.body w) items e) ∧
    (∀ e, e.isCancelledError = false → (lateError e).isCompletionProtocol = true) ∧
    (∀ completion items, (∃ w', Node.Ends may anyState
        (consumeStrict isCompletion (strictOf isCompletion accepted idle stream) w) []
        (.ok (completion, items)) w') ↔
      Runs may (stream.body w) items (.ok ()) ∧ Complete isCompletion items ∧
        items.getLast? = some completion) ∧
    (∀ e, (∃ w', Node.Ends may anyState
        (consumeStrict isCompletion (strictOf isCompletion accepted idle stream) w) [] (.error e) w') ↔
      ∃ items, Violation may isCompletion (stream.body w) items e) := by
  have hany : ∀ w : World, anyState w w := fun _ => trivial
  have hfold : ∀ o, (∃ w', Node.Ends may anyState
      (consumeStrict isCompletion (strictOf isCompletion accepted idle stream) w) [] o w') ↔
      (∃ ys, (Runs may (stream.body w) ys (.ok ()) ∧ Complete isCompletion ys) ∧
        ∃ completion, ys.getLast? = some completion ∧ o = .ok (completion, ys)) ∨
      ∃ ys e, Violation may isCompletion (stream.body w) ys e ∧ o = .error e := by
    intro o
    have hreturns : ∀ ys, (∃ w', Node.Ends may Eq (strictOf isCompletion accepted idle stream w) ys
        (.ok ()) w') ↔ Runs may (stream.body w) ys (.ok ()) ∧ Complete isCompletion ys :=
      fun ys => strictOf_returns hmay hclose fun _ => rfl
    have hraises : ∀ ys e, (∃ w', Node.Ends may Eq (strictOf isCompletion accepted idle stream w) ys
        (.error e) w') ↔ Violation may isCompletion (stream.body w) ys e :=
      fun ys e => strictOf_raises hmay hclose fun _ => rfl
    constructor
    · rintro ⟨w', h⟩
      obtain ⟨ys, r, w₁, hstrict, hrest⟩ := (Node.ends_fold _).mp h
      cases r with
      | error e =>
        obtain ⟨-, rfl, -⟩ := hrest
        exact .inr ⟨ys, e, (hraises ys e).mp ⟨w₁, hstrict⟩, rfl⟩
      | ok u =>
        have hruns := (hreturns ys).mp ⟨w₁, hstrict⟩
        obtain ⟨completion, hcollect, hlast⟩ := collect_complete hruns.2
        rw [hcollect] at hrest
        obtain ⟨-, rfl, -⟩ := Node.ends_done.mp hrest
        exact .inl ⟨ys, hruns, completion, hlast, rfl⟩
    · rintro (⟨ys, hruns, completion, hlast, rfl⟩ | ⟨ys, e, hviolation, rfl⟩)
      · obtain ⟨w₁, hstrict⟩ := (hreturns ys).mpr hruns
        obtain ⟨completion', hcollect, hlast'⟩ := collect_complete hruns.2
        obtain rfl := Option.some.inj (hlast.symm.trans hlast')
        refine ⟨w₁, (Node.ends_fold _).mpr ⟨ys, .ok (), w₁, hstrict, ?_⟩⟩
        rw [hcollect]
        exact .done _ w₁
      · obtain ⟨w₁, hstrict⟩ := (hraises ys e).mpr hviolation
        exact ⟨w₁, (Node.ends_fold _).mpr ⟨ys, .error e, w₁, hstrict, rfl, rfl, rfl⟩⟩
  refine ⟨fun ys => strictOf_returns hmay hclose hany, fun ys e => strictOf_raises hmay hclose hany,
    fun ys r => complete_or_violation, fun e => isCompletionProtocol_lateError, ?_, ?_⟩
  · intro completion items
    refine (hfold _).trans ⟨?_, ?_⟩
    · rintro (⟨ys, ⟨hruns, hcomplete⟩, completion', hlast, ho⟩ | ⟨ys, e, -, ho⟩)
      · obtain ⟨rfl, rfl⟩ := Prod.mk.inj (Except.ok.inj ho)
        exact ⟨hruns, hcomplete, hlast⟩
      · cases ho
    · rintro ⟨hruns, hcomplete, hlast⟩
      exact .inl ⟨items, ⟨hruns, hcomplete⟩, completion, hlast, rfl⟩
  · intro e
    refine (hfold _).trans ⟨?_, ?_⟩
    · rintro (⟨ys, -, completion', -, ho⟩ | ⟨ys, e', hviolation, ho⟩)
      · cases ho
      · cases ho
        exact ⟨ys, hviolation⟩
    · rintro ⟨items, hviolation⟩
      exact .inr ⟨items, e, hviolation, rfl⟩

/-- The host answers the closing of a stream, and no stop source is involved. -/
def closed : (q : Query) → Except Exc (Answer q) → Prop
  | .race, r => r = .ok .work
  | .resume, r => r = .ok ()
  | .closeStream, r => r = .ok ()
  | _, _ => True

/-- So it is for the streams of the host. -/
theorem hostStream_recognized : let w : World := { runId := "r", recordTarget := ⟨"t"⟩ }
    Uninterrupted closed ∧ Closes closed (hostStream .tools 2).aclose ∧
      ∀ ys, (∃ w', Node.Ends closed anyState
          (strictOf Phase.tools.isCompletion id false (hostStream .tools 2) w) ys (.ok ()) w') ↔
        Runs closed ((hostStream .tools 2).body w) ys (.ok ()) ∧ Complete Phase.tools.isCompletion ys := by
  have hmay : Uninterrupted closed := ⟨fun _ => Iff.rfl, fun _ => Iff.rfl⟩
  have hclose : Closes closed (hostStream .tools 2).aclose := by
    constructor
    · intro w w' o h
      obtain ⟨r, w₁, rfl, h⟩ := Node.ends_await.mp h
      exact (Node.ends_done.mp h).2.1
    · exact fun w => ⟨w, .await (.ok ()) w rfl (.done () w)⟩
  exact ⟨hmay, hclose, (strictOf_recognizes _ id false (hostStream .tools 2) hmay hclose _).1⟩

end AgentRuntime
