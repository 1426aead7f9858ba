import AgentRuntime.Async.Node

/-!
# A program logic for resumption trees

`Node.wp Γ R E n g` is the weakest precondition of the tree `n`: under the contract `Γ`, whatever
the environment answers, `n` returns only in `R` and raises only in `E`.

* `Contract` — what holds at a suspension, what is guaranteed with each yielded item, what the
  environment may answer and do to the state (`rely`), and in which states a consumer may resume
  (`resume`). A ghost `g` follows the consumer: it changes only while the generator is suspended
  at a yield.
* `wp_handle`, `wp_mono`, `wp_lift`, `wp_settle`, `wp_forTry` — the rules of the combinators. The
  loop rule lets the generator be verified once, for a consumer known only by its contract.
* `wp_play_along` — soundness: after every list of moves that keeps to the contract, move by move, the
  node reached still meets it; `wp_play` — where only what is done to the state is restricted.
-/

set_option autoImplicit false

namespace Async

variable {σ ε Q : Type} {A : Q → Type} {Y Y' α β γ G : Type}

structure Contract (σ ε Q : Type) (A : Q → Type) (G Y : Type) where
  /-- What the environment may answer, and do to the state while the coroutine is suspended there. -/
  rely : (q : Q) → Except ε (A q) → σ → σ → Prop
  await : G → σ → Prop
  hang : G → σ → Prop
  yield : G → Y → σ → Prop
  /-- The states, and the ghosts, in which the consumer may resume after an item. -/
  resume : G → Y → σ → Resume → G → σ → Prop

/-- The same contract under another ghost, of which only a part is looked at. -/
def Contract.comap {G' : Type} (f : G' → G) (Γ : Contract σ ε Q A G Y) : Contract σ ε Q A G' Y where
  rely := Γ.rely
  await g := Γ.await (f g)
  hang g := Γ.hang (f g)
  yield g := Γ.yield (f g)
  resume g y s r g' s' := Γ.resume (f g) y s r (f g') s'

namespace Node

/-- Weakest precondition of a tree. -/
def wp (Γ : Contract σ ε Q A G Y) (R : G → α → σ → Prop) (E : G → ε → σ → Prop) :
    Node σ ε Q A Y α → G → Prop
  | done a s, g => R g a s
  | raised e s, g => E g e s
  | hang s, g => Γ.hang g s
  | await q s k, g => Γ.await g s ∧ ∀ r s', Γ.rely q r s s' → (k r s').wp Γ R E g
  | yield y s k, g =>
    Γ.yield g y s ∧ ∀ r g' s', Γ.resume g y s r g' s' → (k r s').wp Γ R E g'

/-- What the contract says of a node as it stands. -/
def Meets (Γ : Contract σ ε Q A G Y) (R : G → α → σ → Prop) (E : G → ε → σ → Prop) (g : G) :
    Node σ ε Q A Y α → Prop
  | done a s => R g a s
  | raised e s => E g e s
  | hang s => Γ.hang g s
  | await _ s _ => Γ.await g s
  | yield y s _ => Γ.yield g y s

variable {Γ : Contract σ ε Q A G Y} {R R' : G → α → σ → Prop} {E E' : G → ε → σ → Prop}

theorem wp_meets {n : Node σ ε Q A Y α} {g : G} (h : n.wp Γ R E g) : n.Meets Γ R E g := by
  cases n with
  | done a s => exact h
  | raised e s => exact h
  | hang s => exact h
  | await q s k => exact h.1
  | yield y s k => exact h.1

theorem wp_mono (hR : ∀ g a s, R g a s → R' g a s) (hE : ∀ g e s, E g e s → E' g e s)
    (n : Node σ ε Q A Y α) : ∀ g, n.wp Γ R E g → n.wp Γ R' E' g := by
  induction n with
  | done a s => exact fun g => hR g a s
  | raised e s => exact fun g => hE g e s
  | hang s => exact fun g => id
  | await q s k ih => exact fun g h => ⟨h.1, fun r s' hr => ih r s' g (h.2 r s' hr)⟩
  | yield y s k ih => exact fun g h => ⟨h.1, fun r g' s' hr => ih r s' g' (h.2 r g' s' hr)⟩

/-- What is returned is what some run returns. -/
theorem wp_returns (n : Node σ ε Q A Y α) : ∀ g, n.wp Γ R E g →
    n.wp Γ (fun g a s => R g a s ∧ n.Returns a s) E g := by
  induction n with
  | done a s => exact fun g h => ⟨h, .done a s⟩
  | raised e s => exact fun g h => h
  | hang s => exact fun g h => h
  | await q s k ih =>
    intro g h
    refine ⟨h.1, fun r s' hr => ?_⟩
    exact wp_mono (fun _ _ _ ha => ⟨ha.1, .await r s' ha.2⟩) (fun _ _ _ he => he) _ g
      (ih r s' g (h.2 r s' hr))
  | yield y s k ih =>
    intro g h
    refine ⟨h.1, fun r g' s' hr => ?_⟩
    exact wp_mono (fun _ _ _ ha => ⟨ha.1, .yield r s' ha.2⟩) (fun _ _ _ he => he) _ g'
      (ih r s' g' (h.2 r g' s' hr))

/-- A stronger contract: the same yields under a consumer that may do less. -/
theorem wp_contract {Γ' : Contract σ ε Q A G Y} (hrely : ∀ {q r s s'}, Γ'.rely q r s s' → Γ.rely q r s s')
    (hawait : ∀ g s, Γ.await g s → Γ'.await g s) (hhang : ∀ g s, Γ.hang g s → Γ'.hang g s)
    (hyield : ∀ g y s, Γ.yield g y s → Γ'.yield g y s)
    (hresume : ∀ g y s r g' s', Γ.yield g y s → Γ'.resume g y s r g' s' → Γ.resume g y s r g' s')
    (n : Node σ ε Q A Y α) : ∀ g, n.wp Γ R E g → n.wp Γ' R E g := by
  induction n with
  | done a s => exact fun g => id
  | raised e s => exact fun g => id
  | hang s => exact fun g => hhang g s
  | await q s k ih =>
    exact fun g h => ⟨hawait g s h.1, fun r s' hr => ih r s' g (h.2 r s' (hrely hr))⟩
  | yield y s k ih =>
    exact fun g h => ⟨hyield g y s h.1,
      fun r g' s' hr => ih r s' g' (h.2 r g' s' (hresume g y s r g' s' h.1 hr))⟩

theorem wp_comap {G' : Type} (f : G' → G) (n : Node σ ε Q A Y α) :
    ∀ g, n.wp Γ R E (f g) →
      n.wp (Γ.comap f) (fun g a s => R (f g) a s) (fun g e s => E (f g) e s) g := by
  induction n with
  | done a s => exact fun g => id
  | raised e s => exact fun g => id
  | hang s => exact fun g => id
  | await q s k ih => exact fun g h => ⟨h.1, fun r s' hr => ih r s' g (h.2 r s' hr)⟩
  | yield y s k ih => exact fun g h => ⟨h.1, fun r g' s' hr => ih r s' g' (h.2 r (f g') s' hr)⟩

theorem wp_handle {Rb : G → β → σ → Prop} (n : Node σ ε Q A Y α)
    (f : α → σ → Node σ ε Q A Y β) (h : ε → σ → Node σ ε Q A Y β) : ∀ g,
    (n.handle f h).wp Γ Rb E g ↔
      n.wp Γ (fun g a s => (f a s).wp Γ Rb E g) (fun g e s => (h e s).wp Γ Rb E g) g := by
  induction n with
  | done a s => exact fun g => Iff.rfl
  | raised e s => exact fun g => Iff.rfl
  | hang s => exact fun g => Iff.rfl
  | await q s k ih => intro g; simp only [handle, wp, ih]
  | yield y s k ih => intro g; simp only [handle, wp, ih]

@[simp] theorem wp_bind {Rb : G → β → σ → Prop} (n : Node σ ε Q A Y α)
    (f : α → σ → Node σ ε Q A Y β) (g : G) :
    (n.bind f).wp Γ Rb E g ↔ n.wp Γ (fun g a s => (f a s).wp Γ Rb E g) E g :=
  wp_handle n f raised g

@[simp] theorem wp_except (n : Node σ ε Q A Y α) (h : ε → σ → Node σ ε Q A Y α) (g : G) :
    (n.except h).wp Γ R E g ↔ n.wp Γ R (fun g e s => (h e s).wp Γ R E g) g :=
  wp_handle n done h g

@[simp] theorem wp_ensure (n : Node σ ε Q A Y α) (f : σ → Node σ ε Q A Y Unit) (g : G) :
    (n.ensure f).wp Γ R E g ↔
      n.wp Γ (fun g a s => (f s).wp Γ (fun g _ s => R g a s) E g)
        (fun g e s => (f s).wp Γ (fun g _ s => E g e s) E g) g := by
  unfold ensure
  rw [wp_handle]
  simp only [wp_bind]
  rfl

/-- A coroutine keeps its specification when it is awaited inside a generator. -/
theorem wp_lift {Γ₀ : Contract σ ε Q A G Empty} (hrely : ∀ {q r s s'}, Γ.rely q r s s' → Γ₀.rely q r s s')
    (hawait : ∀ g s, Γ₀.await g s → Γ.await g s) (hhang : ∀ g s, Γ₀.hang g s → Γ.hang g s)
    (n : Node σ ε Q A Empty α) (g : G) (h : n.wp Γ₀ R E g) : (n.lift : Node σ ε Q A Y α).wp Γ R E g := by
  induction n with
  | done a s => exact h
  | raised e s => exact h
  | hang s => exact hhang g s h
  | await q s k ih =>
    exact ⟨hawait g s h.1, fun r s' hr => ih r s' (h.2 r s' (hrely hr))⟩
  | yield y s k ih => exact y.elim

/-- A task awaited until it exits ends in `S`, when all its own outcomes do. -/
theorem wp_settle {Γ' : Contract σ ε Q A G Y'} {S : G → σ → Prop} {drop : ε → σ → σ}
    (hrely : ∀ {q r s s'}, Γ'.rely q r s s' → Γ.rely q r s s')
    (hawait : ∀ g s, Γ.await g s → Γ'.await g s) (hhang : ∀ g s, Γ.hang g s → Γ'.hang g s)
    (hR : ∀ g a s, R g a s → S g s) (hE : ∀ g e s, E g e s → S g (drop e s))
    (hY : ∀ g y s, Γ.yield g y s → S g s) (n : Node σ ε Q A Y α) (g : G) (h : n.wp Γ R E g) :
    (n.settle drop : Node σ ε Q A Y' Unit).wp Γ' (fun g _ s => S g s) E' g := by
  induction n with
  | done a s => exact hR g a s h
  | raised e s => exact hE g e s h
  | hang s => exact hhang g s h
  | await q s k ih =>
    exact ⟨hawait g s h.1, fun r s' hr => ih r s' (h.2 r s' (hrely hr))⟩
  | yield y s k ih => exact hY g y s h.1

/-- **The loop rule.** The generator is verified against a contract whose ghost holds the locals
of the loop; each pass of the body takes the state of a yield to a state the generator may be
resumed in, or leaves the loop. -/
theorem wp_forTry {Γ' : Contract σ ε Q A G Y'} {Γ : Contract σ ε Q A (β × G) Y}
    {R : β × G → Unit → σ → Prop} {E : β × G → ε → σ → Prop}
    {Rc : G → γ → σ → Prop} {Ec : G → ε → σ → Prop}
    {enter : β → Y → β} {body : β → Y → σ → Node σ ε Q A Y' (β ⊕ γ)}
    {after : β → σ → Node σ ε Q A Y' γ} {handler : β → ε → σ → Node σ ε Q A Y' γ}
    (hrely : ∀ {q r s s'}, Γ'.rely q r s s' → Γ.rely q r s s')
    (hawait : ∀ b g s, Γ.await (b, g) s → Γ'.await g s)
    (hhang : ∀ b g s, Γ.hang (b, g) s → Γ'.hang g s)
    (hbody : ∀ b g y s, Γ.yield (b, g) y s →
      (body (enter b y) y s).wp Γ'
        (fun g' r s' => match r with
          | .inl b' => Γ.resume (b, g) y s .next (b', g') s'
          | .inr c => Rc g' c s')
        (fun g' e s' => (handler (enter b y) e s').wp Γ' Rc Ec g') g)
    (hafter : ∀ b g s, R (b, g) () s → (after b s).wp Γ' Rc Ec g)
    (hhandler : ∀ b g e s, E (b, g) e s → (handler b e s).wp Γ' Rc Ec g)
    (n : Node σ ε Q A Y Unit) : ∀ b g, n.wp Γ R E (b, g) →
      (n.forTry enter body after handler b).wp Γ' Rc Ec g := by
  induction n with
  | done a s => exact fun b g h => hafter b g s h
  | raised e s => exact fun b g h => hhandler b g e s h
  | hang s => exact fun b g h => hhang b g s h
  | await q s k ih =>
    exact fun b g h => ⟨hawait b g s h.1, fun r s' hr => ih r s' b g (h.2 r s' (hrely hr))⟩
  | yield y s k ih =>
    intro b g h
    rw [forTry, wp_handle]
    refine wp_mono ?_ (fun _ _ _ he => he) _ g (hbody b g y s h.1)
    intro g' r s' hr
    cases r with
    | inl b' => exact ih .next s' b' g' (h.2 .next (b', g') s' hr)
    | inr c => exact hr

/-! ## Soundness -/

/-- A move that is in `answers` where the coroutine awaits, and in `resumes` where it has yielded. -/
def Allows (answers : (q : Q) → Except ε (A q) → σ → σ → Prop) (resumes : Y → Resume → σ → σ → Prop)
    (m : Move σ ε Q A) : Node σ ε Q A Y α → Prop
  | await q s _ => answers q (m.reply q) s (m.disturb s)
  | yield y s _ => resumes y m.signal s (m.disturb s)
  | _ => True

/-- A run each of whose moves is allowed at the node it is made at. -/
def Along (answers : (q : Q) → Except ε (A q) → σ → σ → Prop) (resumes : Y → Resume → σ → σ → Prop) :
    Node σ ε Q A Y α → List (Move σ ε Q A) → Prop
  | _, [] => True
  | n, m :: ms => n.Allows answers resumes m ∧ (n.step m).Along answers resumes ms

variable {answers : (q : Q) → Except ε (A q) → σ → σ → Prop} {resumes : Y → Resume → σ → σ → Prop}

theorem wp_step (hrely : ∀ {q r s s'}, answers q r s s' → Γ.rely q r s s')
    (hresume : ∀ {g y r s s'}, resumes y r s s' → Γ.resume g y s r g s') {n : Node σ ε Q A Y α} {g : G}
    (h : n.wp Γ R E g) {m : Move σ ε Q A} (hm : n.Allows answers resumes m) : (n.step m).wp Γ R E g := by
  cases n with
  | done a s => exact h
  | raised e s => exact h
  | hang s => exact h
  | await q s k => exact h.2 _ _ (hrely hm)
  | yield y s k => exact h.2 _ _ _ (hresume hm)

/-- **Soundness.** Every node a run reaches meets the contract, for every list of moves that keeps to
the contract where each move is made. -/
theorem wp_play_along (hrely : ∀ {q r s s'}, answers q r s s' → Γ.rely q r s s')
    (hresume : ∀ {g y r s s'}, resumes y r s s' → Γ.resume g y s r g s') :
    ∀ (ms : List (Move σ ε Q A)) {n : Node σ ε Q A Y α} {g : G}, n.wp Γ R E g →
      n.Along answers resumes ms → (n.play ms).Meets Γ R E g
  | [], _, _, h, _ => wp_meets h
  | m :: ms, _, _, h, hms => by
    rw [play_cons]
    exact wp_play_along hrely hresume ms (wp_step hrely hresume h hms.1) hms.2

/-- Moves that are allowed wherever they are made. -/
theorem along_of_moves : ∀ (ms : List (Move σ ε Q A)) (n : Node σ ε Q A Y α),
    (∀ m ∈ ms, (∀ q s, answers q (m.reply q) s (m.disturb s)) ∧ ∀ y s, resumes y m.signal s (m.disturb s)) →
      n.Along answers resumes ms
  | [], _, _ => trivial
  | m :: ms, n, h => by
    refine ⟨?_, along_of_moves ms _ fun m' hm' => h m' (List.mem_cons_of_mem _ hm')⟩
    cases n with
    | await q s k => exact (h m List.mem_cons_self).1 q s
    | yield y s k => exact (h m List.mem_cons_self).2 y s
    | _ => exact trivial

theorem along_of_finished {n : Node σ ε Q A Y α} (h : n.Finished) (ms : List (Move σ ε Q A)) :
    n.Along answers resumes ms := by
  induction ms with
  | nil => trivial
  | cons m ms ih =>
    refine ⟨?_, by rwa [step_of_finished h]⟩
    cases n with
    | await q s k | yield y s k => exact h.elim
    | _ => trivial

/-- Where a contract admits neither an exception nor a wait that nothing ends, every run returns. -/
theorem wp_total (hrely : ∀ {q r s s'}, answers q r s s' → Γ.rely q r s s')
    (hresume : ∀ {g y r s s'}, resumes y r s s' → Γ.resume g y s r g s') {n : Node σ ε Q A Y α} {g : G}
    (h : n.wp Γ R (fun _ _ _ => False) g) (hhang : ∀ s, ¬ Γ.hang g s) {ms : Nat → Move σ ε Q A}
    (hms : ∀ k, n.Along answers resumes ((List.range k).map ms)) :
    ∃ k a s, n.play ((List.range k).map ms) = done a s ∧ R g a s := by
  obtain ⟨k, hend⟩ := n.ends ms
  have hmeets := wp_play_along hrely hresume _ h (hms k)
  cases hn : n.play ((List.range k).map ms) with
  | done a s =>
    rw [hn] at hmeets
    exact ⟨k, a, s, hn, hmeets⟩
  | raised e s =>
    rw [hn] at hmeets
    exact hmeets.elim
  | hang s =>
    rw [hn] at hmeets
    exact absurd hmeets (hhang s)
  | await q s k =>
    rw [hn] at hend
    rcases hend with hend | ⟨_, hend⟩
    · exact hend.elim
    · cases hend
  | yield y s k =>
    rw [hn] at hend
    rcases hend with hend | ⟨_, hend⟩
    · exact hend.elim
    · cases hend

/-- The same, where the moves are restricted in what they do to the state only. -/
theorem wp_play {D : σ → σ → Prop} (hrely : ∀ {q r s s'}, D s s' → Γ.rely q r s s')
    (hresume : ∀ {g y r s s'}, D s s' → Γ.resume g y s r g s') (ms : List (Move σ ε Q A))
    {n : Node σ ε Q A Y α} {g : G} (h : n.wp Γ R E g) (hms : ∀ m ∈ ms, ∀ s, D s (m.disturb s)) :
    (n.play ms).Meets Γ R E g :=
  have hallowed : n.Along (fun _ _ => D) (fun _ _ => D) ms :=
    along_of_moves ms n fun m hm => ⟨fun _ => hms m hm, fun _ => hms m hm⟩
  wp_play_along hrely hresume ms h hallowed

end Node

/-! ## Rules for the monad -/

namespace Proc

variable {Γ : Contract σ ε Q A G Y} {R : G → α → σ → Prop} {E : G → ε → σ → Prop}

@[simp] theorem wp_pure (a : α) (s : σ) (g : G) :
    ((pure a : Proc σ ε Q A Y α) s).wp Γ R E g ↔ R g a s := Iff.rfl

@[simp] theorem wp_bind' {Rb : G → β → σ → Prop} (p : Proc σ ε Q A Y α)
    (f : α → Proc σ ε Q A Y β) (s : σ) (g : G) :
    ((p >>= f) s).wp Γ Rb E g ↔ (p s).wp Γ (fun g a s => (f a s).wp Γ Rb E g) E g :=
  Node.wp_bind _ _ _

@[simp] theorem wp_throw (e : ε) (s : σ) (g : G) :
    ((throw e : Proc σ ε Q A Y α) s).wp Γ R E g ↔ E g e s := Iff.rfl

@[simp] theorem wp_get {R : G → σ → σ → Prop} (s : σ) (g : G) :
    ((get : Proc σ ε Q A Y σ) s).wp Γ R E g ↔ R g s s := Iff.rfl

@[simp] theorem wp_modify {R : G → Unit → σ → Prop} (f : σ → σ) (s : σ) (g : G) :
    ((modify f : Proc σ ε Q A Y Unit) s).wp Γ R E g ↔ R g () (f s) := Iff.rfl

theorem wp_ask {q : Q} {R : G → A q → σ → Prop} (s : σ) (g : G) :
    ((ask q : Proc σ ε Q A Y (A q)) s).wp Γ R E g ↔
      Γ.await g s ∧ ∀ s', (∀ a, Γ.rely q (.ok a) s s' → R g a s') ∧
        ∀ e, Γ.rely q (.error e) s s' → E g e s' := by
  unfold ask
  simp only [Node.wp]
  refine and_congr_right fun _ => ⟨fun h s' => ⟨fun a => h (.ok a) s', fun e => h (.error e) s'⟩,
    fun h r s' hs => ?_⟩
  cases r with
  | ok a => exact (h s').1 a hs
  | error e => exact (h s').2 e hs

theorem wp_yield {R : G → Unit → σ → Prop} (closed : ε) (y : Y) (s : σ) (g : G) :
    ((yield closed y : Proc σ ε Q A Y Unit) s).wp Γ R E g ↔
      Γ.yield g y s ∧ ∀ g' s', (Γ.resume g y s .next g' s' → R g' () s') ∧
        (Γ.resume g y s .close g' s' → E g' closed s') := by
  unfold yield
  simp only [Node.wp]
  refine and_congr_right fun _ => ⟨fun h g' s' => ⟨h .next g' s', h .close g' s'⟩, fun h r g' s' hr => ?_⟩
  cases r with
  | next => exact (h g' s').1 hr
  | close => exact (h g' s').2 hr

@[simp] theorem wp_tryCatch (p : Proc σ ε Q A Y α) (h : ε → Proc σ ε Q A Y α) (s : σ) (g : G) :
    ((tryCatch p h) s).wp Γ R E g ↔ (p s).wp Γ R (fun g e s => (h e s).wp Γ R E g) g :=
  Node.wp_except _ _ _

@[simp] theorem wp_tryFinally (p : Proc σ ε Q A Y α) (f : Proc σ ε Q A Y Unit) (s : σ) (g : G) :
    ((tryFinally p f) s).wp Γ R E g ↔
      (p s).wp Γ (fun g a s => (f s).wp Γ (fun g _ s => R g a s) E g)
        (fun g e s => (f s).wp Γ (fun g _ s => E g e s) E g) g :=
  Node.wp_ensure _ _ _

@[simp] theorem wp_ite (c : Prop) [Decidable c] (p q : Proc σ ε Q A Y α) (s : σ) (g : G) :
    ((if c then p else q) s).wp Γ R E g ↔ if c then (p s).wp Γ R E g else (q s).wp Γ R E g := by
  split <;> rfl

end Proc

end Async
