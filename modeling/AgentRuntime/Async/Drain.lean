import AgentRuntime.Async.Node

/-!
# Drained generators

What a consumer gets out of a generator that it pulls to the end, item by item.

* `Node.Ends` — a run to the end: the items, and how it ended. Queries are answered as `may` allows, with
  any state; behind an item the consumer comes back with a state that `pull` allows;
* `Node.Offers` — a run to an item that is not pulled past;
* `ends_handle`, `ends_lift`, `ends_forEach`, `ends_fold` — the rules of the combinators.
-/

set_option autoImplicit false

namespace Async

/-- Whatever the consumer does before it comes back. -/
def anyState {σ : Type} (_ _ : σ) : Prop := True

namespace Node

variable {σ ε Q : Type} {A : Q → Type} {Y Y' α β γ : Type} {may : (q : Q) → Except ε (A q) → Prop}
  {pull pull' : σ → σ → Prop}

/-- The generator yields `ys`, and then returns or raises. -/
inductive Ends (may : (q : Q) → Except ε (A q) → Prop) (pull : σ → σ → Prop) :
    Node σ ε Q A Y α → List Y → Except ε α → σ → Prop where
  | done (a : α) (s : σ) : Ends may pull (done a s) [] (.ok a) s
  | raised (e : ε) (s : σ) : Ends may pull (raised e s) [] (.error e) s
  | await {q : Q} {s₀ s : σ} {k : Except ε (A q) → σ → Node σ ε Q A Y α} {ys : List Y}
      {o : Except ε α} (r : Except ε (A q)) (s' : σ) :
      may q r → Ends may pull (k r s') ys o s → Ends may pull (await q s₀ k) ys o s
  | yield {y : Y} {s₀ s : σ} {k : Resume → σ → Node σ ε Q A Y α} {ys : List Y} {o : Except ε α}
      (s' : σ) : pull s₀ s' → Ends may pull (k .next s') ys o s → Ends may pull (yield y s₀ k) (y :: ys) o s

/-- The generator yields `ys`, and then `y`, where it is left. -/
inductive Offers (may : (q : Q) → Except ε (A q) → Prop) (pull : σ → σ → Prop) :
    Node σ ε Q A Y α → List Y → Y → Prop where
  | here (y : Y) (s : σ) (k : Resume → σ → Node σ ε Q A Y α) : Offers may pull (yield y s k) [] y
  | await {q : Q} {s₀ : σ} {k : Except ε (A q) → σ → Node σ ε Q A Y α} {ys : List Y} {y : Y}
      (r : Except ε (A q)) (s' : σ) :
      may q r → Offers may pull (k r s') ys y → Offers may pull (await q s₀ k) ys y
  | yield {y' : Y} {s₀ : σ} {k : Resume → σ → Node σ ε Q A Y α} {ys : List Y} {y : Y} (s' : σ) :
      pull s₀ s' → Offers may pull (k .next s') ys y → Offers may pull (yield y' s₀ k) (y' :: ys) y

/-! ## Leaves -/

theorem ends_done {a : α} {s s' : σ} {ys : List Y} {o : Except ε α} :
    Ends may pull (done a s : Node σ ε Q A Y α) ys o s' ↔ ys = [] ∧ o = .ok a ∧ s' = s := by
  constructor
  · intro h
    cases h
    exact ⟨rfl, rfl, rfl⟩
  · rintro ⟨rfl, rfl, rfl⟩
    exact .done a _

theorem ends_raised {e : ε} {s s' : σ} {ys : List Y} {o : Except ε α} :
    Ends may pull (raised e s : Node σ ε Q A Y α) ys o s' ↔ ys = [] ∧ o = .error e ∧ s' = s := by
  constructor
  · intro h
    cases h
    exact ⟨rfl, rfl, rfl⟩
  · rintro ⟨rfl, rfl, rfl⟩
    exact .raised e _

theorem ends_await {q : Q} {s s' : σ} {k : Except ε (A q) → σ → Node σ ε Q A Y α} {ys : List Y}
    {o : Except ε α} :
    Ends may pull (await q s k) ys o s' ↔ ∃ r s₁, may q r ∧ Ends may pull (k r s₁) ys o s' := by
  constructor
  · intro h
    cases h with
    | await r s₁ hr h => exact ⟨r, s₁, hr, h⟩
  · rintro ⟨r, s₁, hr, h⟩
    exact .await r s₁ hr h

theorem ends_yield {y : Y} {s s' : σ} {k : Resume → σ → Node σ ε Q A Y α} {ys : List Y}
    {o : Except ε α} :
    Ends may pull (yield y s k) ys o s' ↔
      ∃ ys' s₁, ys = y :: ys' ∧ pull s s₁ ∧ Ends may pull (k .next s₁) ys' o s' := by
  constructor
  · intro h
    cases h with
    | yield s₁ hp h => exact ⟨_, s₁, rfl, hp, h⟩
  · rintro ⟨ys', s₁, rfl, hp, h⟩
    exact .yield s₁ hp h

theorem not_ends_hang {s s' : σ} {ys : List Y} {o : Except ε α} :
    ¬ Ends may pull (hang s : Node σ ε Q A Y α) ys o s' := nofun

theorem offers_yield {y y' : Y} {s : σ} {k : Resume → σ → Node σ ε Q A Y α} {ys : List Y} :
    Offers may pull (yield y s k) ys y' ↔
      ys = [] ∧ y' = y ∨
        ∃ ys' s₁, ys = y :: ys' ∧ pull s s₁ ∧ Offers may pull (k .next s₁) ys' y' := by
  constructor
  · intro h
    cases h with
    | here => exact .inl ⟨rfl, rfl⟩
    | yield s₁ hp h => exact .inr ⟨_, s₁, rfl, hp, h⟩
  · rintro (⟨rfl, rfl⟩ | ⟨ys', s₁, rfl, hp, h⟩)
    · exact .here _ _ _
    · exact .yield s₁ hp h

theorem offers_await {q : Q} {s : σ} {k : Except ε (A q) → σ → Node σ ε Q A Y α} {ys : List Y} {y : Y} :
    Offers may pull (await q s k) ys y ↔ ∃ r s₁, may q r ∧ Offers may pull (k r s₁) ys y := by
  constructor
  · intro h
    cases h with
    | await r s₁ hr h => exact ⟨r, s₁, hr, h⟩
  · rintro ⟨r, s₁, hr, h⟩
    exact .await r s₁ hr h

theorem Ends.mono {n : Node σ ε Q A Y α} {ys : List Y} {o : Except ε α} {s : σ}
    (h : Ends may pull n ys o s) (hpull : ∀ s s', pull s s' → pull' s s') : Ends may pull' n ys o s := by
  induction h with
  | done a s => exact .done a s
  | raised e s => exact .raised e s
  | await r s' hr _ ih => exact .await r s' hr ih
  | yield s' hp _ ih => exact .yield s' (hpull _ _ hp) ih

/-- Every item of a run was offered. -/
theorem offers_of_ends {y : Y} {ys zs : List Y} {o : Except ε α} {s : σ} {n : Node σ ε Q A Y α}
    (h : Ends may pull n (ys ++ y :: zs) o s) : Offers may pull n ys y := by
  generalize hall : ys ++ y :: zs = all at h
  induction h generalizing ys with
  | done a s => exact absurd hall (List.append_ne_nil_of_right_ne_nil ys (List.cons_ne_nil y zs))
  | raised e s => exact absurd hall (List.append_ne_nil_of_right_ne_nil ys (List.cons_ne_nil y zs))
  | await r s' hr _ ih => exact .await r s' hr (ih hall)
  | yield s' hp _ ih =>
    cases ys with
    | nil =>
      obtain ⟨rfl, -⟩ := List.cons.inj hall
      exact .here _ _ _
    | cons y' ys =>
      obtain ⟨rfl, htail⟩ := List.cons.inj hall
      exact .yield s' hp (ih htail)

/-! ## Combinators -/

/-- A run of a sequence is a run of its first part, and a run of what follows its outcome. -/
theorem ends_handle {f : α → σ → Node σ ε Q A Y β} {h : ε → σ → Node σ ε Q A Y β}
    (n : Node σ ε Q A Y α) : ∀ {zs : List Y} {o : Except ε β} {s : σ},
    Ends may pull (n.handle f h) zs o s ↔
      ∃ ys ws r s₁, zs = ys ++ ws ∧ Ends may pull n ys r s₁ ∧
        Ends may pull (match r with | .ok a => f a s₁ | .error e => h e s₁) ws o s := by
  induction n with
  | done a s₀ =>
    intro zs o s
    constructor
    · exact fun hends => ⟨[], zs, .ok a, s₀, rfl, .done a s₀, hends⟩
    · rintro ⟨ys, ws, r, s₁, rfl, hn, hends⟩
      cases hn
      exact hends
  | raised e s₀ =>
    intro zs o s
    constructor
    · exact fun hends => ⟨[], zs, .error e, s₀, rfl, .raised e s₀, hends⟩
    · rintro ⟨ys, ws, r, s₁, rfl, hn, hends⟩
      cases hn
      exact hends
  | hang s₀ =>
    intro zs o s
    constructor
    · exact fun hends => absurd hends not_ends_hang
    · rintro ⟨ys, ws, r, s₁, rfl, hn, hends⟩
      exact absurd hn not_ends_hang
  | await q s₀ k ih =>
    intro zs o s
    rw [handle, ends_await]
    constructor
    · rintro ⟨a, s₁, hmay, hends⟩
      obtain ⟨ys, ws, r, s₂, rfl, hn, hrest⟩ := (ih a s₁).mp hends
      exact ⟨ys, ws, r, s₂, rfl, .await a s₁ hmay hn, hrest⟩
    · rintro ⟨ys, ws, r, s₂, rfl, hn, hrest⟩
      obtain ⟨a, s₁, hmay, hn⟩ := ends_await.mp hn
      exact ⟨a, s₁, hmay, (ih a s₁).mpr ⟨ys, ws, r, s₂, rfl, hn, hrest⟩⟩
  | yield y s₀ k ih =>
    intro zs o s
    rw [handle, ends_yield]
    constructor
    · rintro ⟨zs', s₁, rfl, hp, hends⟩
      obtain ⟨ys, ws, r, s₂, rfl, hn, hrest⟩ := (ih .next s₁).mp hends
      exact ⟨y :: ys, ws, r, s₂, rfl, .yield s₁ hp hn, hrest⟩
    · rintro ⟨ys, ws, r, s₂, rfl, hn, hrest⟩
      obtain ⟨ys', s₁, rfl, hp, hk⟩ := ends_yield.mp hn
      exact ⟨ys' ++ ws, s₁, rfl, hp, (ih .next s₁).mpr ⟨ys', ws, r, s₂, rfl, hk, hrest⟩⟩

theorem ends_lift {n : Node σ ε Q A Empty α} : ∀ {ys : List Y} {o : Except ε α} {s : σ},
    Ends may pull (n.lift : Node σ ε Q A Y α) ys o s ↔ ys = [] ∧ Ends may pull' n [] o s := by
  induction n with
  | done a s₀ =>
    intro ys o s
    rw [lift, ends_done, ends_done]
    simp only [true_and]
  | raised e s₀ =>
    intro ys o s
    rw [lift, ends_raised, ends_raised]
    simp only [true_and]
  | hang s₀ =>
    intro ys o s
    exact ⟨fun h => absurd h not_ends_hang, fun h => absurd h.2 not_ends_hang⟩
  | await q s₀ k ih =>
    intro ys o s
    rw [lift, ends_await, ends_await]
    constructor
    · rintro ⟨r, s₁, hr, h⟩
      obtain ⟨hnil, h⟩ := (ih r s₁).mp h
      exact ⟨hnil, r, s₁, hr, h⟩
    · rintro ⟨hnil, r, s₁, hr, h⟩
      exact ⟨r, s₁, hr, (ih r s₁).mpr ⟨hnil, h⟩⟩
  | yield y s₀ k ih => exact y.elim

/-- An item of a sequence is one of its first part, or one of what follows its outcome. -/
theorem offers_handle {f : α → σ → Node σ ε Q A Y β} {h : ε → σ → Node σ ε Q A Y β}
    (n : Node σ ε Q A Y α) : ∀ {zs : List Y} {y : Y}, Offers may pull (n.handle f h) zs y →
      Offers may pull n zs y ∨ ∃ ys ws r s₁, zs = ys ++ ws ∧ Ends may pull n ys r s₁ ∧
        Offers may pull (match r with | .ok a => f a s₁ | .error e => h e s₁) ws y := by
  induction n with
  | done a s₀ =>
    intro zs y hoffers
    exact .inr ⟨[], zs, .ok a, s₀, rfl, .done a s₀, hoffers⟩
  | raised e s₀ =>
    intro zs y hoffers
    exact .inr ⟨[], zs, .error e, s₀, rfl, .raised e s₀, hoffers⟩
  | hang s₀ => exact nofun
  | await q s₀ k ih =>
    intro zs y hoffers
    obtain ⟨a, s₁, ha, hoffers⟩ := offers_await.mp hoffers
    rcases ih a s₁ hoffers with hn | ⟨ys, ws, r, s₂, rfl, hn, hrest⟩
    · exact .inl (.await a s₁ ha hn)
    · exact .inr ⟨ys, ws, r, s₂, rfl, .await a s₁ ha hn, hrest⟩
  | yield y' s₀ k ih =>
    intro zs y hoffers
    rcases offers_yield.mp hoffers with ⟨rfl, rfl⟩ | ⟨zs', s₁, rfl, hp, hoffers⟩
    · exact .inl (.here _ _ _)
    · rcases ih .next s₁ hoffers with hn | ⟨ys, ws, r, s₂, rfl, hn, hrest⟩
      · exact .inl (.yield s₁ hp hn)
      · exact .inr ⟨y' :: ys, ws, r, s₂, rfl, .yield s₁ hp hn, hrest⟩

theorem not_offers_lift {n : Node σ ε Q A Empty α} : ∀ {ys : List Y} {y : Y},
    ¬ Offers may pull (n.lift : Node σ ε Q A Y α) ys y := by
  induction n with
  | done a s₀ => exact nofun
  | raised e s₀ => exact nofun
  | hang s₀ => exact nofun
  | await q s₀ k ih =>
    intro ys y h
    obtain ⟨r, s₁, -, h⟩ := offers_await.mp h
    exact ih r s₁ h
  | yield y s₀ k ih => exact y.elim

/-- What a pass of the loop does with an item, whatever goes on meanwhile: it publishes `emit b y` and
goes on with `next b y`. -/
def EachPass (may : (q : Q) → Except ε (A q) → Prop) (pull pull' : σ → σ → Prop)
    (body : β → Y → σ → Node σ ε Q A Y' (β ⊕ γ)) (emit : β → Y → List Y') (next : β → Y → β) : Prop :=
  ∀ b y s zs r s', Ends may pull (body b y s) zs r s' →
    zs = emit b y ∧ r = .ok (.inl (next b y)) ∧ pull' s s'

/-- What the passes over the items publish. -/
def emitAll (emit : β → Y → List Y') (next : β → Y → β) : β → List Y → List Y'
  | _, [] => []
  | b, y :: ys => emit b y ++ emitAll emit next (next b y) ys

/-- **The loop rule.** The loop publishes what its passes publish, and then what follows it, or it ends
like its generator. -/
theorem ends_forEach {body : β → Y → σ → Node σ ε Q A Y' (β ⊕ γ)} {after : β → σ → Node σ ε Q A Y' γ}
    {emit : β → Y → List Y'} {next : β → Y → β} (hbody : EachPass may pull pull' body emit next)
    (n : Node σ ε Q A Y Unit) : ∀ {b : β} {zs : List Y'} {o : Except ε γ} {s : σ},
    Ends may pull (n.forEach body after b) zs o s →
      ∃ ys r s₁ tail, Ends may pull' n ys r s₁ ∧ zs = emitAll emit next b ys ++ tail ∧
        match r with
        | .ok _ => Ends may pull (after (ys.foldl next b) s₁) tail o s
        | .error e => tail = [] ∧ o = .error e := by
  induction n with
  | done a s₀ =>
    intro b zs o s h
    exact ⟨[], .ok (), s₀, zs, .done () s₀, rfl, h⟩
  | raised e s₀ =>
    intro b zs o s h
    obtain ⟨rfl, rfl, rfl⟩ := ends_raised.mp h
    exact ⟨[], .error e, s, [], .raised e s, rfl, rfl, rfl⟩
  | hang s₀ =>
    intro b zs o s h
    exact absurd h not_ends_hang
  | await q s₀ k ih =>
    intro b zs o s h
    obtain ⟨r, s₁, hr, h⟩ := ends_await.mp h
    obtain ⟨ys, r', s₂, tail, hn, hzs, hrest⟩ := ih r s₁ h
    exact ⟨ys, r', s₂, tail, .await r s₁ hr hn, hzs, hrest⟩
  | yield y s₀ k ih =>
    intro b zs o s h
    rw [forEach, forTry, ends_handle] at h
    obtain ⟨us, ws, r, s₁, rfl, hpass, h⟩ := h
    obtain ⟨rfl, rfl, hp⟩ := hbody b y s₀ us r s₁ hpass
    obtain ⟨ys, r', s₂, tail, hn, rfl, hrest⟩ := ih .next s₁ h
    exact ⟨y :: ys, r', s₂, tail, .yield s₁ hp hn, (List.append_assoc ..).symm, hrest⟩

/-- A loop whose passes come back where they began runs its generator to the end. -/
theorem ends_forEach_of {body : β → Y → σ → Node σ ε Q A Y' (β ⊕ γ)}
    {after : β → σ → Node σ ε Q A Y' γ} {emit : β → Y → List Y'} {next : β → Y → β}
    (hbody : ∀ b y s, Ends may pull (body b y s) (emit b y) (.ok (.inl (next b y))) s)
    {n : Node σ ε Q A Y Unit} {ys : List Y} {s₁ : σ} (hn : Ends may Eq n ys (.ok ()) s₁) :
    ∀ {b : β} {tail : List Y'} {o : Except ε γ} {s : σ},
      Ends may pull (after (ys.foldl next b) s₁) tail o s →
        Ends may pull (n.forEach body after b) (emitAll emit next b ys ++ tail) o s := by
  generalize hr : (Except.ok () : Except ε Unit) = r at hn
  induction hn with
  | done a s₀ => exact fun h => h
  | raised e s₀ => cases hr
  | await r' s' ha _ ih => exact fun h => .await r' s' ha (ih hr h)
  | yield s' hp _ ih =>
    intro b tail o s h
    obtain rfl := hp
    rw [forEach, forTry, ends_handle]
    exact ⟨_, _, _, _, (List.append_assoc ..), hbody .., ih hr h⟩

/-- A loop that only collects pulls its generator at once. -/
theorem ends_fold {next : β → Y → β} {after : β → σ → Node σ ε Q A Y' γ} (n : Node σ ε Q A Y Unit) :
    ∀ {b : β} {zs : List Y'} {o : Except ε γ} {s : σ},
      Ends may pull (n.forEach (fun b y s => done (.inl (next b y)) s) after b) zs o s ↔
        ∃ ys r s₁, Ends may Eq n ys r s₁ ∧
          match r with
          | .ok _ => Ends may pull (after (ys.foldl next b) s₁) zs o s
          | .error e => zs = [] ∧ o = .error e ∧ s = s₁ := by
  induction n with
  | done a s₀ =>
    intro b zs o s
    constructor
    · exact fun h => ⟨[], .ok (), s₀, .done () s₀, h⟩
    · rintro ⟨ys, r, s₁, hn, h⟩
      cases hn
      exact h
  | raised e s₀ =>
    intro b zs o s
    constructor
    · intro h
      exact ⟨[], .error e, s₀, .raised e s₀, ends_raised.mp h⟩
    · rintro ⟨ys, r, s₁, hn, h⟩
      cases hn
      exact ends_raised.mpr h
  | hang s₀ =>
    intro b zs o s
    constructor
    · exact fun h => absurd h not_ends_hang
    · rintro ⟨ys, r, s₁, hn, -⟩
      exact absurd hn not_ends_hang
  | await q s₀ k ih =>
    intro b zs o s
    rw [forEach, forTry, ends_await]
    constructor
    · rintro ⟨a, s₁, ha, h⟩
      obtain ⟨ys, r, s₂, hn, hrest⟩ := (ih a s₁).mp h
      exact ⟨ys, r, s₂, .await a s₁ ha hn, hrest⟩
    · rintro ⟨ys, r, s₂, hn, hrest⟩
      obtain ⟨a, s₁, ha, hk⟩ := ends_await.mp hn
      exact ⟨a, s₁, ha, (ih a s₁).mpr ⟨ys, r, s₂, hk, hrest⟩⟩
  | yield y s₀ k ih =>
    intro b zs o s
    change Ends may pull ((k .next s₀).forEach (fun b y s => done (.inl (next b y)) s) after (next b y))
      zs o s ↔ _
    rw [ih .next s₀]
    constructor
    · rintro ⟨ys, r, s₁, hn, hrest⟩
      exact ⟨y :: ys, r, s₁, .yield s₀ rfl hn, hrest⟩
    · rintro ⟨ys, r, s₁, hn, hrest⟩
      obtain ⟨ys', s₂, rfl, rfl, hk⟩ := ends_yield.mp hn
      exact ⟨ys', r, s₁, hk, hrest⟩

end Node

namespace Proc

variable {σ ε Q : Type} {A : Q → Type} {Y α β : Type} {may : (q : Q) → Except ε (A q) → Prop}
  {pull : σ → σ → Prop} {zs : List Y} {s s' : σ}

theorem ends_bind {p : Proc σ ε Q A Y α} {f : α → Proc σ ε Q A Y β} {o : Except ε β} :
    Node.Ends may pull ((p >>= f) s) zs o s' ↔
      ∃ ys ws r s₁, zs = ys ++ ws ∧ Node.Ends may pull (p s) ys r s₁ ∧
        Node.Ends may pull (match r with | .ok a => f a s₁ | .error e => .raised e s₁) ws o s' :=
  Node.ends_handle (p s)

theorem ends_tryCatch {p : Proc σ ε Q A Y α} {h : ε → Proc σ ε Q A Y α} {o : Except ε α} :
    Node.Ends may pull (tryCatch p h s) zs o s' ↔
      ∃ ys ws r s₁, zs = ys ++ ws ∧ Node.Ends may pull (p s) ys r s₁ ∧
        Node.Ends may pull (match r with | .ok a => .done a s₁ | .error e => h e s₁) ws o s' :=
  Node.ends_handle (p s)

end Proc

end Async
