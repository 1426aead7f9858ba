import Mathlib.Data.List.Forall2

/-!
# Journals of idempotent operations

A store that files what it committed under the key of the call, and answers a call whose key is
on file from there, without touching the state.

* `Journal` — the calls, their keys, the file and how it answers; `Journal.run` issues calls in
  order;
* `Journal.Idempotent` — what each call owes: it keeps what is on file, it answers from the file
  when it can, and a first success is filed so that the file answers the same from then on;
* `Journal.Idempotent.replay_run` — issuing again, in order, every call that returned changes
  nothing and returns the same.
-/

set_option autoImplicit false

/-- A store of state `S` for calls `C` with results `R`; entries `O` are filed under keys `K`. -/
structure Journal (S C R K O E : Type) where
  exec : S → C → Except E R × S
  key : C → K
  lookup : S → K → Option O
  answer : O → C → Except E R

namespace Journal

variable {S C R K O E : Type}

/-- Issue calls in order: the outcome of each, and the state after the last. -/
def run (J : Journal S C R K O E) (s : S) : List C → List (Except E R) × S
  | [] => ([], s)
  | c :: cs =>
    let (r, s) := J.exec s c
    let (rs, s) := J.run s cs
    (r :: rs, s)

/-- The calls that returned normally, with their results. -/
def returned : List C → List (Except E R) → List (C × R)
  | c :: cs, .ok r :: rs => (c, r) :: returned cs rs
  | _ :: cs, .error _ :: rs => returned cs rs
  | _, _ => []

/-- `Again c c'`: the call `c'` issues `c` again. `echo` is a result as a replay returns it. -/
structure Idempotent (J : Journal S C R K O E) (Inv : S → Prop) (Again : C → C → Prop)
    (echo : R → R) : Prop where
  again_key : ∀ {c c'}, Again c c' → J.key c' = J.key c
  again_answer : ∀ {c c' o r}, Again c c' → J.answer o c = .ok r → J.answer o c' = .ok r
  echo_answer : ∀ {c o r}, J.answer o c = .ok r → echo r = r
  step : ∀ {s c}, Inv s → Inv (J.exec s c).2
  persist : ∀ {s c k o}, Inv s → J.lookup s k = some o → J.lookup (J.exec s c).2 k = some o
  replay : ∀ {s c o}, Inv s → J.lookup s (J.key c) = some o → J.exec s c = (J.answer o c, s)
  first : ∀ {s c r s'}, Inv s → J.lookup s (J.key c) = none → J.exec s c = (.ok r, s') →
    ∃ o, J.lookup s' (J.key c) = some o ∧ J.answer o c = .ok (echo r)

namespace Idempotent

variable {J : Journal S C R K O E} {Inv : S → Prop} {Again : C → C → Prop} {echo : R → R}

/-- The file answers `c` with the echo of `r`. -/
def Filed (J : Journal S C R K O E) (echo : R → R) (s : S) (c : C) (r : R) : Prop :=
  ∃ o, J.lookup s (J.key c) = some o ∧ J.answer o c = .ok (echo r)

theorem run_step (h : J.Idempotent Inv Again echo) :
    ∀ (cs : List C) {s : S}, Inv s → Inv (J.run s cs).2
  | [], _, hs => hs
  | _ :: cs, _, hs => h.run_step cs (h.step hs)

theorem run_persist (h : J.Idempotent Inv Again echo) :
    ∀ (cs : List C) {s : S} {k : K} {o : O}, Inv s → J.lookup s k = some o →
      J.lookup (J.run s cs).2 k = some o
  | [], _, _, _, _, ho => ho
  | _ :: cs, _, _, _, hs, ho => h.run_persist cs (h.step hs) (h.persist hs ho)

/-- A call that returned is on file afterwards, first submission or replay. -/
theorem exec_filed (h : J.Idempotent Inv Again echo) {s s' : S} {c : C} {r : R} (hs : Inv s)
    (hc : J.exec s c = (.ok r, s')) : Filed J echo s' c r := by
  cases ho : J.lookup s (J.key c) with
  | none => exact h.first hs ho hc
  | some o =>
    obtain ⟨ha, rfl⟩ := Prod.mk.inj ((h.replay hs ho).symm.trans hc)
    exact ⟨o, ho, by rw [ha, h.echo_answer ha]⟩

/-- Every call that returned in a run is on file at its end. -/
theorem run_filed (h : J.Idempotent Inv Again echo) :
    ∀ (cs : List C) {s : S}, Inv s → ∀ p ∈ returned cs (J.run s cs).1,
      Filed J echo (J.run s cs).2 p.1 p.2
  | [], _, _, p, hp => by cases hp
  | c :: cs, s, hs, p, hp => by
    have hrest := h.run_filed cs (s := (J.exec s c).2) (h.step hs) p
    cases hc : (J.exec s c).1 with
    | error e =>
      simp only [run, returned, hc] at hp
      exact hrest hp
    | ok r =>
      simp only [run, returned, hc, List.mem_cons] at hp
      rcases hp with rfl | hp
      · obtain ⟨o, ho, ha⟩ := h.exec_filed hs (Prod.ext hc rfl)
        exact ⟨o, h.run_persist cs (h.step hs) ho, ha⟩
      · exact hrest hp

theorem run_again (h : J.Idempotent Inv Again echo) {s : S} (hs : Inv s) {ps : List (C × R)}
    {cs : List C} (hcs : List.Forall₂ (fun p c => Again p.1 c) ps cs) :
    (∀ p ∈ ps, Filed J echo s p.1 p.2) → J.run s cs = (ps.map fun p => .ok (echo p.2), s) := by
  induction hcs with
  | nil => exact fun _ => rfl
  | @cons p c ps cs hpc _ ih =>
    intro hps
    obtain ⟨o, ho, ha⟩ := hps p List.mem_cons_self
    have hexec : J.exec s c = (.ok (echo p.2), s) := by
      rw [h.replay hs (by rw [h.again_key hpc]; exact ho), h.again_answer hpc ha]
    simp only [run, hexec, ih fun p hp => hps p (List.mem_cons_of_mem _ hp), List.map_cons]

/-- **Replay.** After any run, issuing again every call that returned changes nothing and returns
the same results, up to `echo`. -/
theorem replay_run (h : J.Idempotent Inv Again echo) {s : S} (hs : Inv s) (cs cs' : List C)
    (hcs : List.Forall₂ (fun p c => Again p.1 c) (returned cs (J.run s cs).1) cs') :
    J.run (J.run s cs).2 cs' =
      ((returned cs (J.run s cs).1).map fun p => .ok (echo p.2), (J.run s cs).2) :=
  h.run_again (h.run_step cs hs) hcs (h.run_filed cs hs)

end Idempotent

end Journal
