import AgentRuntime.Recording.Invariants
import AgentRuntime.Steady

/-!
# Calm predicates

Predicates that a coroutine keeps whatever is raised.

* `Calm` — kept by interference, stops and lost exceptions; `Calm.steady` — such predicates are steady;
* `Offered` — an item may be yielded, with what holds when the consumer comes back;
* `guarding_run` — a generator that meets the contract `guarding safe` is safe at every node of every run;
* `Since` — what was done since the log was a given one;
* `Turn.published` — the snapshots of the capability session that a step of the environment publishes;
* `Beside` — what is known of the log and of the transcript, beside others that spare something of it.
-/

set_option autoImplicit false

namespace AgentRuntime

open Async

/-! ## Calm predicates -/

/-- What a wait notes of its own accord: a stop, or an exception that is lost. -/
def Action.aside : Action → Bool
  | .stopped _ | .masked => true
  | _ => false

/-- Kept by interference, stops and lost exceptions. -/
structure Calm (I : World → Prop) : Prop where
  interfere : ∀ {w} i, I w → I (w.interfere i)
  note : ∀ {w a}, a.aside = true → I w → I (w.note a)

namespace Calm

variable {G : Type} {I safe : World → Prop} {J F : G → World → Prop} {w w' : World}

theorem noteMasked (h : Calm I) (e : Exc) (hw : I w) : I (w.noteMasked e) := by
  unfold World.noteMasked
  split
  · exact h.note rfl hw
  · exact hw

theorem disturbed (h : Calm I) (hd : w.Disturbed w') (hw : I w) : I w' :=
  hd.keeps (fun _ i => h.interfere i) hw

theorem const (h : Calm I) (c : Prop) : Calm fun w => c ∧ I w :=
  ⟨fun i hw => ⟨hw.1, h.interfere i hw.2⟩, fun ha hw => ⟨hw.1, h.note ha hw.2⟩⟩

theorem and {I' : World → Prop} (h : Calm I) (h' : Calm I') : Calm fun w => I w ∧ I' w :=
  ⟨fun i hw => ⟨h.interfere i hw.1, h'.interfere i hw.2⟩,
    fun ha hw => ⟨h.note ha hw.1, h'.note ha hw.2⟩⟩

/-- Calm predicates are steady; whatever is raised, the same holds. -/
theorem steady (hsafe : Calm safe) (hJ : ∀ g {w} i, J g w → J g (w.interfere i))
    (hF : ∀ g, Calm (F g)) (hfail : ∀ g w, J g w → F g w) (hof : ∀ g w, F g w → safe w) :
    Steady safe J F fun g _ => F g where
  safe_of h := hof _ _ (hfail _ _ h)
  safe_exc h := hof _ _ h
  safe_interfere i h := hsafe.interfere i h
  interfere i h := hJ _ i h
  interfere_exc i h := (hF _).interfere i h
  lose h := hfail _ _ h
  throw _ h := h
  stop _ h := (hF _).note rfl h
  masked {_ e _} h := (hF _).noteMasked e h

/-- What is kept with a fixed ghost. -/
theorem fixed {I : World → Prop} (h : Calm I) (g : G) :
    Steady I (fun g' w => g' = g ∧ I w) (fun g' w => g' = g ∧ I w) (fun g' _ w => g' = g ∧ I w) :=
  h.steady (fun g' => (h.const (g' = g)).interfere) (fun g' => h.const (g' = g)) (fun _ _ h => h)
    (fun _ _ h => h.2)

theorem noteRaised (h : Calm I) (e : Exc) (hw : I w) : I (w.noteRaised e) :=
  ((h.fixed ()).raised e ⟨rfl, hw⟩).2

end Calm

/-! ## Items that are offered -/

section Offered

variable {G : Type}

/-- An item may be yielded; the consumer comes back to `Next`, or closes. -/
structure Offered {Y : Type} (C : RunContract G Y) (safe : World → Prop) (g : G) (item : Y) (w : World)
    (Next : G → World → Prop) : Prop where
  yield : C.yield g item w
  next : ∀ {g' w'}, C.resume g item w .next g' w' → w.Resumed w' ∧ Next g' w'
  close : ∀ {g' w'}, C.resume g item w .close g' w' → safe w'

theorem Offered.mono {Y : Type} {C : RunContract G Y} {safe : World → Prop} {g : G} {item : Y}
    {w : World} {Next Next' : G → World → Prop} (h : Offered C safe g item w Next)
    (hNext : ∀ g w, Next g w → Next' g w) : Offered C safe g item w Next' :=
  ⟨h.yield, fun hr => ⟨(h.next hr).1, hNext _ _ (h.next hr).2⟩, h.close⟩

/-- An item is published to the consumer. -/
theorem Offered.wp_publish {p : Phase} {C : RunContract G p.Event} {safe : World → Prop} {g : G}
    {event : p.Event} {w : World} {Next : G → World → Prop}
    (h : Offered C safe g event (w.note (.published p event)) Next) :
    ((publish p event : Gen p.Event Unit) w).wp C (fun g' _ w' => w.Resumed w' ∧ Next g' w')
      (fun _ e w' => e = .generatorExit ∧ safe w') g := by
  refine (Proc.wp_bind' _ _ w g).mpr ((Proc.wp_yield _ _ _ _).mpr ⟨h.yield, fun g' w' => ⟨fun hr => ?_, ?_⟩⟩)
  · exact ⟨(World.Resumed.note rfl).trans (h.next hr).1, (h.next hr).2⟩
  · exact fun hr => ⟨rfl, h.close hr⟩

end Offered

/-! ## Runs -/

section Guarding

variable {Y α : Type} {safe : World → Prop} {w : World}

/-- The contract of a generator that is safe at every node, whatever its consumer does. -/
def guarding (safe : World → Prop) : RunContract Unit Y where
  rely _ _ := World.Disturbed
  await _ := safe
  hang _ _ := False
  yield _ _ := safe
  resume _ _ w _ _ w' := w.Disturbed w'

theorem tame_guarding : Tame safe (guarding safe : RunContract Unit Y) := ⟨id, id⟩

theorem Calm.wp_publish (hsafe : Calm safe) {p : Phase} {event : p.Event}
    (h : safe (w.note (.published p event))) :
    ((publish p event : Gen p.Event Unit) w).wp (guarding safe)
      (fun _ _ w' => (w.note (.published p event)).Disturbed w')
      (fun _ e w' => e = .generatorExit ∧ safe w') () := by
  refine (Proc.wp_bind' _ _ w ()).mpr ((Proc.wp_yield _ _ _ _).mpr ⟨h, fun _ w' => ?_⟩)
  exact ⟨fun hd => hd, fun hd => ⟨rfl, hsafe.disturbed hd h⟩⟩

/-- What is offered to a consumer that does what it likes stays so while it is disturbed. -/
theorem offered_guarding {item : Y} {Next : World → Prop} (hsafe : ∀ w, Next w → safe w)
    (hNext : Calm Next) (h : Next w) : Offered (guarding safe) safe () item w fun _ => Next :=
  ⟨hsafe w h, fun hd => ⟨hd.resumed, hNext.disturbed hd h⟩, fun hd => hsafe _ (hNext.disturbed hd h)⟩

/-- What is offered to a consumer that keeps to what it was given. -/
theorem offered_promising {G : Type} {J : G → World → Prop} {ok : G → Y → World → Prop}
    {next : G → Y → G → Prop} {g : G} {item : Y} (h : J g w) (hok : ok g item w) :
    Offered (promising safe J ok next) safe g item w J :=
  ⟨⟨h, hok⟩, fun hr => ⟨hr.2.1, hr.2.2.2⟩, fun hr => by cases hr.1⟩

/-- Every node of every run is safe. -/
theorem guarding_run {p : Gen Y α}
    (h : (p w).wp (guarding safe) (fun _ _ => safe) (fun _ _ => safe) ()) (turns : List Turn) :
    safe (p.run w turns).state := by
  have hmeets := Node.wp_play id id (turns.map Turn.toMove) h (turns_disturb turns)
  change safe ((p w).play (turns.map Turn.toMove)).state
  generalize (p w).play (turns.map Turn.toMove) = n at hmeets
  cases n with
  | hang _ => exact hmeets.elim
  | done _ _ | raised _ _ | await _ _ _ | yield _ _ _ => exact hmeets

end Guarding

/-! ## What was done since -/

/-- Since the log was `base`, `P` holds of what was done. -/
def Since (base : List Action) (P : List Action → Prop) (w : World) : Prop :=
  ∃ added, w.log = base ++ added ∧ P added

section Since

variable {base : List Action} {P P' : List Action → Prop} {w w' : World} {a : Action}

theorem Since.note (h : Since base P w) (ha : ∀ as, P as → P' (as ++ [a])) :
    Since base P' (w.note a) := by
  obtain ⟨added, hlog, hP⟩ := h
  exact ⟨added ++ [a], by rw [World.note, hlog, List.append_assoc], ha added hP⟩

theorem Since.mono (h : Since base P w) (hP : ∀ as, P as → P' as) : Since base P' w := by
  obtain ⟨added, hlog, h⟩ := h
  exact ⟨added, hlog, hP added h⟩

/-- What is done is not interfered with. -/
theorem Since.same (h : Since base P w) (hlog : w'.log = w.log) : Since base P w' := by
  obtain ⟨added, hadded, h⟩ := h
  exact ⟨added, hlog.trans hadded, h⟩

theorem Since.calm (h : ∀ as a, a.aside = true → P as → P (as ++ [a])) : Calm (Since base P) :=
  ⟨fun {w} i hw => hw.same (w.interfere_log i), fun {_ a} ha hw => hw.note fun as => h as a ha⟩

end Since

/-! ## Contributions and capabilities -/

theorem World.interfere_extraContributions (w : World) (i : Interference) :
    w.extraContributions <+: (w.interfere i).extraContributions := by
  cases i with
  | addContributions items => exact List.prefix_append _ _
  | record call =>
    simp only [World.interfere]
    split <;> exact List.prefix_refl _
  | reserve tokens =>
    simp only [World.interfere]
    split <;> exact List.prefix_refl _
  | _ => exact List.prefix_refl _

theorem World.interfere_contributors (w : World) (i : Interference) :
    (w.interfere i).contributorCache = w.contributorCache ∧ (w.interfere i).contributed = w.contributed := by
  cases i with
  | record call =>
    simp only [World.interfere]
    split <;> exact ⟨rfl, rfl⟩
  | reserve tokens =>
    simp only [World.interfere]
    split <;> exact ⟨rfl, rfl⟩
  | _ => exact ⟨rfl, rfl⟩

/-- The snapshot that becomes the current one of the capability session. -/
def Interference.published? : Interference → Option CapabilitySnapshot
  | publishCapabilities snapshot => some snapshot
  | _ => none

def Turn.published (t : Turn) : List CapabilitySnapshot := t.interference.filterMap (·.published?)

theorem World.interfere_capabilities (w : World) (i : Interference) :
    (w.interfere i).capabilities = w.capabilities ∨
      i.published? = some (w.interfere i).capabilities := by
  cases i with
  | record call =>
    simp only [interfere]
    split <;> exact .inl rfl
  | reserve tokens =>
    simp only [interfere]
    split <;> exact .inl rfl
  | publishCapabilities snapshot => exact .inr rfl
  | _ => exact .inl rfl

theorem World.interfereAll_capabilities (is : List Interference) :
    ∀ w : World, (w.interfereAll is).capabilities ∈ w.capabilities :: is.filterMap (·.published?) := by
  induction is with
  | nil => exact fun _ => List.mem_cons_self
  | cons i is ih =>
    intro w
    rw [List.filterMap_cons]
    have hrest := ih (w.interfere i)
    change ((w.interfere i).interfereAll is).capabilities ∈ _
    rcases w.interfere_capabilities i with hsame | hpublished
    · rw [hsame] at hrest
      rcases List.mem_cons.mp hrest with heq | hmem
      · rw [heq]
        exact List.mem_cons_self
      · cases i.published? with
        | none => exact List.mem_cons_of_mem _ hmem
        | some snapshot => exact List.mem_cons_of_mem _ (List.mem_cons_of_mem _ hmem)
    · rw [hpublished]
      exact List.mem_cons_of_mem _ hrest

/-! ## Beside others -/

/-- What happens to a transcript beside the run: a call of somebody else, or an injected failure. -/
inductive MemoryTranscript.Spared (spares : Call → Prop) (t : MemoryTranscript) :
    MemoryTranscript → Prop
  | call (c : Call) (h : spares c) : Spared spares t (c.exec t).2
  | failure (opId : String) : Spared spares t (t.injectWriteFailure opId)

/-- The calls of others spare something; since the log was `base`, `P` holds of what was done and of the
transcript. -/
structure Beside (spares : Call → Prop) (base : List Action)
    (P : List Action → MemoryTranscript → Prop) (w : World) : Prop where
  others : ∀ call, w.others call = true → spares call
  consistent : w.transcript.Consistent
  since : Since base (fun as => P as w.transcript) w

namespace Beside

variable {spares : Call → Prop} {base : List Action} {P P' : List Action → MemoryTranscript → Prop}
  {w w' : World} {a : Action}

theorem same (h : Beside spares base P w) (hothers : w'.others = w.others)
    (htranscript : w'.transcript = w.transcript) (hlog : w'.log = w.log) :
    Beside spares base P w' := by
  refine ⟨by rw [hothers]; exact h.others, by rw [htranscript]; exact h.consistent, ?_⟩
  rw [htranscript]
  exact h.since.same hlog

theorem interfere
    (hP : ∀ as t t', t.Consistent → P as t → t.Spared spares t' → P as t')
    (h : Beside spares base P w) (i : Interference) : Beside spares base P (w.interfere i) := by
  cases i with
  | record call =>
    simp only [World.interfere]
    split
    · exact h
    · rename_i hcall
      simp only [Bool.or_eq_true, Bool.not_eq_true', not_or, Bool.not_eq_false] at hcall
      have hspared : w.transcript.Spared spares (call.exec w.transcript).2 :=
        .call call (h.others call hcall.2)
      refine ⟨h.others, (h.consistent.exec call).1, (h.since.mono fun as hPas => ?_).same rfl⟩
      exact hP as _ _ h.consistent hPas hspared
  | injectWriteFailure opId =>
    simp only [World.interfere]
    split
    · have hspared : w.transcript.Spared spares (w.transcript.injectWriteFailure opId) := .failure opId
      refine ⟨h.others, h.consistent.injectWriteFailure opId, (h.since.mono fun as hPas => ?_).same rfl⟩
      exact hP as _ _ h.consistent hPas hspared
    · exact h.same rfl rfl rfl
  | reserve tokens =>
    simp only [World.interfere]
    split
    · exact h.same rfl rfl rfl
    · exact h
  | _ => exact h.same rfl rfl rfl

theorem note (h : Beside spares base P w) (ha : ∀ as t, P as t → P' (as ++ [a]) t) :
    Beside spares base P' (w.note a) :=
  ⟨h.others, h.consistent, h.since.note fun as => ha as w.transcript⟩

theorem mono (h : Beside spares base P w) (hP : ∀ as t, P as t → P' as t) : Beside spares base P' w :=
  ⟨h.others, h.consistent, h.since.mono fun as => hP as w.transcript⟩

theorem calm (hP : ∀ as t t', t.Consistent → P as t → t.Spared spares t' → P as t')
    (ha : ∀ as t a, a.aside = true → P as t → P (as ++ [a]) t) : Calm (Beside spares base P) :=
  ⟨fun i h => h.interfere hP i, fun hside h => h.note fun as t => ha as t _ hside⟩

/-- A call of the run itself. -/
theorem exec (h : Beside spares base P w) (c : Call)
    (hc : ∀ as, P as w.transcript → P' as (c.exec w.transcript).2) :
    Beside spares base P' { w with transcript := (c.exec w.transcript).2 } :=
  ⟨h.others, (h.consistent.exec c).1, (h.since.mono hc).same rfl⟩

end Beside

end AgentRuntime
