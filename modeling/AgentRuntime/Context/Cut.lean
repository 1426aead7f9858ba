import AgentRuntime.Calm
import AgentRuntime.Context.Manager
import AgentRuntime.Recording.Exchange
import AgentRuntime.Recording.Versions

/-!
# A consistent cut

`_read_consistent` on the three stores of the runtime, whatever is written to them while it waits.

* `Current` — three snapshots are those of one target at one moment;
* `firstReading`, `secondReading` — a round, up to each of its two waits;
* `readConsistent_cut` — what is returned was current at one moment of the call.

The application state is read under its lock and handed over without another wait, so the moment is
that of the first application reading: the transcript and the capabilities are read again right there.
-/

set_option autoImplicit false

namespace AgentRuntime

open Async

/-! ## What the environment writes -/

namespace World

theorem interfere_transcript (w : World) (i : Interference) :
    (w.interfere i).transcript = w.transcript ∨
      (∃ call : Call, (w.interfere i).transcript = (call.exec w.transcript).2) ∨
      ∃ opId, (w.interfere i).transcript = w.transcript.injectWriteFailure opId := by
  cases i with
  | record call =>
    simp only [interfere]
    split
    · exact .inl rfl
    · exact .inr (.inl ⟨call, rfl⟩)
  | reserve tokens =>
    simp only [interfere]
    split <;> exact .inl rfl
  | injectWriteFailure opId =>
    simp only [interfere]
    split
    · exact .inr (.inr ⟨opId, rfl⟩)
    · exact .inl rfl
  | _ => exact .inl rfl

theorem Disturbed.follows {w w' : World} (h : w.Disturbed w') : w.transcript.Follows w'.transcript := by
  refine h.keeps (I := fun w' => w.transcript.Follows w'.transcript) (fun w' i hw => ?_)
    (MemoryTranscript.Follows.refl _)
  rcases w'.interfere_transcript i with heq | ⟨call, heq⟩ | ⟨opId, heq⟩
  · rw [heq]
    exact hw
  · rw [heq]
    exact hw.trans (w'.transcript.exec_follows call)
  · rw [heq]
    exact hw.trans ⟨Nat.le_refl _, fun _ => ⟨rfl, rfl⟩⟩

theorem Disturbed.consistent {w w' : World} (h : w.Disturbed w') (hw : w.transcript.Consistent) :
    w'.transcript.Consistent := by
  refine h.keeps (I := fun w' => w'.transcript.Consistent) (fun w' i hw => ?_) hw
  rcases w'.interfere_transcript i with heq | ⟨call, heq⟩ | ⟨opId, heq⟩
  · rw [heq]
    exact hw
  · rw [heq]
    exact (hw.exec call).1
  · rw [heq]
    exact hw.injectWriteFailure opId

end World

/-- No two of the snapshots of a session have one version. -/
def Distinct (snapshots : List CapabilitySnapshot) : Prop :=
  ∀ s ∈ snapshots, ∀ s' ∈ snapshots, s.version = s'.version → s = s'

/-- The session only has the snapshots of `session`. -/
def Turn.Within (session : List CapabilitySnapshot) (t : Turn) : Prop := ∀ s ∈ t.published, s ∈ session

theorem Turn.Within.capabilities {session : List CapabilitySnapshot} {t : Turn} (h : t.Within session)
    {w : World} (hw : w.capabilities ∈ session) :
    (w.interfereAll t.interference).capabilities ∈ session := by
  rcases List.mem_cons.mp (w.interfereAll_capabilities t.interference) with heq | hmem
  · rw [heq]
    exact hw
  · exact h _ hmem

namespace DefaultStepProvider

/-! ## Rounds -/

theorem readTranscript_eq (target : RecordTarget) (w : World) :
    readTranscript target w = match w.transcript.snapshot target with
      | some snapshot => .done snapshot w
      | none => .raised (.other "KeyError" "" none) w := by
  change ((match w.transcript.snapshot target with
    | some snapshot => pure snapshot
    | none => Proc.throw (.other "KeyError" "" none) : Gen Empty TranscriptSnapshot) w) = _
  cases w.transcript.snapshot target with
  | some snapshot => rfl
  | none => rfl

/-- What follows a wait for a lock. -/
def granted {α : Type} (k : World → Tree Empty α) (reply : Except Exc Unit) (w : World) : Tree Empty α :=
  match reply with
  | .error e => .raised e w
  | .ok _ => k w

/-- The world, once the application state of the target has been read. -/
def readApplication (target : RecordTarget) (w : World) : World :=
  { w with application := (w.application.current target).2 }

/-- The end of a round, when the application state has been read for the second time. -/
def comparison (rounds : Nat) (target : RecordTarget) (history historyAgain : TranscriptSnapshot)
    (capabilities capabilitiesAgain : CapabilitySnapshot) (application : ApplicationSnapshot)
    (w : World) : Tree Empty (TranscriptSnapshot × CapabilitySnapshot × ApplicationSnapshot) :=
  if history.version = historyAgain.version ∧ capabilities.version = capabilitiesAgain.version ∧
      application.version = (w.application.current target).1.version ∧
      w.recordTarget.value = target.value then
    .done (history, capabilities, application) (readApplication target w)
  else readConsistentFrom memoryApplication rounds (readApplication target w)

/-- A round, from the moment the lock of the application state is held for the first time. -/
def secondReading (rounds : Nat) (target : RecordTarget) (history : TranscriptSnapshot)
    (capabilities : CapabilitySnapshot) (w : World) :
    Tree Empty (TranscriptSnapshot × CapabilitySnapshot × ApplicationSnapshot) :=
  match w.transcript.snapshot target with
  | none => .raised (.other "KeyError" "" none) (readApplication target w)
  | some historyAgain =>
    .await .lock (readApplication target w) (granted (comparison rounds target history historyAgain
      capabilities w.capabilities (w.application.current target).1))

/-- A round. -/
def firstReading (rounds : Nat) (w : World) :
    Tree Empty (TranscriptSnapshot × CapabilitySnapshot × ApplicationSnapshot) :=
  match w.transcript.snapshot w.recordTarget with
  | none => .raised (.other "KeyError" "" none) w
  | some history => .await .lock w (granted (secondReading rounds w.recordTarget history w.capabilities))

theorem firstReading_some {rounds : Nat} {w : World} {history : TranscriptSnapshot}
    (h : w.transcript.snapshot w.recordTarget = some history) :
    firstReading rounds w =
      .await .lock w (granted (secondReading rounds w.recordTarget history w.capabilities)) := by
  unfold firstReading
  rw [h]

theorem secondReading_some {rounds : Nat} {target : RecordTarget} {history historyAgain : TranscriptSnapshot}
    {capabilities : CapabilitySnapshot} {w : World} (h : w.transcript.snapshot target = some historyAgain) :
    secondReading rounds target history capabilities w =
      .await .lock (readApplication target w) (granted (comparison rounds target history historyAgain
        capabilities w.capabilities (w.application.current target).1)) := by
  unfold secondReading
  rw [h]

theorem readConsistentFrom_succ (rounds : Nat) (w : World) :
    readConsistentFrom memoryApplication (rounds + 1) w = firstReading rounds w := by
  change (readTranscript w.recordTarget w).bind _ = _
  rw [readTranscript_eq]
  unfold firstReading
  cases w.transcript.snapshot w.recordTarget with
  | none => rfl
  | some history =>
    change Node.await _ _ _ = Node.await _ _ _
    congr 1
    funext reply w'
    cases reply with
    | error e => rfl
    | ok _ =>
      change (readTranscript w.recordTarget (readApplication w.recordTarget w')).bind _ =
        secondReading rounds w.recordTarget history w.capabilities w'
      rw [readTranscript_eq]
      unfold secondReading
      change (Node.bind (match w'.transcript.snapshot w.recordTarget with
        | some snapshot => _
        | none => _) _) = _
      cases w'.transcript.snapshot w.recordTarget with
      | none => rfl
      | some historyAgain =>
        change Node.await _ _ _ = Node.await _ _ _
        congr 1
        funext reply w''
        cases reply with
        | error e => rfl
        | ok _ =>
          -- the two sides test the same condition, on the world after the second reading
          by_cases hsame : history.version = historyAgain.version ∧
              w.capabilities.version = w'.capabilities.version ∧
              (w'.application.current w.recordTarget).1.version =
                (w''.application.current w.recordTarget).1.version ∧
              w''.recordTarget.value = w.recordTarget.value
          · exact (congrFun (if_pos hsame) _).trans (if_pos hsame).symm
          · exact (congrFun (if_neg hsame) _).trans (if_neg hsame).symm

/-! ## The moment -/

/-- The three snapshots are the current ones of the target. -/
structure Current (target : RecordTarget)
    (cut : TranscriptSnapshot × CapabilitySnapshot × ApplicationSnapshot) (w : World) : Prop where
  history : w.transcript.snapshot target = some cut.1
  capabilities : w.capabilities = cut.2.1
  application : w.application.data target.value = some cut.2.2

variable {α : Type} {a : α} {session : List CapabilitySnapshot} {turns : List Turn} {w : World}
  {cut : TranscriptSnapshot × CapabilitySnapshot × ApplicationSnapshot}

theorem not_returned_of_raised {e : Exc}
    (h : (Node.play (.raised e w : Tree Empty α) (turns.map Turn.toMove)).returned? = some a) : False := by
  rw [Node.play_of_finished (by exact trivial)] at h
  cases h

/-- A run that gets beyond a wait for a lock. -/
theorem returned_granted {k : World → Tree Empty α}
    (h : (Node.play (.await .lock w (granted k) : Tree Empty α) (turns.map Turn.toMove)).returned? =
      some a) :
    ∃ t rest, turns = t :: rest ∧
      Node.step t.toMove (.await .lock w (granted k)) = k (w.interfereAll t.interference) ∧
      ((k (w.interfereAll t.interference)).play (rest.map Turn.toMove)).returned? = some a := by
  cases turns with
  | nil => cases h
  | cons t rest =>
    rw [List.map_cons, Node.play_cons] at h
    change (Node.play (granted k (t.reply .lock) (w.interfereAll t.interference)) _).returned? = _ at h
    cases hreply : t.reply .lock with
    | error e =>
      rw [hreply] at h
      exact (not_returned_of_raised h).elim
    | ok u =>
      refine ⟨t, rest, rfl, ?_, ?_⟩
      · change granted k (t.reply .lock) _ = _
        rw [hreply]
        rfl
      · rw [hreply] at h
        exact h

theorem returned_firstReading {rounds : Nat}
    (h : ((firstReading rounds w).play (turns.map Turn.toMove)).returned? = some cut) :
    ∃ history, w.transcript.snapshot w.recordTarget = some history := by
  cases hsnapshot : w.transcript.snapshot w.recordTarget with
  | none =>
    unfold firstReading at h
    rw [hsnapshot] at h
    exact (not_returned_of_raised h).elim
  | some history => exact ⟨history, rfl⟩

theorem returned_secondReading {rounds : Nat} {target : RecordTarget} {history : TranscriptSnapshot}
    {capabilities : CapabilitySnapshot}
    (h : ((secondReading rounds target history capabilities w).play
      (turns.map Turn.toMove)).returned? = some cut) :
    ∃ historyAgain, w.transcript.snapshot target = some historyAgain := by
  cases hsnapshot : w.transcript.snapshot target with
  | none =>
    unfold secondReading at h
    rw [hsnapshot] at h
    exact (not_returned_of_raised h).elim
  | some historyAgain => exact ⟨historyAgain, rfl⟩

/-- What is returned by a run of the rounds that are left was current at one moment of it. -/
theorem passes_current (hsession : Distinct session) :
    ∀ (rounds : Nat) {w : World} {turns : List Turn}, w.capabilities ∈ session →
      (∀ t ∈ turns, t.Within session) →
      ((readConsistentFrom memoryApplication rounds).run w turns).returned? = some cut →
        ∃ target, (readConsistentFrom memoryApplication rounds w).Passes (Current target cut)
          (turns.map Turn.toMove)
  | 0, w, turns, _, _, h => (not_returned_of_raised h).elim
  | rounds + 1, w, turns, hw, hturns, h => by
    rw [Gen.run, readConsistentFrom_succ] at h
    obtain ⟨history, hsnapshot⟩ := returned_firstReading h
    rw [readConsistentFrom_succ, firstReading_some hsnapshot]
    rw [firstReading_some hsnapshot] at h
    obtain ⟨t, turns, rfl, hstep, h⟩ := returned_granted h
    have hd : w.Disturbed (w.interfereAll t.interference) := ⟨t.interference, rfl⟩
    have hcaps := (hturns t List.mem_cons_self).capabilities hw
    generalize w.interfereAll t.interference = w₁ at hstep h hd hcaps
    obtain ⟨historyAgain, hagain⟩ := returned_secondReading h
    rw [secondReading_some hagain] at hstep h
    obtain ⟨t', turns, rfl, hstep', h⟩ := returned_granted h
    have hcaps' := (hturns t' (List.mem_cons_of_mem _ List.mem_cons_self)).capabilities
      (w := readApplication w.recordTarget w₁) hcaps
    generalize (readApplication w.recordTarget w₁).interfereAll t'.interference = w₂ at hstep' h hcaps'
    unfold comparison at h
    split at h
    · -- nothing has changed: what was read first is what is read again here
      rename_i hsame
      rw [Node.play_of_finished (by exact trivial)] at h
      cases h
      refine ⟨w.recordTarget, Node.passes_cons ?_⟩
      rw [hstep]
      refine Node.passes_here (Node.not_finished_await _ _ _) ⟨?_, ?_, ?_⟩ _
      · have heq := hd.follows.snapshot hsnapshot hagain hsame.1
        rw [← heq]
        exact hagain
      · exact (hsession _ hw _ hcaps hsame.2.1).symm
      · exact w₁.application.data_current w.recordTarget
    · rename_i hchanged
      unfold comparison at hstep'
      rw [if_neg hchanged] at hstep'
      obtain ⟨target, hpasses⟩ := passes_current hsession rounds
        (w := readApplication w.recordTarget w₂) hcaps'
        (fun t ht => hturns t (List.mem_cons_of_mem _ (List.mem_cons_of_mem _ ht))) h
      refine ⟨target, Node.passes_cons ?_⟩
      rw [hstep]
      refine Node.passes_cons ?_
      unfold comparison
      rw [hstep']
      exact hpasses

/-! ## The end of a call -/

/-- What is raised after the last round. -/
def conflict : Exc :=
  .error .versionConflictError "snapshot versions changed while preparing a step" none

theorem play_granted {k : World → Tree Empty α} {t : Turn} (h : t.reply .lock = .ok ()) :
    Node.play (.await .lock w (granted k) : Tree Empty α) ((t :: turns).map Turn.toMove) =
      (k (w.interfereAll t.interference)).play (turns.map Turn.toMove) := by
  rw [List.map_cons, Node.play_cons]
  change Node.play (granted k (t.reply .lock) (w.interfereAll t.interference)) _ = _
  rw [h]
  rfl

/-- Where every lock is granted, the rounds come to an end, and nothing is raised before the last. -/
theorem rounds_end :
    ∀ (rounds : Nat) {w : World} {turns : List Turn}, w.transcript.Consistent →
      (∀ t ∈ turns, t.reply .lock = .ok ()) →
      (∀ e w', (readConsistentFrom memoryApplication rounds).run w turns = .raised e w' →
        e = conflict ∧ 2 * rounds ≤ turns.length) ∧
      (2 * rounds ≤ turns.length →
        ((readConsistentFrom memoryApplication rounds).run w turns).Finished)
  | 0, w, turns, _, _ => by
    have hrun : (readConsistentFrom memoryApplication 0).run w turns = .raised conflict w :=
      Node.play_of_finished (by exact trivial) _
    rw [hrun]
    refine ⟨fun e w' h => ?_, fun _ => trivial⟩
    cases h
    exact ⟨rfl, Nat.zero_le _⟩
  | rounds + 1, w, turns, hw, hturns => by
    obtain ⟨history, hsnapshot, -⟩ := hw.snapshot w.recordTarget
    rw [Gen.run, readConsistentFrom_succ, firstReading_some hsnapshot]
    cases turns with
    | nil =>
      refine ⟨fun e w' h => (by cases h), fun hlength => ?_⟩
      rw [List.length_nil] at hlength
      omega
    | cons t turns =>
      rw [play_granted (hturns t List.mem_cons_self)]
      have hd : w.Disturbed (w.interfereAll t.interference) := ⟨t.interference, rfl⟩
      have hw₁ := hd.consistent hw
      generalize w.interfereAll t.interference = w₁ at hw₁
      obtain ⟨historyAgain, hagain, -⟩ := hw₁.snapshot w.recordTarget
      rw [secondReading_some hagain]
      cases turns with
      | nil =>
        refine ⟨fun e w' h => (by cases h), fun hlength => ?_⟩
        rw [List.length_cons, List.length_nil] at hlength
        omega
      | cons t' turns =>
        rw [play_granted (hturns t' (List.mem_cons_of_mem _ List.mem_cons_self))]
        have hd' : (readApplication w.recordTarget w₁).Disturbed
            ((readApplication w.recordTarget w₁).interfereAll t'.interference) := ⟨_, rfl⟩
        have hw₂ := hd'.consistent hw₁
        generalize (readApplication w.recordTarget w₁).interfereAll t'.interference = w₂ at hw₂
        unfold comparison
        split
        · rw [Node.play_of_finished (by exact trivial)]
          exact ⟨fun e w' h => (by cases h), fun _ => trivial⟩
        · obtain ⟨hraised, hfinished⟩ := rounds_end rounds
            (w := readApplication w.recordTarget w₂) hw₂
            fun t ht => hturns t (List.mem_cons_of_mem _ (List.mem_cons_of_mem _ ht))
          simp only [List.length_cons]
          refine ⟨fun e w' h => ?_, fun hlength => hfinished (by omega)⟩
          obtain ⟨he, hlength⟩ := hraised e w' h
          exact ⟨he, by omega⟩

/-- **The reading is a consistent cut.** Whatever is written to the three stores, and however often the
target is switched, while `_read_consistent` waits: what it returns was current, as the snapshots of one
target, at one moment of the call. Otherwise it raises a version conflict, after three rounds. -/
theorem readConsistent_cut (w : World) (turns : List Turn)
    (hw : w.transcript.Reachable fun _ _ => True)
    (hsession : Distinct (w.capabilities :: turns.flatMap Turn.published)) :
    (∀ cut, ((readConsistentFrom memoryApplication 3).run w turns).returned? = some cut →
      ∃ target, (readConsistentFrom memoryApplication 3 w).Passes (Current target cut)
        (turns.map Turn.toMove)) ∧
    ((∀ t ∈ turns, t.reply .lock = .ok ()) →
      (∀ e w', (readConsistentFrom memoryApplication 3).run w turns = .raised e w' →
        e = conflict ∧ 6 ≤ turns.length) ∧
      (6 ≤ turns.length → ((readConsistentFrom memoryApplication 3).run w turns).Finished)) := by
  refine ⟨fun cut h => ?_, fun hturns => rounds_end 3 hw.consistent hturns⟩
  refine passes_current hsession 3 List.mem_cons_self (fun t ht s hs => ?_) h
  exact List.mem_cons_of_mem _ (List.mem_flatMap.mpr ⟨t, ht, hs⟩)

/-! ## A run -/

/-- The first round meets a write to the transcript, the second a commit of the application. -/
def writtenBeside : List Turn :=
  let granting (is : List Interference) : Turn :=
    { reply := fun
        | .lock => .ok ()
        | _ => .error .cancelledError
      interference := is }
  [granting [.record (.recordInput ⟨"r2", ⟨"t"⟩, { role := .user, content := some "go on" }, "r2:input:0"⟩),
      .publishCapabilities ⟨"cap-2", [], ⟨"bind-2"⟩, []⟩],
    granting [], granting [.commitApplication ⟨"t"⟩ []],
    granting [.switchTarget ⟨"u"⟩, .switchTarget ⟨"t"⟩], granting [], granting []]

def readingWorld : World where
  runId := "r"
  recordTarget := ⟨"t"⟩
  capabilities := ⟨"cap-1", [], ⟨"bind-1"⟩, []⟩
  application := .of ⟨"t"⟩

theorem writtenBeside_current :
    (∃ cut target, ((readConsistentFrom memoryApplication 3).run readingWorld writtenBeside).returned? =
        some cut ∧ cut.2.2.version = "app-2" ∧
      (readConsistentFrom memoryApplication 3 readingWorld).Passes (Current target cut)
        (writtenBeside.map Turn.toMove)) ∧
      ((readConsistentFrom memoryApplication 3).run readingWorld writtenBeside).Finished := by
  have hreturned : (((readConsistentFrom memoryApplication 3).run readingWorld
      writtenBeside).returned?.map (·.2.2.version)) = some "app-2" := by decide +kernel
  obtain ⟨cut, hcut, hversion⟩ := Option.map_eq_some_iff.mp hreturned
  have hsession : Distinct (readingWorld.capabilities :: writtenBeside.flatMap Turn.published) := by
    have hversions : readingWorld.capabilities :: writtenBeside.flatMap Turn.published =
        [⟨"cap-1", [], ⟨"bind-1"⟩, []⟩, ⟨"cap-2", [], ⟨"bind-2"⟩, []⟩] := rfl
    rw [hversions]
    intro s hs s' hs' heq
    simp only [List.mem_cons, List.not_mem_nil, or_false] at hs hs'
    rcases hs with rfl | rfl <;> rcases hs' with rfl | rfl
    · rfl
    · exact absurd heq (by decide)
    · exact absurd heq (by decide)
    · rfl
  have hlocks : ∀ t ∈ writtenBeside, t.reply .lock = .ok () := by
    intro t ht
    simp only [writtenBeside, List.mem_cons, List.not_mem_nil, or_false] at ht
    rcases ht with rfl | rfl | rfl | rfl | rfl | rfl <;> rfl
  have hcutting := readConsistent_cut readingWorld writtenBeside (.empty []) hsession
  obtain ⟨target, hpasses⟩ := hcutting.1 cut hcut
  exact ⟨⟨cut, target, hcut, hversion, hpasses⟩, (hcutting.2 hlocks).2 (by decide)⟩

end DefaultStepProvider

end AgentRuntime
