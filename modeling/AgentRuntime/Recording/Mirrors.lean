import AgentRuntime.Recording.Renaming
import AgentRuntime.Recording.Status
import AgentRuntime.Recording.Texts

/-!
# Two transcripts that mirror each other

One transcript is written by a single run, the other by that run and by others.

* `mintedFor`, `contributed` — the messages of a target that a run wrote;
* `Mirrors` — what the run has on file in the one, it has in the other, under renamed message ids;
* `Mirrored` — two calls that return the same, and leave transcripts that mirror each other;
* `Mirrors.exec` — a call of the run; `Mirrors.aside` — a call of another one.
-/

set_option autoImplicit false

namespace AgentRuntime

namespace MemoryTranscript

/-! ## Whose message it is -/

/-- `_next_id` has given the id to a message of the run. -/
def mintedFor (run id : String) : Bool :=
  let start := s!"msg:{run}:".toList
  start.isPrefixOf id.toList && (id.toList.drop start.length).all Char.isDigit

/-- The messages the run contributes to a target, in order. -/
def contributed (t : MemoryTranscript) (run : String) (target : RecordTarget) : List Message :=
  ((t.order target.value).filter (mintedFor run)).filterMap t.messages

theorem mintedFor_msgId (run author : String) (n : Nat) :
    mintedFor run (msgId author n) = true ↔ author = run := by
  have hid : ∀ run : String, (msgId run n).toList = ("msg:" ++ run).toList ++ ':' :: (toString n).toList := by
    intro run
    change ("msg:" ++ run ++ ":" ++ toString n).toList = _
    simp only [String.toList_append, List.append_assoc]
    rfl
  have hstart : (s!"msg:{run}:").toList = ("msg:" ++ run).toList ++ [':'] := by
    change ("msg:" ++ run ++ ":").toList = _
    rw [String.toList_append]
    rfl
  constructor
  · intro h
    simp only [mintedFor, Bool.and_eq_true, List.isPrefixOf_iff_prefix] at h
    obtain ⟨⟨rest, hrest⟩, hdigits⟩ := h
    rw [← hrest, List.drop_left] at hdigits
    rw [hstart, hid author, List.append_assoc] at hrest
    have hcut : ':' ∉ rest := fun hmem => absurd (List.all_eq_true.mp hdigits _ hmem) (by decide)
    have heq := (Fields.cut_last hcut (Fields.nat_notMem n (by decide)) hrest).1
    have hrun : "msg:" ++ run = "msg:" ++ author := String.toList_injective heq
    simp only [String.append_right_inj] at hrun
    exact hrun.symm
  · rintro rfl
    simp only [mintedFor, Bool.and_eq_true, List.isPrefixOf_iff_prefix]
    have hsplit : (msgId author n).toList = (s!"msg:{author}:").toList ++ (toString n).toList := by
      rw [hstart, hid author, List.append_assoc]
      rfl
    refine ⟨⟨_, hsplit.symm⟩, List.all_eq_true.mpr fun d hd => ?_⟩
    rw [hsplit, List.drop_left] at hd
    exact Fields.nat_digits hd

/-! ## Transcripts that mirror each other -/

/-- `s` is written by the run alone; `t` holds the same of the run, under renamed ids. `mine` are the
operation ids of the run. -/
structure Mirrors (ρ : String → String) (run : String) (mine : String → Prop) (s t : MemoryTranscript) :
    Prop where
  unrecordedTools : t.unrecordedTools = s.unrecordedTools
  messages : ∀ id m, s.messages id = some m → t.messages (ρ id) = some (m.rename ρ)
  order : ∀ target, (t.order target).filter (mintedFor run) = (s.order target).map ρ
  textIds : ∀ key : TextKey, key.1 = run → t.textIds key = (s.textIds key).map ρ
  ops : ∀ opId, mine opId → t.ops opId = (s.ops opId).map (·.rename ρ)
  failOps : ∀ opId, mine opId → (opId ∈ t.failOps ↔ opId ∈ s.failOps)
  runStatus : t.runStatus run = s.runStatus run

/-- The next `k` numbers of the run alone are renamed to the next ones of the other transcript. -/
def Next (ρ : String → String) (run : String) (s t : MemoryTranscript) (k : Nat) : Prop :=
  ∀ i, i < k → ρ (msgId run (s.seq + i + 1)) = msgId run (t.seq + i + 1)

/-- The two calls mint as many ids; they return the same, and leave transcripts that mirror each other,
if those ids are renamed. -/
def Mirrored {α : Type} (ρ : String → String) (run : String) (mine : String → Prop)
    (s t : MemoryTranscript) (f : α → α) (x y : Except Exc α × MemoryTranscript) : Prop :=
  ∃ k, x.2.seq = s.seq + k ∧ y.2.seq = t.seq + k ∧
    (Next ρ run s t k → y.1 = x.1.map f ∧ Mirrors ρ run mine x.2 y.2)

section Methods

variable {ρ : String → String} {run : String} {mine : String → Prop} {s t : MemoryTranscript}

/-! ## Writes -/

theorem Mirrors.append (h : Mirrors ρ run mine s t) (hρ : ρ.Injective) (target : RecordTarget) {n k : Nat}
    (hid : ρ (msgId run n) = msgId run k) (m : Message) :
    Mirrors ρ run mine (s.append target (msgId run n) m) (t.append target (msgId run k) m) where
  unrecordedTools := h.unrecordedTools
  messages id m' hm' := by
    rw [messages_append] at hm' ⊢
    by_cases heq : id = msgId run n
    · rw [if_pos heq] at hm'
      cases hm'
      rw [if_pos (heq ▸ hid), ← hid]
      rfl
    · rw [if_neg heq] at hm'
      rw [if_neg fun hnew => heq (hρ (hnew.trans hid.symm))]
      exact h.messages id m' hm'
  order other := by
    simp only [MemoryTranscript.append]
    by_cases ho : other = target.value
    · subst ho
      rw [Function.update_self, Function.update_self, List.filter_append, List.map_append, h.order,
        List.filter_singleton, (mintedFor_msgId run run k).mpr rfl, List.map_singleton, hid]
      rfl
    · rw [Function.update_of_ne ho, Function.update_of_ne ho]
      exact h.order other
  textIds := h.textIds
  ops := h.ops
  failOps := h.failOps
  runStatus := h.runStatus

theorem Mirrors.replaceMessage (h : Mirrors ρ run mine s t) (hρ : ρ.Injective) (id : String) (m : Message) :
    Mirrors ρ run mine (s.replaceMessage id m) (t.replaceMessage (ρ id) (m.rename ρ)) where
  unrecordedTools := h.unrecordedTools
  messages id' m' hm' := by
    simp only [MemoryTranscript.replaceMessage, Function.update_apply] at hm' ⊢
    by_cases heq : id' = id
    · rw [if_pos heq] at hm'
      cases hm'
      rw [if_pos (congrArg ρ heq)]
    · rw [if_neg heq] at hm'
      rw [if_neg fun hsame => heq (hρ hsame)]
      exact h.messages id' m' hm'
  order := h.order
  textIds := h.textIds
  ops := h.ops
  failOps := h.failOps
  runStatus := h.runStatus

theorem Mirrors.storeOp (h : Mirrors ρ run mine s t) (op : CommittedOp) :
    Mirrors ρ run mine (s.storeOp op) (t.storeOp (op.rename ρ)) where
  unrecordedTools := h.unrecordedTools
  messages := h.messages
  order := h.order
  textIds := h.textIds
  ops opId hmine := by
    change Function.update t.ops op.logicalOpId _ opId = (Function.update s.ops op.logicalOpId _ opId).map _
    by_cases heq : opId = op.logicalOpId
    · subst heq
      rw [Function.update_self, Function.update_self]
      rfl
    · rw [Function.update_of_ne heq, Function.update_of_ne heq]
      exact h.ops opId hmine
  failOps := h.failOps
  runStatus := h.runStatus

theorem Mirrors.counted (h : Mirrors ρ run mine s t) (n k : Nat) :
    Mirrors ρ run mine { s with seq := n } { t with seq := k } :=
  ⟨h.unrecordedTools, h.messages, h.order, h.textIds, h.ops, h.failOps, h.runStatus⟩

theorem Mirrors.identified (h : Mirrors ρ run mine s t) (key : TextKey) (id : String) :
    Mirrors ρ run mine { s with textIds := Function.update s.textIds key (some id) }
      { t with textIds := Function.update t.textIds key (some (ρ id)) } := by
  refine ⟨h.unrecordedTools, h.messages, h.order, fun key' hkey => ?_, h.ops, h.failOps, h.runStatus⟩
  simp only [Function.update_apply]
  split_ifs with heq
  · rfl
  · exact h.textIds key' hkey

/-! ## The frame of every method -/

variable {α : Type} {f : α → α}

theorem mirrored_same (h : Mirrors ρ run mine s t) {x y : Except Exc α} (hxy : y = x.map f) :
    Mirrored ρ run mine s t f (x, s) (y, t) :=
  ⟨0, rfl, rfl, fun _ => ⟨hxy, h⟩⟩

theorem once_mirrored (h : Mirrors ρ run mine s t) {opId : String} (hmine : mine opId)
    {onReplay onReplay' : CommittedOp → Except Exc α}
    {first first' : MemoryTranscript → Except Exc α × MemoryTranscript}
    (hanswer : ∀ op : CommittedOp, onReplay' (op.rename ρ) = (onReplay op).map f)
    (hfirst : Mirrored ρ run mine s t f (first s) (first' t)) :
    Mirrored ρ run mine s t f (s.once opId onReplay first) (t.once opId onReplay' first') := by
  unfold once
  by_cases hf : opId ∈ s.failOps
  · rw [if_pos hf, if_pos ((h.failOps opId hmine).mpr hf)]
    refine ⟨0, rfl, rfl, fun _ => ⟨rfl, h.unrecordedTools, h.messages, h.order, h.textIds, h.ops,
      fun other hother => ?_, h.runStatus⟩⟩
    simp only [List.mem_filter, h.failOps other hother]
  · rw [if_neg hf, if_neg fun hf' => hf ((h.failOps opId hmine).mp hf'), h.ops opId hmine]
    cases s.ops opId with
    | some op => exact mirrored_same h (hanswer op)
    | none => exact hfirst

/-- A write of text, which files its operation if it succeeds. -/
def filing {α : Type} (x : Except Exc (String × Bool) × MemoryTranscript) (answer : String → Bool → α)
    (op : String → Bool → CommittedOp) : Except Exc α × MemoryTranscript :=
  match x with
  | (.error e, t) => (.error e, t)
  | (.ok (id, created), t) => (.ok (answer id created), t.storeOp (op id created))

theorem Mirrored.filing {x y : Except Exc (String × Bool) × MemoryTranscript}
    (h : Mirrored ρ run mine s t (Prod.map ρ id) x y) {answer answer' : String → Bool → α}
    {op op' : String → Bool → CommittedOp}
    (hanswer : ∀ id created, answer' (ρ id) created = f (answer id created))
    (hop : ∀ id created, op' (ρ id) created = (op id created).rename ρ) :
    Mirrored ρ run mine s t f (MemoryTranscript.filing x answer op)
      (MemoryTranscript.filing y answer' op') := by
  obtain ⟨k, hx, hy, hmirrors⟩ := h
  obtain ⟨rx, s'⟩ := x
  obtain ⟨ry, t'⟩ := y
  refine ⟨k, ?_, ?_, fun hnext => ?_⟩
  · cases rx <;> exact hx
  · cases ry <;> exact hy
  · obtain ⟨rfl, hm⟩ := hmirrors hnext
    cases rx with
    | error e => exact ⟨rfl, hm⟩
    | ok p =>
      obtain ⟨id, created⟩ := p
      refine ⟨congrArg Except.ok (hanswer id created), ?_⟩
      have hstore := hm.storeOp (op id created)
      rw [← hop] at hstore
      exact hstore

/-! ## The six methods -/

theorem recordInput_mirrored (h : Mirrors ρ run mine s t) (hρ : ρ.Injective) {a : InputArgs}
    (hrun : a.runId = run) (hmine : mine a.logicalOpId) :
    Mirrored ρ run mine s t (·.rename ρ) (s.recordInput a) (t.recordInput a) := by
  subst hrun
  refine once_mirrored h hmine (fun op => ?_) ⟨1, rfl, rfl, fun hnext => ?_⟩
  · unfold inputAnswer
    rw [← replayedMessage_rename, ← replay_rename hρ]
    rfl
  · have hid : ρ (msgId a.runId (s.seq + 1)) = msgId a.runId (t.seq + 1) := hnext 0 Nat.one_pos
    have happend := (h.counted (s.seq + 1) (t.seq + 1)).append hρ a.recordTarget hid a.message
    have hstore := happend.storeOp ((Call.recordInput a).operation
      [receiptOf (.recordInput a) a.recordTarget (msgId a.runId (s.seq + 1)) true] none)
    have hreceipt : (receiptOf (.recordInput a) a.recordTarget (msgId a.runId (s.seq + 1)) true).rename ρ =
        receiptOf (.recordInput a) a.recordTarget (msgId a.runId (t.seq + 1)) true := by
      rw [← hid]
      rfl
    refine ⟨congrArg Except.ok hreceipt.symm, ?_⟩
    simp only [CommittedOp.rename, Call.operation, List.map_cons, List.map_nil, List.head?_cons,
      Option.map_some, hreceipt] at hstore
    exact hstore

theorem upsertText_mirrored (h : Mirrors ρ run mine s t) (hρ : ρ.Injective) (hs : s.TextTable)
    {w : Call.TextWrite} (hrun : w.key.1 = run) (hupdate : ∀ m, w.update (m.rename ρ) = (w.update m).rename ρ) :
    Mirrored ρ run mine s t (Prod.map ρ id) (s.upsertText w.key w.target w.fresh w.update)
      (t.upsertText w.key w.target w.fresh w.update) := by
  unfold upsertText
  rw [h.textIds w.key hrun]
  cases hkey : s.textIds w.key with
  | none =>
    refine ⟨1, rfl, rfl, fun hnext => ?_⟩
    have hid : ρ (msgId run (s.seq + 1)) = msgId run (t.seq + 1) := hnext 0 Nat.one_pos
    rw [hrun]
    refine ⟨congrArg (fun id => Except.ok (id, true)) hid.symm, ?_⟩
    have hnew := (h.counted (s.seq + 1) (t.seq + 1)).identified w.key (msgId run (s.seq + 1))
    rw [hid] at hnew
    exact hnew.append hρ w.target hid w.fresh
  | some id =>
    obtain ⟨-, current, hcurrent, -⟩ := hs.listed w.key id hkey
    dsimp only [Option.map_some]
    rw [hcurrent, h.messages id current hcurrent]
    refine ⟨0, rfl, rfl, fun _ => ⟨rfl, ?_⟩⟩
    dsimp only
    rw [hupdate]
    exact h.replaceMessage hρ id (w.update current)

/-- A receipt the run may supply: of its own operations, and of a message that is stored. -/
def Owned (mine : String → Prop) (s : MemoryTranscript) : Receipt → Prop
  | .message r => mine r.logicalOpId ∧ (s.ops r.logicalOpId).isSome = true ∧
    (s.messages r.messageId).isSome = true
  | .batch b => mine b.logicalOpId

theorem Mirrors.stored (h : Mirrors ρ run mine s t) {id : String} (hid : (s.messages id).isSome = true) :
    (t.messages (ρ id)).isSome = true := by
  obtain ⟨m, hm⟩ := Option.isSome_iff_exists.mp hid
  rw [h.messages id m hm]
  rfl

theorem recordTextDelta_mirrored (h : Mirrors ρ run mine s t) (hρ : ρ.Injective) (hs : s.TextTable)
    {a : DeltaArgs} (hrun : a.runId = run) (hmine : mine a.logicalOpId)
    (howned : ∀ r, a.previousReceipt = some r → Owned mine s (.message r)) :
    Mirrored ρ run mine s t (·.rename ρ) (s.recordTextDelta a)
      (t.recordTextDelta { a with previousReceipt := a.previousReceipt.map (·.rename ρ) }) := by
  refine once_mirrored h hmine (fun op => ?_) ?_
  · unfold deltaAnswer
    rw [← replayedMessage_rename, ← replay_rename hρ, ← message_rename_option]
  · -- the message of the supplied receipt is stored in both
    have hfound : a.previousReceipt.filter (fun r => (s.messages r.messageId).isNone) = none ∧
        (a.previousReceipt.map (·.rename ρ)).filter (fun r => (t.messages r.messageId).isNone) = none := by
      cases hprevious : a.previousReceipt with
      | none => exact ⟨rfl, rfl⟩
      | some r =>
        have hstored := (howned r hprevious).2.2
        have hstored' := h.stored hstored
        simp only [Option.map_some, Option.filter, MessageReceipt.rename, Option.isNone_iff_eq_none,
          Option.isSome_iff_ne_none] at hstored hstored' ⊢
        exact ⟨if_neg hstored, if_neg hstored'⟩
    rw [hfound.1, hfound.2]
    refine Mirrored.filing (upsertText_mirrored h hρ hs (w := (Call.recordTextDelta a).textWrite?.get rfl) hrun
      fun _ => rfl) (fun _ _ => rfl) fun _ _ => ?_
    rw [message_rename_option]
    rfl

theorem recordTextFinal_mirrored (h : Mirrors ρ run mine s t) (hρ : ρ.Injective) (hs : s.TextTable)
    {a : FinalArgs} (hrun : a.runId = run) (hmine : mine a.logicalOpId)
    (howned : ∀ r, a.previousReceipt = some r → Owned mine s (.message r)) :
    Mirrored ρ run mine s t (·.rename ρ) (s.recordTextFinal a)
      (t.recordTextFinal { a with previousReceipt := a.previousReceipt.map (·.rename ρ) }) := by
  refine once_mirrored h hmine (fun op => ?_) ?_
  · unfold finalAnswer
    rw [← replayedMessage_rename, ← replay_rename hρ, ← message_rename_option]
  · have hchecked : s.checkFinalReceipt a.previousReceipt = none ∧
        t.checkFinalReceipt (a.previousReceipt.map (·.rename ρ)) = none := by
      cases hprevious : a.previousReceipt with
      | none => exact ⟨rfl, rfl⟩
      | some r =>
        obtain ⟨hop, hfiled, hstored⟩ := howned r hprevious
        have hstored' := h.stored hstored
        have hfiled' : (t.ops r.logicalOpId).isSome = true := by
          rw [h.ops r.logicalOpId hop, Option.isSome_map]
          exact hfiled
        simp only [Option.map_some, checkFinalReceipt, MessageReceipt.rename, Option.isNone_iff_eq_none,
          Option.isSome_iff_ne_none] at hfiled hfiled' hstored hstored' ⊢
        exact ⟨(if_neg hfiled).trans (if_neg hstored), (if_neg hfiled').trans (if_neg hstored')⟩
    rw [hchecked.1, hchecked.2]
    refine Mirrored.filing (upsertText_mirrored h hρ hs (w := (Call.recordTextFinal a).textWrite?.get rfl) hrun
      fun _ => rfl) (fun _ _ => rfl) fun _ _ => ?_
    rw [message_rename_option]
    rfl

theorem Mirrors.committedBatch (h : Mirrors ρ run mine s t) {b : BatchReceipt} (hb : mine b.logicalOpId) :
    t.committedBatch (b.rename ρ) = (s.committedBatch b).map (·.rename ρ) := by
  change (t.ops b.logicalOpId).bind _ = ((s.ops b.logicalOpId).bind _).map _
  rw [h.ops b.logicalOpId hb]
  cases s.ops b.logicalOpId <;> rfl

theorem recordToolCalls_mirrored (h : Mirrors ρ run mine s t) (hρ : ρ.Injective) (hs : s.TextTable)
    {a : CallsArgs} (hrun : a.runId = run) (hmine : mine a.logicalOpId)
    (howned : ∀ b, a.previousReceipt = some b → Owned mine s (.batch b)) :
    Mirrored ρ run mine s t (·.rename ρ) (s.recordToolCalls a)
      (t.recordToolCalls { a with previousReceipt := a.previousReceipt.map (·.rename ρ) }) := by
  refine once_mirrored h hmine (fun op => ?_) ?_
  · unfold callsAnswer
    rw [← replayedBatch_rename, ← replay_rename hρ, ← batch_rename_option]
  · have hsame : (a.previousReceipt.map (·.rename ρ)).filter
          (fun r => (t.committedBatch r).map (·.identity) ≠ some r.identity) =
        (a.previousReceipt.filter
          fun r => (s.committedBatch r).map (·.identity) ≠ some r.identity).map (·.rename ρ) := by
      cases hprevious : a.previousReceipt with
      | none => rfl
      | some b =>
        simp only [Option.map_some, Option.filter, h.committedBatch (howned b hprevious)]
        have hiff : (((s.committedBatch b).map (·.rename ρ)).map (·.identity) = some (b.rename ρ).identity) ↔
            (s.committedBatch b).map (·.identity) = some b.identity := by
          cases s.committedBatch b with
          | none => exact iff_of_false (fun h => by cases h) fun h => by cases h
          | some b' =>
            simp only [Option.map_some, Option.some.injEq]
            exact BatchReceipt.identity_rename hρ b' b
        simp only [ne_eq, hiff]
        split_ifs <;> rfl
    dsimp only
    rw [hsame]
    cases a.previousReceipt.filter
        fun r => (s.committedBatch r).map (·.identity) ≠ some r.identity with
    | some b => exact mirrored_same h rfl
    | none =>
      have hrecorded : t.unrecorded a.calls = s.unrecorded a.calls := by
        unfold unrecorded
        rw [h.unrecordedTools]
      dsimp only [Option.map_none]
      rw [hrecorded]
      cases s.unrecorded a.calls with
      | error e => exact mirrored_same h rfl
      | ok outside =>
        cases outside with
        | true =>
          refine ⟨0, rfl, rfl, fun _ => ⟨rfl, ?_⟩⟩
          have hstore := h.storeOp ((Call.recordToolCalls a).operation [] (some (unrecordedBatchOf a)))
          simp only [CommittedOp.rename, Call.operation, Call.previous?, ← batch_rename_option] at hstore
          exact hstore
        | false =>
          refine Mirrored.filing (upsertText_mirrored h hρ hs
            (w := (Call.recordToolCalls a).textWrite?.get rfl) hrun fun _ => rfl) (fun id created => ?_)
            fun id created => ?_
          · simp only [BatchReceipt.rename, List.map_map, Option.map_some]
            rfl
          · rw [batch_rename_option]
            simp only [CommittedOp.rename, Option.map_some, BatchReceipt.rename, List.map_map]
            rfl

/-- The end of `record_tool_results`: what is pending is committed. -/
def committing (a : ResultsArgs) (x : Except Exc (List (String × Message)) × MemoryTranscript) :
    Except Exc (List MessageReceipt) × MemoryTranscript :=
  match x with
  | (.error e, t) => (.error e, t)
  | (.ok pending, t) =>
    let receipts := pending.map fun p => receiptOf (.recordToolResults a) a.recordTarget p.1 true
    (.ok receipts,
      (t.appendAll a.recordTarget pending).storeOp ((Call.recordToolResults a).operation receipts none))

theorem committing_seq (a : ResultsArgs) (rx : Except Exc (List (String × Message))) (t : MemoryTranscript) :
    (committing a (rx, t)).2.seq = t.seq := by
  cases rx with
  | error e => rfl
  | ok pending => exact (appendAll_frame a.recordTarget pending t).1

/-- The loop over the results mints as many ids on both sides, and fails at the same result. -/
theorem pendingResults_mirrored {a : ResultsArgs} (hrun : a.runId = run) {calls : List CallRecord} :
    ∀ (results : List ToolResult) {s t : MemoryTranscript}, Mirrors ρ run mine s t →
      (∀ record ∈ calls, (s.messages record.messageId).isSome = true) →
        ∃ k, (pendingResults a calls s results).2 = { s with seq := s.seq + k } ∧
          (pendingResults { a with previousReceipt := a.previousReceipt.rename ρ } (calls.map (·.rename ρ)) t
            results).2 = { t with seq := t.seq + k } ∧
          (Next ρ run s t k →
            (pendingResults { a with previousReceipt := a.previousReceipt.rename ρ } (calls.map (·.rename ρ)) t
              results).1 = (pendingResults a calls s results).1.map (List.map (Prod.map ρ id)))
  | [], _, _, _, _ => ⟨0, rfl, rfl, fun _ => rfl⟩
  | result :: results, s, t, h, hcalls => by
    unfold pendingResults
    rw [knownCall_rename]
    cases hknown : knownCall calls result.callId with
    | none => exact ⟨0, rfl, rfl, fun _ => rfl⟩
    | some record =>
      have hmem : record ∈ calls := List.mem_reverse.mp (List.mem_of_find?_eq_some hknown)
      have hstored := hcalls record hmem
      have hstored' : (t.messages (record.rename ρ).messageId).isSome = true := h.stored hstored
      dsimp only [Option.map_some]
      rw [if_neg (by simp [Option.isSome_iff_ne_none.mp hstored]),
        if_neg (by simp [Option.isSome_iff_ne_none.mp hstored'])]
      obtain ⟨k, hs, ht, hrest⟩ := pendingResults_mirrored hrun results
        (h.counted (s.seq + 1) (t.seq + 1)) hcalls
      dsimp only [nextId]
      generalize pendingResults a calls { s with seq := s.seq + 1 } results = x at hs hrest ⊢
      generalize pendingResults { a with previousReceipt := a.previousReceipt.rename ρ }
        (calls.map (·.rename ρ)) { t with seq := t.seq + 1 } results = y at ht hrest ⊢
      obtain ⟨rx, s'⟩ := x
      obtain ⟨ry, t'⟩ := y
      dsimp only at hs ht hrest
      have hcount : ∀ n, n + 1 + k = n + (k + 1) := fun n => by omega
      rw [hcount] at hs ht
      refine ⟨k + 1, ?_, ?_, fun hnext => ?_⟩
      · cases rx <;> exact hs
      · cases ry <;> exact ht
      · obtain rfl := hrest fun i hi => by
          have := hnext (i + 1) (by omega)
          rw [show s.seq + 1 + i + 1 = s.seq + (i + 1) + 1 by omega,
            show t.seq + 1 + i + 1 = t.seq + (i + 1) + 1 by omega]
          exact this
        have hid : ρ (msgId a.runId (s.seq + 1)) = msgId a.runId (t.seq + 1) := hrun ▸ hnext 0 (by omega)
        cases rx with
        | error e => rfl
        | ok rest =>
          change Except.ok (_ :: rest.map _) = Except.ok (List.map _ (_ :: rest))
          rw [List.map_cons, Prod.map_apply]
          change Except.ok ((msgId a.runId (t.seq + 1), _) :: _) = Except.ok ((ρ (msgId a.runId (s.seq + 1)), _) :: _)
          rw [hid]
          rfl

theorem Mirrors.appendAll (hρ : ρ.Injective) (target : RecordTarget) :
    ∀ (results : List ToolResult) {s t : MemoryTranscript} {n k : Nat}, Mirrors ρ run mine s t →
      (∀ i, i < results.length → ρ (msgId run (n + i + 1)) = msgId run (k + i + 1)) →
        Mirrors ρ run mine (s.appendAll target (pendingOf run n results))
          (t.appendAll target (pendingOf run k results))
  | [], _, _, _, _, h, _ => h
  | result :: results, _, _, n, k, h, hids => by
    have hone := h.append hρ target (hids 0 (Nat.succ_pos _)) (resultMessage result)
    refine Mirrors.appendAll hρ target results hone fun i hi => ?_
    have := hids (i + 1) (Nat.succ_lt_succ hi)
    rw [show n + 1 + i + 1 = n + (i + 1) + 1 by omega, show k + 1 + i + 1 = k + (i + 1) + 1 by omega]
    exact this

/-- The results of a batch that was accepted. -/
theorem answers_mirrored (h : Mirrors ρ run mine s t) (hρ : ρ.Injective) {a : ResultsArgs} (hrun : a.runId = run)
    {calls : List CallRecord} (hcalls : ∀ record ∈ calls, (s.messages record.messageId).isSome = true) :
    Mirrored ρ run mine s t (List.map (·.rename ρ)) (committing a (pendingResults a calls s a.results))
      (committing { a with previousReceipt := a.previousReceipt.rename ρ }
        (pendingResults { a with previousReceipt := a.previousReceipt.rename ρ } (calls.map (·.rename ρ)) t
          a.results)) := by
  obtain ⟨k, hs, ht, hresults⟩ := pendingResults_mirrored hrun a.results h hcalls
  cases hx : pendingResults a calls s a.results with
  | mk rx s' =>
    cases hy : pendingResults { a with previousReceipt := a.previousReceipt.rename ρ }
        (calls.map (·.rename ρ)) t a.results with
    | mk ry t' =>
      rw [hx] at hs hresults
      rw [hy] at ht hresults
      dsimp only at hs ht hresults
      refine ⟨k, (committing_seq a rx s').trans (by rw [hs]), (committing_seq _ ry t').trans (by rw [ht]),
        fun hnext => ?_⟩
      obtain rfl := hresults hnext
      cases rx with
      | error e =>
        rw [hs, ht]
        exact ⟨rfl, h.counted _ _⟩
      | ok pending =>
        obtain ⟨hs', hpending, -⟩ := pendingResults_ok hx
        obtain ⟨-, hpending', -⟩ := pendingResults_ok hy
        obtain rfl : k = a.results.length := by
          have := congrArg MemoryTranscript.seq (hs.symm.trans hs')
          dsimp only at this
          omega
        have hreceipts : (pending.map (Prod.map ρ id)).map
              (fun p => receiptOf (.recordToolResults a) a.recordTarget p.1 true) =
            (pending.map fun p => receiptOf (.recordToolResults a) a.recordTarget p.1 true).map (·.rename ρ) := by
          simp only [List.map_map]
          rfl
        refine ⟨congrArg Except.ok hreceipts, ?_⟩
        have hall := (h.counted (s.seq + a.results.length) (t.seq + a.results.length)).appendAll hρ a.recordTarget
          a.results (n := s.seq) (k := t.seq) hnext
        rw [hrun] at hpending hpending'
        rw [← hs, ← ht, ← hpending, ← hpending'] at hall
        have hstore := hall.storeOp ((Call.recordToolResults a).operation
          (pending.map fun p => receiptOf (.recordToolResults a) a.recordTarget p.1 true) none)
        simp only [CommittedOp.rename, Call.operation, ← hreceipts, ← List.head?_map] at hstore
        exact hstore

theorem recordToolResults_mirrored (h : Mirrors ρ run mine s t) (hρ : ρ.Injective) (hs : s.Consistent)
    {a : ResultsArgs} (hrun : a.runId = run) (hmine : mine a.logicalOpId)
    (howned : Owned mine s (.batch a.previousReceipt)) :
    Mirrored ρ run mine s t (List.map (·.rename ρ)) (s.recordToolResults a)
      (t.recordToolResults { a with previousReceipt := a.previousReceipt.rename ρ }) := by
  refine once_mirrored h hmine (fun op => ?_) ?_
  · unfold resultsAnswer
    rw [← replayedMessages_rename, ← replay_rename hρ]
    rfl
  · dsimp only
    rw [h.committedBatch howned]
    cases hbatch : s.committedBatch a.previousReceipt with
    | none => exact mirrored_same h rfl
    | some b =>
      dsimp only [Option.map_some]
      have hidentity := BatchReceipt.identity_rename hρ b a.previousReceipt
      by_cases hid : b.identity = a.previousReceipt.identity
      · rw [if_neg (not_not.mpr hid), if_neg (not_not.mpr (hidentity.mpr hid))]
        have hsame : (b.rename ρ).runId = b.runId ∧ (b.rename ρ).stepNo = b.stepNo ∧
            (b.rename ρ).recordTarget = b.recordTarget ∧
            (b.rename ρ).recordingRequired = b.recordingRequired := ⟨rfl, rfl, rfl, rfl⟩
        rw [hsame.1, hsame.2.1, hsame.2.2.1, hsame.2.2.2]
        by_cases hbound : b.runId ≠ a.runId ∨ b.stepNo ≠ a.stepNo ∨ b.recordTarget ≠ a.recordTarget
        · rw [if_pos hbound, if_pos hbound]
          exact mirrored_same h rfl
        · rw [if_neg hbound, if_neg hbound]
          by_cases hreq : b.recordingRequired = false
          · rw [if_pos hreq, if_pos hreq]
            exact mirrored_same h rfl
          · rw [if_neg hreq, if_neg hreq]
            obtain ⟨op, ho, hop⟩ := Option.bind_eq_some_iff.mp hbatch
            have hsound := (hs.ops _ op ho).batch b hop
            have hcalls : ∀ record ∈ b.calls, (s.messages record.messageId).isSome = true :=
              fun record hr => (hsound.listed _ (hsound.calls record hr)).2
            exact answers_mirrored h hρ hrun hcalls
      · rw [if_pos hid, if_pos fun hid' => hid (hidentity.mp hid')]
        exact mirrored_same h rfl

theorem finalizeRun_mirrored (h : Mirrors ρ run mine s t) (hρ : ρ.Injective) (status : RunStatus)
    (hmine : mine (finalizeOp run status)) :
    Mirrored ρ run mine s t id (s.finalizeRun run status) (t.finalizeRun run status) := by
  refine once_mirrored h hmine (fun op => ?_) ⟨0, rfl, rfl, fun _ => ⟨rfl, ?_⟩⟩
  · have hreplay : replay (op.rename ρ) (finalizeOp run status) .runFinal (.runFinal status.value) run none none
          none =
        (replay op (finalizeOp run status) .runFinal (.runFinal status.value) run none none none).map
          (·.rename ρ) := replay_rename hρ op _ _ _ _ _ _ none
    unfold finalizeAnswer
    rw [hreplay]
    cases replay op (finalizeOp run status) .runFinal (.runFinal status.value) run none none none <;> rfl
  · have hstatus : Mirrors ρ run mine { s with runStatus := Function.update s.runStatus run (some status) }
        { t with runStatus := Function.update t.runStatus run (some status) } :=
      ⟨h.unrecordedTools, h.messages, h.order, h.textIds, h.ops, h.failOps,
        (Function.update_self run (some status) t.runStatus).trans
          (Function.update_self run (some status) s.runStatus).symm⟩
    exact hstatus.storeOp ((Call.finalizeRun run status).operation [] none)

/-! ## A call of the run -/

theorem Mirrored.reply {β : Type} {g : β → β} {x y : Except Exc α × MemoryTranscript}
    (h : Mirrored ρ run mine s t f x y) {r : α → β} (hr : ∀ a, r (f a) = g (r a)) :
    Mirrored ρ run mine s t g (x.map (·.map r) id) (y.map (·.map r) id) := by
  obtain ⟨k, hx, hy, hboth⟩ := h
  refine ⟨k, hx, hy, fun hnext => ?_⟩
  obtain ⟨hresult, hm⟩ := hboth hnext
  refine ⟨?_, hm⟩
  dsimp only [Prod.map_apply', Prod.map]
  rw [hresult]
  cases x.1 with
  | error e => rfl
  | ok a => exact congrArg Except.ok (hr a)

/-- **A call of the run.** It ends in the same way in both transcripts, and they still mirror each
other. -/
theorem Mirrors.exec (h : Mirrors ρ run mine s t) (hρ : ρ.Injective) (hs : s.Consistent) {c : Call}
    (hrun : c.runId = run) (hmine : mine c.opId) (howned : ∀ r, c.previous? = some r → Owned mine s r) :
    Mirrored ρ run mine s t (·.rename ρ) (c.exec s) ((c.rename ρ).exec t) := by
  cases c with
  | recordInput a => exact (recordInput_mirrored h hρ hrun hmine).reply fun _ => rfl
  | recordTextDelta a =>
    refine (recordTextDelta_mirrored h hρ hs.texts hrun hmine fun r hr => ?_).reply fun _ => rfl
    exact howned _ (congrArg (Option.map Receipt.message) hr)
  | recordTextFinal a =>
    refine (recordTextFinal_mirrored h hρ hs.texts hrun hmine fun r hr => ?_).reply fun _ => rfl
    exact howned _ (congrArg (Option.map Receipt.message) hr)
  | recordToolCalls a =>
    refine (recordToolCalls_mirrored h hρ hs.texts hrun hmine fun b hb => ?_).reply fun _ => rfl
    exact howned _ (congrArg (Option.map Receipt.batch) hb)
  | recordToolResults a =>
    exact (recordToolResults_mirrored h hρ hs hrun hmine (howned _ rfl)).reply fun _ => rfl
  | finalizeRun runId status =>
    obtain rfl : runId = run := hrun
    exact (finalizeRun_mirrored h hρ status hmine).reply fun _ => rfl

/-! ## A call of another run -/

/-- The ids under which a transcript keeps text are of the run the text is of. -/
def Minted (t : MemoryTranscript) : Prop :=
  ∀ key id, t.textIds key = some id → ∃ n, id = msgId key.1 n

theorem Minted.exec (h : t.Minted) (c : Call) : (c.exec t).2.Minted := by
  have hout := t.exec_outcome c
  generalize (c.exec t).1 = result at hout
  generalize (c.exec t).2 = t' at hout ⊢
  have hup : ∀ {w : Call.TextWrite} {id created t₁}, t.Upserted w id created t₁ → t₁.Minted := by
    intro w id created t₁ hup key id' hid'
    cases hup with
    | created _ =>
      by_cases heq : key = w.key
      · subst heq
        cases (Function.update_self ..).symm.trans hid'
        exact ⟨_, rfl⟩
      · exact h key id' ((Function.update_of_ne heq _ _).symm.trans hid')
    | updated _ _ => exact h key id' hid'
  cases hout with
  | failed hrej =>
    intro key id hid
    exact h key id (hrej.textIds ▸ hid)
  | replayed _ _ | skipped _ _ _ _ => exact h
  | committed _ _ _ hcommit =>
    cases hcommit with
    | input _ | unrecordedCalls _ | runFinal _ _ => exact h
    | text _ _ hupserted | toolCalls _ _ hupserted =>
      have hminted := hup hupserted
      exact hminted
    | @toolResults a _ _ _ _ =>
      have hframe := (appendAll_frame a.recordTarget (pendingOf a.runId t.seq a.results)
        { t with seq := t.seq + a.results.length }).2.1
      exact fun key id hid => h key id ((congrFun hframe key).symm.trans hid)

/-- A call uses up the failures injected for its own operation only. -/
theorem exec_failOps (t : MemoryTranscript) (c : Call) {other : String} (hne : other ≠ c.opId) :
    other ∈ (c.exec t).2.failOps ↔ other ∈ t.failOps := by
  have hout := t.exec_outcome c
  generalize (c.exec t).1 = result at hout
  generalize (c.exec t).2 = t' at hout ⊢
  cases hout with
  | failed hrej hkept => exact ⟨hrej.failOps other, fun hid => hkept other hid hne⟩
  | replayed _ _ | skipped _ _ _ _ => exact Iff.rfl
  | committed _ _ _ hcommit => exact Iff.of_eq (congrArg (other ∈ ·) hcommit.switches.1)

theorem appendAll_added (run : String) (target : RecordTarget) {other id : String} :
    ∀ (results : List ToolResult) (t : MemoryTranscript) (n : Nat),
      id ∈ (t.appendAll target (pendingOf run n results)).order other →
        id ∈ t.order other ∨ ∃ k, id = msgId run k
  | [], _, _, h => .inl h
  | result :: results, t, n, h => by
    rcases appendAll_added run target results _ (n + 1) h with hold | hnew
    · exact (mem_order_append.mp hold).imp_right fun hid => ⟨n + 1, hid.2⟩
    · exact .inr hnew

theorem textWrite_run {c : Call} {w : Call.TextWrite} (hw : c.textWrite? = some w) : w.key.1 = c.runId := by
  cases c <;> cases hw <;> rfl

/-- The messages that a call adds are of its run. -/
theorem exec_added (t : MemoryTranscript) (c : Call) {target id : String} (h : id ∈ (c.exec t).2.order target) :
    id ∈ t.order target ∨ ∃ n, id = msgId c.runId n := by
  have hout := t.exec_outcome c
  generalize (c.exec t).1 = result at hout
  generalize (c.exec t).2 = t' at hout h
  have hup : ∀ {w : Call.TextWrite} {id' created t₁}, c.textWrite? = some w → t.Upserted w id' created t₁ →
      id ∈ t₁.order target → id ∈ t.order target ∨ ∃ n, id = msgId c.runId n := by
    intro w id' created t₁ hw hup hid
    cases hup with
    | created _ => exact (mem_order_append.mp hid).imp_right fun hnew => ⟨t.seq + 1, textWrite_run hw ▸ hnew.2⟩
    | updated _ _ => exact .inl hid
  cases hout with
  | failed hrej => exact .inl (hrej.order ▸ h)
  | replayed _ _ | skipped _ _ _ _ => exact .inl h
  | committed _ _ _ hcommit =>
    cases hcommit with
    | input a => exact ((mem_order_append (m := a.message)).mp h).imp_right fun hnew => ⟨t.seq + 1, hnew.2⟩
    | unrecordedCalls _ | runFinal _ _ => exact .inl h
    | text _ hw hupserted | toolCalls _ hw hupserted =>
      have hadded := hup hw hupserted h
      exact hadded
    | @toolResults a _ _ _ _ =>
      exact appendAll_added a.runId a.recordTarget a.results { t with seq := t.seq + a.results.length } t.seq h

theorem exec_filter (ht : t.Consistent) (c : Call) (target : String) (hne : c.runId ≠ run) :
    ((c.exec t).2.order target).filter (mintedFor run) = (t.order target).filter (mintedFor run) := by
  obtain ⟨hconsistent, hgrows, -⟩ := ht.exec c
  obtain ⟨more, hmore⟩ := hgrows.order target
  have hforeign : more.filter (mintedFor run) = [] := by
    refine List.filter_eq_nil_iff.mpr fun id hid hminted => ?_
    have hnodup := hconsistent.tables.nodup target
    rw [← hmore] at hnodup
    rcases exec_added t c (hmore ▸ List.mem_append_right _ hid) with hold | ⟨n, rfl⟩
    · exact (List.nodup_append.mp hnodup).2.2 id hold id hid rfl
    · exact hne ((mintedFor_msgId run c.runId n).mp hminted)
  rw [← hmore, List.filter_append, hforeign, List.append_nil]

/-- **A call of another run.** It leaves the transcripts mirroring each other. -/
theorem Mirrors.aside (h : Mirrors ρ run mine s t) (hs : s.Consistent) (ht : t.Consistent) (hminted : t.Minted)
    {c : Call} (hrun : c.runId ≠ run) (hmine : ¬ mine c.opId) : Mirrors ρ run mine s (c.exec t).2 where
  unrecordedTools := (exec_unrecordedTools t c).trans h.unrecordedTools
  messages id m hm := by
    rcases exec_messages ht c (h.messages id m hm) with hsame | ⟨w, hw, hkey⟩
    · exact hsame
    · -- the text of another run has another id
      obtain ⟨n, hn⟩ := hminted w.key _ hkey
      obtain ⟨target, hlisted⟩ := (hs.tables.stored id).mp (by rw [hm]; rfl)
      have hown : mintedFor run (ρ id) = true := by
        have hmem : ρ id ∈ (t.order target).filter (mintedFor run) := by
          rw [h.order]
          exact List.mem_map_of_mem hlisted
        exact (List.mem_filter.mp hmem).2
      rw [hn, mintedFor_msgId, textWrite_run hw] at hown
      exact absurd hown hrun
  order target := (exec_filter ht c target hrun).trans (h.order target)
  textIds key hkey := by
    rcases exec_textIds t c key with hsame | ⟨w, hw, heq⟩
    · rw [hsame, h.textIds key hkey]
    · rw [← heq, textWrite_run hw] at hkey
      exact absurd hkey hrun
  ops opId hopId := by
    have hne : opId ≠ c.opId := fun heq => hmine (heq ▸ hopId)
    have hsame := h.ops opId hopId
    cases ho : t.ops opId with
    | none => rw [exec_unfiled ho hne, ← hsame, ho]
    | some op => rw [exec_ops ho c, ← hsame, ho]
  failOps opId hopId :=
    (exec_failOps t c fun heq => hmine (heq ▸ hopId)).trans (h.failOps opId hopId)
  runStatus := by
    rw [← h.runStatus]
    refine (exec_alike t c fun status heq => ?_).status
    exact hrun (by rw [heq]; rfl)

/-- A failure that is injected into both. -/
theorem Mirrors.injectWriteFailure (h : Mirrors ρ run mine s t) (opId : String) :
    Mirrors ρ run mine (s.injectWriteFailure opId) (t.injectWriteFailure opId) := by
  refine ⟨h.unrecordedTools, h.messages, h.order, h.textIds, h.ops, fun other hother => ?_, h.runStatus⟩
  simp only [MemoryTranscript.injectWriteFailure, List.mem_cons, h.failOps other hother]

end Methods

end MemoryTranscript

end AgentRuntime
