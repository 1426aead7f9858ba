import AgentRuntime.Recording.Mirrors
import AgentRuntime.Recording.Supplied

/-!
# Runs that share a transcript

Any number of clients of one transcript, each with a run of its own.

* `Request` — a call, with the earlier receipt its client supplies; `Shared` — the transcript, and what
  each run was answered; `Arrival` — what happens to it, in order;
* `Labelled`, `Owned` — the receipts a client holds are of its own operations;
* `Paired` — the transcript with everybody's arrivals, and the one with those of one run alone;
* `runs_isolated` — each run is answered, and contributes, what it would alone, up to a renaming of ids.
-/

set_option autoImplicit false

namespace AgentRuntime

/-! ## Clients -/

/-- The call with the receipt that is supplied, whatever stands in its place; `none` for a receipt that
the method does not take. -/
def Call.supply : Call → Option Receipt → Option Call
  | recordInput a, none => some (.recordInput a)
  | recordTextDelta a, none => some (.recordTextDelta { a with previousReceipt := none })
  | recordTextDelta a, some (.message r) => some (.recordTextDelta { a with previousReceipt := some r })
  | recordTextFinal a, none => some (.recordTextFinal { a with previousReceipt := none })
  | recordTextFinal a, some (.message r) => some (.recordTextFinal { a with previousReceipt := some r })
  | recordToolCalls a, none => some (.recordToolCalls { a with previousReceipt := none })
  | recordToolCalls a, some (.batch b) => some (.recordToolCalls { a with previousReceipt := some b })
  | recordToolResults a, some (.batch b) => some (.recordToolResults { a with previousReceipt := b })
  | finalizeRun runId status, none => some (.finalizeRun runId status)
  | _, _ => none

/-- A receipt a client was given: which of its requests was answered with it, and the place in the
answer. -/
structure Held where
  request : Nat
  place : Nat
  deriving Repr

/-- A call of a client, and the receipt it supplies: one that it was given. -/
structure Request where
  call : Call
  held : Option Held := none
  deriving Repr

/-- How a request was answered; `none` where there was no such receipt to call with. -/
abbrev Response : Type := Option (Except Exc Reply)

def Held.receipt? (answers : List Response) (held : Held) : Option Receipt :=
  match answers[held.request]? with
  | some (some (.ok reply)) => reply.receipts[held.place]?
  | _ => none

/-- The call a request makes, after the answers its run was given. -/
def Request.call? (answers : List Response) (q : Request) : Option Call :=
  match q.held with
  | none => q.call.supply none
  | some held => (held.receipt? answers).bind fun r => q.call.supply (some r)

/-- One transcript, and what each run was answered, in order. -/
structure Shared where
  transcript : MemoryTranscript
  answers : String → List Response

/-- What happens to a shared transcript: a request of a run, or a failure is injected. -/
inductive Arrival where
  | request (q : Request)
  | failure (opId : String)
  deriving Repr

namespace Shared

def empty (tools : List String) : Shared := ⟨.empty tools, fun _ => []⟩

def answered (v : Shared) (runId : String) (transcript : MemoryTranscript) (answer : Response) : Shared where
  transcript := transcript
  answers := Function.update v.answers runId (v.answers runId ++ [answer])

def take (v : Shared) : Arrival → Shared
  | .request q =>
    match q.call? (v.answers q.call.runId) with
    | none => v.answered q.call.runId v.transcript none
    | some c => v.answered q.call.runId (c.exec v.transcript).2 (some (c.exec v.transcript).1)
  | .failure opId => { v with transcript := v.transcript.injectWriteFailure opId }

/-- The transcript after a number of arrivals. -/
def after (tools : List String) (arrivals : List Arrival) : Shared := arrivals.foldl take (empty tools)

theorem after_concat (tools : List String) (arrivals : List Arrival) (arrival : Arrival) :
    after tools (arrivals ++ [arrival]) = (after tools arrivals).take arrival := List.foldl_concat ..

end Shared

/-- The arrivals without the requests of other runs. -/
def Arrival.isOf (run : String) : Arrival → Bool
  | request q => q.call.runId == run
  | failure _ => true

/-- No operation id of the run is one of another run. -/
def DisjointOps (run : String) (arrivals : List Arrival) : Prop :=
  ∀ q q' : Request, .request q ∈ arrivals → .request q' ∈ arrivals → q.call.runId = run →
    q'.call.runId ≠ run → q.call.opId ≠ q'.call.opId

/-! ## Renamed responses -/

section Renaming

variable {ρ : String → String}

def Response.rename (ρ : String → String) (response : Response) : Response :=
  response.map (Except.map (Reply.rename ρ))

theorem Call.supply_spec {c c' : Call} {r : Option Receipt} (h : c.supply r = some c') :
    c'.runId = c.runId ∧ c'.opId = c.opId ∧ c'.previous? = r := by
  cases c <;> rcases r with - | (r | b) <;> cases h <;> exact ⟨rfl, rfl, rfl⟩

/-- The call is the one of the request, with a receipt that its run was given. -/
theorem Request.call?_spec {answers : List Response} {q : Request} {c : Call} (h : q.call? answers = some c) :
    c.runId = q.call.runId ∧ c.opId = q.call.opId ∧
      ∀ r, c.previous? = some r → ∃ reply, some (.ok reply) ∈ answers ∧ r ∈ reply.receipts := by
  unfold Request.call? at h
  split at h
  · obtain ⟨hrun, hop, hprevious⟩ := Call.supply_spec h
    refine ⟨hrun, hop, fun r hr => ?_⟩
    cases hprevious.symm.trans hr
  · rename_i held _
    obtain ⟨r, hreceipt, hsupply⟩ := Option.bind_eq_some_iff.mp h
    obtain ⟨hrun, hop, hprevious⟩ := Call.supply_spec hsupply
    refine ⟨hrun, hop, fun r' hr' => ?_⟩
    obtain rfl := Option.some.inj (hprevious.symm.trans hr')
    unfold Held.receipt? at hreceipt
    split at hreceipt
    · rename_i reply hreply
      exact ⟨reply, List.mem_of_getElem? hreply, List.mem_of_getElem? hreceipt⟩
    · cases hreceipt

theorem Call.supply_rename (c : Call) (r : Option Receipt) :
    c.supply (r.map (·.rename ρ)) = (c.supply r).map (·.rename ρ) := by
  cases c <;> rcases r with - | (r | b) <;> rfl

theorem Held.receipt?_rename (answers : List Response) (held : Held) :
    held.receipt? (answers.map (Response.rename ρ)) = (held.receipt? answers).map (·.rename ρ) := by
  unfold Held.receipt?
  rw [List.getElem?_map]
  rcases answers[held.request]? with - | (- | (e | reply))
  · rfl
  · rfl
  · rfl
  · change (reply.rename ρ).receipts[held.place]? = _
    rw [Reply.receipts_rename, List.getElem?_map]

theorem Request.call?_rename (answers : List Response) (q : Request) :
    q.call? (answers.map (Response.rename ρ)) = (q.call? answers).map (·.rename ρ) := by
  unfold Request.call?
  cases q.held with
  | none => exact q.call.supply_rename none
  | some held =>
    dsimp only
    rw [held.receipt?_rename]
    cases held.receipt? answers with
    | none => rfl
    | some r => exact q.call.supply_rename (some r)

end Renaming

namespace MemoryTranscript

variable {s t : MemoryTranscript} {mine : String → Prop} {run : String}

/-! ## The receipts of a client -/

/-- The receipts on file under an id are of that operation. -/
def Labelled (s : MemoryTranscript) : Prop :=
  ∀ opId op, s.ops opId = some op → ∀ r ∈ op.receipts, r.logicalOpId = opId

theorem Commits.labelled {c : Call} {receipts : List MessageReceipt} {batch : Option BatchReceipt} {reply : Reply}
    {s' : MemoryTranscript} (h : s.Commits c receipts batch reply s') :
    (∀ r ∈ (c.operation receipts batch).receipts, r.logicalOpId = c.opId) ∧
      ∀ r ∈ reply.receipts, r.logicalOpId = c.opId := by
  cases h with
  | input a | text _ _ _ | toolCalls _ _ _ | unrecordedCalls _ =>
    refine ⟨fun r hr => ?_, fun r hr => ?_⟩ <;>
      · rw [List.mem_singleton.mp hr]
        rfl
  | @toolResults a b _ _ _ =>
    have hall : ∀ r ∈ ((pendingOf a.runId s.seq a.results).map fun p =>
        receiptOf (.recordToolResults a) a.recordTarget p.1 true).map Receipt.message,
          r.logicalOpId = a.logicalOpId := by
      intro r hr
      obtain ⟨receipt, hreceipt, rfl⟩ := List.mem_map.mp hr
      obtain ⟨p, -, rfl⟩ := List.mem_map.mp hreceipt
      rfl
    refine ⟨fun r hr => hall r ?_, hall⟩
    exact (List.mem_append.mp hr).resolve_right fun hnone => by cases hnone
  | runFinal runId status => exact ⟨fun r hr => (by cases hr), fun r hr => by cases hr⟩

theorem Labelled.exec (h : s.Labelled) (c : Call) : (c.exec s).2.Labelled := by
  have hout := s.exec_outcome c
  generalize (c.exec s).1 = result at hout
  generalize (c.exec s).2 = s' at hout ⊢
  cases hout with
  | failed hrej =>
    intro opId op ho
    exact h opId op (hrej.ops ▸ ho)
  | replayed _ _ | skipped _ _ _ _ => exact h
  | committed _ _ _ hcommit =>
    intro opId op ho
    rcases storeOp_ops ho with ⟨rfl, rfl⟩ | hold
    · exact hcommit.labelled.1
    · exact h opId op (hcommit.ops ▸ hold)

/-- A replay hands out receipts of the operation on file. -/
theorem echo_receipts {op : CommittedOp} {c : Call} {reply : Reply} (h : s.Vouches op)
    (hecho : echo op c = .ok reply) :
    ∀ r ∈ reply.receipts, ∃ r' ∈ op.receipts, r.logicalOpId = r'.logicalOpId := by
  cases c with
  | recordInput a | recordTextDelta a | recordTextFinal a =>
    simp only [echo] at hecho
    split at hecho
    · rename_i receipt hop
      cases hecho
      intro r hr
      rw [List.mem_singleton.mp hr]
      have hmem : receipt ∈ op.messageReceipts := List.mem_of_mem_head? (h.receipt ▸ hop)
      exact ⟨.message receipt, List.mem_append_left _ (List.mem_map_of_mem hmem), rfl⟩
    · cases hecho
  | recordToolCalls a =>
    simp only [echo] at hecho
    split at hecho
    · rename_i b hop
      cases hecho
      intro r hr
      rw [List.mem_singleton.mp hr]
      refine ⟨.batch b, List.mem_append_right _ ?_, rfl⟩
      rw [hop]
      exact List.mem_singleton_self _
    · cases hecho
  | recordToolResults a =>
    cases hecho
    intro r hr
    obtain ⟨receipt, hreceipt, rfl⟩ := List.mem_map.mp hr
    obtain ⟨receipt', hmem, rfl⟩ := List.mem_map.mp hreceipt
    exact ⟨.message receipt', List.mem_append_left _ (List.mem_map_of_mem hmem), rfl⟩
  | finalizeRun runId status =>
    cases hecho
    exact fun r hr => by cases hr

/-- What a call hands out is of its own operation. -/
theorem exec_labelled (h : s.Labelled) (hs : s.Consistent) {c : Call} {reply : Reply}
    (hreply : (c.exec s).1 = .ok reply) :
    ∀ r ∈ reply.receipts, r.logicalOpId = c.opId ∧ ((c.exec s).2.ops c.opId).isSome = true := by
  have hout := s.exec_outcome c
  rw [hreply] at hout
  generalize (c.exec s).2 = s' at hout ⊢
  cases hout with
  | skipped _ _ _ _ => exact fun r hr => by cases hr
  | committed _ _ _ hcommit =>
    refine fun r hr => ⟨hcommit.labelled.2 r hr, ?_⟩
    exact Option.isSome_iff_exists.mpr ⟨_, Function.update_self ..⟩
  | @replayed op _ ho ha =>
    refine fun r hr => ⟨?_, by rw [ho]; rfl⟩
    obtain ⟨r', hr', hlabel⟩ := echo_receipts (hs.ops c.opId op ho) (answer_ok ha).2 r hr
    exact hlabel.trans (h c.opId op ho r' hr')

theorem Owned.exec {r : Receipt} (h : Owned mine s r) (hs : s.Consistent) (c : Call) :
    Owned mine (c.exec s).2 r := by
  cases r with
  | batch b => exact h
  | message r =>
    obtain ⟨hmine, hop, hm⟩ := h
    obtain ⟨op, ho⟩ := Option.isSome_iff_exists.mp hop
    obtain ⟨m, hm⟩ := Option.isSome_iff_exists.mp hm
    obtain ⟨m', hm', -⟩ := (hs.exec c).2.1.role r.messageId m hm
    exact ⟨hmine, Option.isSome_iff_exists.mpr ⟨op, exec_ops ho c⟩, Option.isSome_iff_exists.mpr ⟨m', hm'⟩⟩

/-- **Receipts.** What a call of the run hands out, the run owns. -/
theorem exec_owned (h : s.Labelled) (hs : s.Consistent) {c : Call} (hmine : mine c.opId) {reply : Reply}
    (hreply : (c.exec s).1 = .ok reply) : ∀ r ∈ reply.receipts, Owned mine (c.exec s).2 r := by
  intro r hr
  obtain ⟨hlabel, hfiled⟩ := exec_labelled h hs hreply r hr
  have hbacked := (hs.exec c).2.2 reply hreply r hr
  cases r with
  | batch b =>
    change mine b.logicalOpId
    rw [show b.logicalOpId = c.opId from hlabel]
    exact hmine
  | message r =>
    have hid : r.logicalOpId = c.opId := hlabel
    refine ⟨hid ▸ hmine, hid ▸ hfiled, ?_⟩
    exact hbacked.2

theorem exec_seq (t : MemoryTranscript) (c : Call) : t.seq ≤ (c.exec t).2.seq := by
  have hout := t.exec_outcome c
  generalize (c.exec t).1 = result at hout
  generalize (c.exec t).2 = t' at hout ⊢
  cases hout with
  | failed hrej => exact hrej.seq
  | replayed _ _ | skipped _ _ _ _ => exact Nat.le_refl _
  | committed _ _ _ hcommit =>
    cases hcommit with
    | input _ => exact Nat.le_succ _
    | unrecordedCalls _ | runFinal _ _ => exact Nat.le_refl _
    | text _ _ hup | toolCalls _ _ hup =>
      cases hup with
      | created _ => exact Nat.le_succ _
      | updated _ _ => exact Nat.le_refl _
    | @toolResults a _ _ _ _ =>
      have hframe := (appendAll_frame a.recordTarget (pendingOf a.runId t.seq a.results)
        { t with seq := t.seq + a.results.length }).1
      exact Nat.le_trans (Nat.le_add_right _ _) (Nat.le_of_eq hframe.symm)

end MemoryTranscript

namespace Shared

/-! ## A run, with the others and without -/

/-- `alone` has the arrivals of the run, `whole` those of the others too; the numbers that the run is given
alone correspond to those it is given among the others. -/
structure Paired (run : String) (mine : String → Prop) (alone whole : Shared) (σ : Nat → Nat) : Prop where
  consistent : alone.transcript.Consistent
  consistent' : whole.transcript.Consistent
  minted : whole.transcript.Minted
  labelled : alone.transcript.Labelled
  /-- In the transcript of the run alone there are no messages but its own. -/
  only : ∀ target id, id ∈ alone.transcript.order target → MemoryTranscript.mintedFor run id = true
  owned : ∀ reply, some (.ok reply) ∈ alone.answers run → ∀ r ∈ reply.receipts,
    MemoryTranscript.Owned mine alone.transcript r
  injective : ∀ i j, i ≤ alone.transcript.seq → j ≤ alone.transcript.seq → σ i = σ j → i = j
  bounded : ∀ k, k ≤ alone.transcript.seq → σ k ≤ whole.transcript.seq
  mirrors : ∀ ρ : String → String, ρ.Injective →
    (∀ k, k ≤ alone.transcript.seq →
      ρ (MemoryTranscript.msgId run k) = MemoryTranscript.msgId run (σ k)) →
    MemoryTranscript.Mirrors ρ run mine alone.transcript whole.transcript ∧
      whole.answers run = (alone.answers run).map (Response.rename ρ)

open MemoryTranscript

variable {run : String} {mine : String → Prop} {alone whole : Shared} {σ : Nat → Nat}

theorem answered_self (v : Shared) (run : String) (t : MemoryTranscript) (response : Response) :
    (v.answered run t response).answers run = v.answers run ++ [response] := Function.update_self ..

theorem paired_empty (tools : List String) : Paired run mine (empty tools) (empty tools) id where
  consistent := consistent_empty tools
  consistent' := consistent_empty tools
  minted := fun _ _ h => by cases h
  labelled := fun _ _ h => by cases h
  only := fun _ _ h => by cases h
  owned := fun _ h => by cases h
  injective := fun _ _ _ _ h => h
  bounded := fun _ h => h
  mirrors := fun ρ _ _ =>
    ⟨⟨rfl, fun _ _ h => (by cases h), fun _ => rfl, fun _ _ => rfl, fun _ _ => rfl, fun _ _ => Iff.rfl, rfl⟩, rfl⟩

theorem Paired.failure (h : Paired run mine alone whole σ) (opId : String) :
    Paired run mine (alone.take (.failure opId)) (whole.take (.failure opId)) σ where
  consistent := h.consistent.injectWriteFailure opId
  consistent' := h.consistent'.injectWriteFailure opId
  minted := h.minted
  labelled := h.labelled
  only := h.only
  owned := fun reply hreply r hr => by
    have howned := h.owned reply hreply r hr
    cases r <;> exact howned
  injective := h.injective
  bounded := h.bounded
  mirrors := fun ρ hρ hids => by
    obtain ⟨hm, hanswers⟩ := h.mirrors ρ hρ hids
    exact ⟨hm.injectWriteFailure opId, hanswers⟩

/-- A request of another run. -/
theorem Paired.other (h : Paired run mine alone whole σ) {q : Request} (hrun : q.call.runId ≠ run)
    (hmine : ¬ mine q.call.opId) : Paired run mine alone (whole.take (.request q)) σ := by
  have hanswers : ∀ t response, (whole.answered q.call.runId t response).answers run = whole.answers run :=
    fun t response => Function.update_of_ne hrun.symm _ _
  simp only [take]
  cases hcall : q.call? (whole.answers q.call.runId) with
  | none =>
    refine ⟨h.consistent, h.consistent', h.minted, h.labelled, h.only, h.owned, h.injective, h.bounded,
      fun ρ hρ hids => ?_⟩
    obtain ⟨hm, hsame⟩ := h.mirrors ρ hρ hids
    exact ⟨hm, (hanswers _ _).trans hsame⟩
  | some c =>
    obtain ⟨hsameRun, hsameOp, -⟩ := Request.call?_spec hcall
    refine ⟨h.consistent, (h.consistent'.exec c).1, h.minted.exec c, h.labelled, h.only, h.owned, h.injective,
      fun k hk => Nat.le_trans (h.bounded k hk) (exec_seq _ c), fun ρ hρ hids => ?_⟩
    obtain ⟨hm, hsame⟩ := h.mirrors ρ hρ hids
    exact ⟨hm.aside h.consistent h.consistent' h.minted (hsameRun ▸ hrun) (hsameOp ▸ hmine),
      (hanswers _ _).trans hsame⟩

/-- The numbers of the run after a call: those that are new alone are new among the others. -/
def continued (σ : Nat → Nat) (n m k : Nat) : Nat := if k ≤ n then σ k else m + (k - n)

theorem continued_injective {n m : Nat} (hinj : ∀ i j, i ≤ n → j ≤ n → σ i = σ j → i = j)
    (hbound : ∀ k, k ≤ n → σ k ≤ m) (i j : Nat) (h : continued σ n m i = continued σ n m j) : i = j := by
  unfold continued at h
  split_ifs at h with hin hjn hjn
  · exact hinj i j hin hjn h
  · have := hbound i hin
    omega
  · have := hbound j hjn
    omega
  · omega

theorem continued_bounded {n m more : Nat} (hbound : ∀ k, k ≤ n → σ k ≤ m) (k : Nat) (hk : k ≤ n + more) :
    continued σ n m k ≤ m + more := by
  unfold continued
  split_ifs with hkn
  · exact Nat.le_add_right_of_le (hbound k hkn)
  · omega

/-- A request of the run itself. -/
theorem Paired.own (h : Paired run mine alone whole σ) {q : Request} (hrun : q.call.runId = run)
    (hmine : mine q.call.opId) :
    ∃ σ', Paired run mine (alone.take (.request q)) (whole.take (.request q)) σ' := by
  subst hrun
  obtain ⟨ρ₀, hρ₀⟩ := exists_perm q.call.runId σ alone.transcript.seq h.injective
  obtain ⟨hm₀, hanswers₀⟩ := h.mirrors ρ₀ ρ₀.injective hρ₀
  simp only [take]
  cases hcall : q.call? (alone.answers q.call.runId) with
  | none =>
    have hcall' : q.call? (whole.answers q.call.runId) = none := by
      rw [hanswers₀, Request.call?_rename, hcall]
      rfl
    rw [hcall']
    refine ⟨σ, h.consistent, h.consistent', h.minted, h.labelled, h.only, fun reply hreply => ?_, h.injective,
      h.bounded, fun ρ hρ hids => ?_⟩
    · rw [answered_self, List.mem_append, List.mem_singleton] at hreply
      exact h.owned reply (hreply.resolve_right fun hno => by cases hno)
    · obtain ⟨hm, hanswers⟩ := h.mirrors ρ hρ hids
      refine ⟨hm, ?_⟩
      rw [answered_self, answered_self, hanswers, List.map_append]
      rfl
  | some c =>
    obtain ⟨hsameRun, hsameOp, hprevious⟩ := Request.call?_spec hcall
    have hcall' : ∀ ρ : String → String, whole.answers q.call.runId =
        (alone.answers q.call.runId).map (Response.rename ρ) →
          q.call? (whole.answers q.call.runId) = some (c.rename ρ) := by
      intro ρ hanswers
      rw [hanswers, Request.call?_rename, hcall]
      rfl
    have hown : ∀ r, c.previous? = some r → Owned mine alone.transcript r := by
      intro r hr
      obtain ⟨reply, hreply, hmem⟩ := hprevious r hr
      exact h.owned reply hreply r hmem
    have hop : mine c.opId := hsameOp ▸ hmine
    rw [hcall' ρ₀ hanswers₀]
    obtain ⟨more, hmore, hmore', -⟩ := hm₀.exec ρ₀.injective h.consistent hsameRun hop hown
    refine ⟨continued σ alone.transcript.seq whole.transcript.seq, (h.consistent.exec c).1,
      (h.consistent'.exec _).1, h.minted.exec _, h.labelled.exec c, fun target id hid => ?_,
      fun reply hreply r hr => ?_, fun i j _ _ hij => continued_injective h.injective h.bounded i j hij,
      fun k hk => ?_, fun ρ hρ hids => ?_⟩
    · rcases exec_added alone.transcript c hid with hold | ⟨n, rfl⟩
      · exact h.only target id hold
      · exact (mintedFor_msgId _ _ _).mpr hsameRun
    · rw [answered_self, List.mem_append, List.mem_singleton] at hreply
      rcases hreply with hold | hnew
      · exact (h.owned reply hold r hr).exec h.consistent c
      · exact exec_owned h.labelled h.consistent hop (Option.some.inj hnew).symm r hr
    · change k ≤ (c.exec alone.transcript).2.seq at hk
      change _ ≤ ((c.rename ρ₀).exec whole.transcript).2.seq
      rw [hmore']
      exact continued_bounded h.bounded k (hmore ▸ hk)
    · change ∀ k, k ≤ (c.exec alone.transcript).2.seq → _ at hids
      have hold : ∀ k, k ≤ alone.transcript.seq → ρ (msgId q.call.runId k) = msgId q.call.runId (σ k) := by
        intro k hk
        rw [hids k (Nat.le_trans hk (exec_seq _ c)), continued, if_pos hk]
      obtain ⟨hm, hanswers⟩ := h.mirrors ρ hρ hold
      have hsame : c.rename ρ = c.rename ρ₀ :=
        Option.some.inj ((hcall' ρ hanswers).symm.trans (hcall' ρ₀ hanswers₀))
      obtain ⟨k, hk, -, hboth⟩ := hm.exec hρ h.consistent hsameRun hop hown
      rw [hsame] at hboth
      obtain ⟨hreply, hmirrors⟩ := hboth fun i hi => by
        rw [hids (alone.transcript.seq + i + 1) (by omega), continued, if_neg (by omega)]
        congr 1
        omega
      refine ⟨hmirrors, ?_⟩
      rw [answered_self, answered_self, hanswers, List.map_append, hreply]
      rfl

/-! ## Every interleaving -/

theorem paired (run : String) (mine : String → Prop) (tools : List String) (arrivals : List Arrival)
    (hown : ∀ q, .request q ∈ arrivals → q.call.runId = run → mine q.call.opId)
    (hother : ∀ q, .request q ∈ arrivals → q.call.runId ≠ run → ¬ mine q.call.opId) :
    ∃ σ, Paired run mine (after tools (arrivals.filter (Arrival.isOf run))) (after tools arrivals) σ := by
  induction arrivals using List.reverseRecOn with
  | nil => exact ⟨id, paired_empty tools⟩
  | append_singleton arrivals arrival ih =>
    have hlast : arrival ∈ arrivals ++ [arrival] := List.mem_append_right _ List.mem_cons_self
    obtain ⟨σ, h⟩ := ih (fun q hq => hown q (List.mem_append_left _ hq)) fun q hq =>
      hother q (List.mem_append_left _ hq)
    rw [List.filter_append, List.filter_singleton, after_concat]
    cases arrival with
    | failure opId =>
      rw [show Arrival.isOf run (.failure opId) = true from rfl, cond_true, after_concat]
      exact ⟨σ, h.failure opId⟩
    | request q =>
      by_cases hrun : q.call.runId = run
      · rw [show Arrival.isOf run (.request q) = true from beq_iff_eq.mpr hrun, cond_true, after_concat]
        exact h.own hrun (hown q hlast hrun)
      · rw [show Arrival.isOf run (.request q) = false from beq_eq_false_iff_ne.mpr hrun, cond_false,
          List.append_nil]
        exact ⟨σ, h.other hrun (hother q hlast hrun)⟩

theorem Paired.contributed (h : Paired run mine alone whole σ) {ρ : String → String}
    (hm : Mirrors ρ run mine alone.transcript whole.transcript) (target : RecordTarget) :
    whole.transcript.contributed run target = (alone.transcript.contributed run target).map (·.rename ρ) := by
  have honly : (alone.transcript.order target.value).filter (mintedFor run) =
      alone.transcript.order target.value := List.filter_eq_self.mpr fun id => h.only target.value id
  unfold MemoryTranscript.contributed
  rw [hm.order, honly, List.filterMap_map, List.map_filterMap]
  refine List.filterMap_congr fun id hid => ?_
  have hstored := (h.consistent.tables.stored id).mpr ⟨_, hid⟩
  obtain ⟨m, hmessage⟩ := Option.isSome_iff_exists.mp hstored
  rw [Function.comp_apply, hm.messages id m hmessage, hmessage]
  rfl

/-- **Isolation.** However the requests of several runs come in at one transcript: if no operation id of a
run is one of another run, each of its requests is answered as it would be alone, it contributes the same
messages to every target, and has the same status, all of it up to one renaming of the message ids. -/
theorem runs_isolated (tools : List String) (arrivals : List Arrival) (run : String)
    (h : DisjointOps run arrivals) :
    ∃ ρ : Equiv.Perm String,
      (after tools arrivals).answers run =
          ((after tools (arrivals.filter (Arrival.isOf run))).answers run).map (Response.rename ρ) ∧
        (∀ target, (after tools arrivals).transcript.contributed run target =
          ((after tools (arrivals.filter (Arrival.isOf run))).transcript.contributed run target).map
            (Message.rename ρ)) ∧
        (after tools arrivals).transcript.runStatus run =
          (after tools (arrivals.filter (Arrival.isOf run))).transcript.runStatus run := by
  obtain ⟨σ, hpaired⟩ := paired run
    (fun opId => ∃ q, .request q ∈ arrivals ∧ q.call.runId = run ∧ q.call.opId = opId) tools arrivals
    (fun q hq hrun => ⟨q, hq, hrun, rfl⟩)
    fun q' hq' hrun' ⟨q, hq, hrun, hop⟩ => h q q' hq hq' hrun hrun' hop
  obtain ⟨ρ, hids⟩ := exists_perm run σ _ hpaired.injective
  obtain ⟨hm, hanswers⟩ := hpaired.mirrors ρ ρ.injective hids
  exact ⟨ρ, hanswers, hpaired.contributed hm, hm.runStatus⟩

/-- Two runs write to one target in turn; the first goes on with a receipt it was given. -/
def twoRuns : List Arrival :=
  [.request ⟨.recordInput ⟨"a", ⟨"t"⟩, { role := .user, content := some "hi" }, "a:input"⟩, none⟩,
    .request ⟨.recordInput ⟨"b", ⟨"t"⟩, { role := .user, content := some "other" }, "b:input"⟩, none⟩,
    .request ⟨.recordTextDelta ⟨"a", 1, ⟨"t"⟩, "so", "a:1", 1, none⟩, none⟩,
    .request ⟨.finalizeRun "b" .failed, none⟩,
    .request ⟨.recordTextFinal ⟨"a", 1, ⟨"t"⟩, some "so be it", none, [], "a:2", 1, none⟩, some ⟨1, 0⟩⟩]

theorem twoRuns_isolated :
    ∃ ρ : Equiv.Perm String,
      (after [] twoRuns).answers "a" =
          ((after [] (twoRuns.filter (Arrival.isOf "a"))).answers "a").map (Response.rename ρ) ∧
        ((after [] twoRuns).transcript.contributed "a" ⟨"t"⟩).map (·.content) = [some "hi", some "so be it"] := by
  have hdisjoint : DisjointOps "a" twoRuns := by
    intro q q' hq hq' hrun hrun'
    simp only [twoRuns, List.mem_cons, Arrival.request.injEq, List.not_mem_nil, or_false] at hq hq'
    rcases hq with rfl | rfl | rfl | rfl | rfl <;> rcases hq' with rfl | rfl | rfl | rfl | rfl <;>
      first | exact absurd rfl hrun' | exact absurd hrun (by decide) | decide
  obtain ⟨ρ, hanswers, -, -⟩ := runs_isolated [] twoRuns "a" hdisjoint
  exact ⟨ρ, hanswers, by decide +kernel⟩

end Shared

end AgentRuntime
