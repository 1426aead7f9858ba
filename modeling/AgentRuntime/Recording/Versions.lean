import AgentRuntime.Fields
import AgentRuntime.Recording.Submission

/-!
# Versions of the transcript

The version of a transcript grows with every write, so what has one version is one content.

* `Follows` — a later state of a transcript, as far as its messages go;
* `Follows.snapshot` — two snapshots of a target with one version are one snapshot.
-/

set_option autoImplicit false

namespace AgentRuntime

namespace MemoryTranscript

/-- A later state: the version has not gone back, and it has grown if there was a write. -/
structure Follows (t t' : MemoryTranscript) : Prop where
  version : t.version ≤ t'.version
  same : t'.version = t.version → t'.messages = t.messages ∧ t'.order = t.order

variable {t t' t'' : MemoryTranscript} {c : Call}

theorem Follows.refl (t : MemoryTranscript) : t.Follows t := ⟨Nat.le_refl _, fun _ => ⟨rfl, rfl⟩⟩

theorem Follows.trans (h : t.Follows t') (h' : t'.Follows t'') : t.Follows t'' := by
  refine ⟨Nat.le_trans h.version h'.version, fun heq => ?_⟩
  have hle := h.version
  have hle' := h'.version
  obtain ⟨hm, ho⟩ := h.same (by omega)
  obtain ⟨hm', ho'⟩ := h'.same (by omega)
  exact ⟨hm'.trans hm, ho'.trans ho⟩

theorem follows_of_lt (h : t.version < t'.version) : t.Follows t' := by
  refine ⟨Nat.le_of_lt h, fun heq => ?_⟩
  omega

theorem Rejected.follows (h : t.Rejected t') : t.Follows t' :=
  ⟨Nat.le_of_eq h.version.symm, fun _ => ⟨h.messages, h.order⟩⟩

theorem Upserted.version {w : Call.TextWrite} {id : String} {created : Bool}
    (h : t.Upserted w id created t') : t'.version = t.version + 1 := by
  cases h with
  | created hkey => rfl
  | updated hkey hm => rfl

theorem version_appendAll (target : RecordTarget) :
    ∀ (pending : List (String × Message)) (t : MemoryTranscript),
      (t.appendAll target pending).version = t.version + pending.length
  | [], _ => rfl
  | p :: pending, t => by
    change ((t.append target p.1 p.2).appendAll target pending).version = _
    rw [version_appendAll target pending]
    simp only [append, List.length_cons]
    omega

/-- Without results nothing is appended; with results the version grows. -/
theorem follows_appendAll (target : RecordTarget) (pending : List (String × Message)) (n : Nat) :
    t.Follows (appendAll { t with seq := n } target pending) := by
  cases pending with
  | nil => exact ⟨Nat.le_refl _, fun _ => ⟨rfl, rfl⟩⟩
  | cons p pending =>
    apply follows_of_lt
    rw [version_appendAll, List.length_cons]
    change t.version < t.version + (pending.length + 1)
    omega

theorem Commits.follows {receipts : List MessageReceipt} {batch : Option BatchReceipt} {r : Reply}
    (h : t.Commits c receipts batch r t') : t.Follows t' := by
  cases h with
  | input a => exact follows_of_lt (Nat.lt_succ_self _)
  | text _ _ hup =>
    apply follows_of_lt
    rw [hup.version]
    exact Nat.lt_succ_self _
  | toolCalls _ _ hup =>
    apply follows_of_lt
    rw [hup.version]
    exact Nat.lt_succ_self _
  | unrecordedCalls _ => exact .refl t
  | toolResults _ _ _ => exact follows_appendAll _ _ _
  | runFinal runId status => exact ⟨Nat.le_refl _, fun _ => ⟨rfl, rfl⟩⟩

theorem exec_follows (t : MemoryTranscript) (c : Call) : t.Follows (c.exec t).2 := by
  have hout := t.exec_outcome c
  generalize (c.exec t).1 = result at hout
  generalize (c.exec t).2 = t' at hout ⊢
  cases hout with
  | failed hrej => exact hrej.follows
  | replayed ho ha => exact .refl t
  | skipped hc ho ha => exact .refl t
  | committed hf ho hchecked hcommits => exact ⟨hcommits.follows.version, hcommits.follows.same⟩

theorem snapshot_eq {target : RecordTarget} {s : TranscriptSnapshot} (h : t.snapshot target = some s) :
    s.version = s!"v{t.version}:{target.value}" ∧ s.recordTarget = target ∧
      (t.order target.value).mapM t.messages = some s.messages := by
  unfold snapshot at h
  cases hms : (t.order target.value).mapM t.messages with
  | none =>
    rw [hms] at h
    cases h
  | some ms =>
    rw [hms] at h
    cases h
    exact ⟨rfl, rfl, rfl⟩

theorem version_text_inj {n m : Nat} {target : String}
    (h : s!"v{n}:{target}" = s!"v{m}:{target}") : n = m := by
  have hl : ("v" ++ toString n ++ ":" ++ target).toList = ("v" ++ toString m ++ ":" ++ target).toList :=
    congrArg String.toList h
  simp only [String.toList_append] at hl
  have hfront := List.append_cancel_right (List.append_cancel_right hl)
  exact Fields.nat_inj (List.append_cancel_left hfront)

/-- The text of a version names the number and the target. -/
theorem version_text_fields {n m : Nat} {target other : String}
    (h : s!"v{n}:{target}" = s!"v{m}:{other}") : n = m ∧ target = other := by
  have hl : ("v" ++ toString n ++ ":" ++ target).toList = ("v" ++ toString m ++ ":" ++ other).toList :=
    congrArg String.toList h
  have hfields : (toString n).toList ++ ':' :: target.toList = (toString m).toList ++ ':' :: other.toList := by
    simp only [String.toList_append, List.append_assoc] at hl
    exact List.append_cancel_left hl
  obtain ⟨hn, ht⟩ := Fields.cut_first (Fields.nat_notMem n (by decide)) (Fields.nat_notMem m (by decide)) hfields
  exact ⟨Fields.nat_inj hn, String.toList_injective ht⟩

/-- One version of one target is one snapshot. -/
theorem Follows.snapshot (h : t.Follows t') {target : RecordTarget} {s s' : TranscriptSnapshot}
    (hs : t.snapshot target = some s) (hs' : t'.snapshot target = some s')
    (hversion : s.version = s'.version) : s' = s := by
  have htexts := (snapshot_eq hs').1.symm.trans (hversion.symm.trans (snapshot_eq hs).1)
  have hsame : t'.version = t.version := version_text_inj htexts
  obtain ⟨hmessages, horder⟩ := h.same hsame
  have hsnapshot : t'.snapshot target = t.snapshot target := by
    unfold MemoryTranscript.snapshot
    rw [hmessages, horder, hsame]
  exact Option.some.inj ((hs'.symm.trans hsnapshot).trans hs)

end MemoryTranscript

end AgentRuntime
