import AgentRuntime.Fields
import AgentRuntime.Pipelines.Model
import AgentRuntime.Pipelines.Tools
import AgentRuntime.Runner

/-!
# Logical operation ids

The ids under which the runner and the default pipelines submit their operations, for arbitrary run
ids and record targets.

* `Operation`, `Operation.id` — the operations and their ids; `id_input` … `id_runFinal` find them in
  the code;
* `Place.Extends` — one run id goes on where the other ends, at the expense of its target;
* `Operation.id_inj_iff` — an id tells two operations apart exactly if they do not collide.
-/

set_option autoImplicit false

namespace AgentRuntime

/-- The run, step and target of an operation of a step. -/
structure Place where
  runId : String
  stepNo : Int
  recordTarget : RecordTarget
  deriving DecidableEq, Repr

def Place.id (p : Place) : String := p.runId ++ ":" ++ toString p.stepNo ++ ":" ++ p.recordTarget.value

/-- The operations that are submitted, with what identifies them. -/
inductive Operation where
  | input (runId : String) (recordTarget : RecordTarget) (index : Nat)
  | textDelta (place : Place) (attempt delta : Nat)
  | textFinal (place : Place) (attempt : Int)
  | toolCalls (place : Place) (attempt : Int)
  | toolResults (place : Place)
  | runFinal (runId : String) (status : RunStatus)
  deriving DecidableEq, Repr

namespace Operation

/-- What stands before the last separator. -/
def stem : Operation → String
  | input runId _ _ => runId ++ ":" ++ "input"
  | textDelta place attempt _ => place.id ++ ":" ++ ("a" ++ toString attempt) ++ ":" ++ "delta"
  | textFinal place attempt => place.id ++ ":" ++ ("a" ++ toString attempt)
  | toolCalls place _ | toolResults place => place.id
  | runFinal runId _ => runId ++ ":" ++ "finalize"

/-- What stands behind it. -/
def last : Operation → String
  | input _ _ index => toString index
  | textDelta _ _ delta => toString delta
  | textFinal _ _ => "final"
  | toolCalls _ _ => "tool_calls"
  | toolResults _ => "tool_results"
  | runFinal _ status => status.value

def id (o : Operation) : String := o.stem ++ ":" ++ o.last

end Operation

/-! ## The ids in the code -/

def PreparedStep.place (step : PreparedStep) : Place :=
  ⟨step.identity.runId, step.identity.stepNo, step.recordTarget⟩

def ToolBatchCommand.place (command : ToolBatchCommand) : Place :=
  ⟨command.identity.runId, command.identity.stepNo, command.recordTarget⟩

theorem id_input (runId : String) (target : RecordTarget) (index : Nat) :
    runId ++ ":input:" ++ toString index = (Operation.input runId target index).id :=
  String.toList_injective (by simp [Operation.id, Operation.stem, Operation.last])

theorem id_textDelta (step : PreparedStep) (attempt delta : Nat) :
    DefaultModelPipeline.deltaOp step attempt delta =
      (Operation.textDelta step.place attempt delta).id :=
  String.toList_injective (by
    simp [Operation.id, Operation.stem, Operation.last, DefaultModelPipeline.deltaOp, Place.id,
      PreparedStep.place])

theorem id_textFinal (step : PreparedStep) (attempt : Int) :
    DefaultModelPipeline.finalOp step attempt = (Operation.textFinal step.place attempt).id :=
  String.toList_injective (by
    simp [Operation.id, Operation.stem, Operation.last, DefaultModelPipeline.finalOp, Place.id,
      PreparedStep.place])

theorem id_toolCalls (command : ToolBatchCommand) (attempt : Int) :
    DefaultToolPipeline.callsOp command = (Operation.toolCalls command.place attempt).id := rfl

theorem id_toolResults (command : ToolBatchCommand) :
    DefaultToolPipeline.resultsOp command = (Operation.toolResults command.place).id := rfl

theorem id_runFinal (runId : String) (status : RunStatus) :
    MemoryTranscript.finalizeOp runId status = (Operation.runFinal runId status).id := by
  change runId ++ ":finalize:" ++ status.value = _
  exact String.toList_injective (by simp [Operation.id, Operation.stem, Operation.last])

/-! ## Places -/

/-- The run id of `q` is that of `p` with a separator and the step of `p`, and perhaps more behind
another separator; what `q` has more there, `p` has more in its target. -/
def Place.Extends (p q : Place) : Prop :=
  (q.runId = p.runId ++ ":" ++ toString p.stepNo ∧
    p.recordTarget.value = toString q.stepNo ++ ":" ++ q.recordTarget.value) ∨
  ∃ more, q.runId = p.runId ++ ":" ++ toString p.stepNo ++ ":" ++ more ∧
    p.recordTarget.value = more ++ ":" ++ toString q.stepNo ++ ":" ++ q.recordTarget.value

theorem Place.id_toList (p : Place) : p.id.toList =
    p.runId.toList ++ ':' :: ((toString p.stepNo).toList ++ ':' :: p.recordTarget.value.toList) := by
  simp [Place.id, String.toList_append]

theorem Place.Extends.id {p q : Place} (h : p.Extends q) : p.id = q.id := by
  rcases h with ⟨hrun, htarget⟩ | ⟨more, hrun, htarget⟩
  · simp only [Place.id, hrun, htarget, String.append_assoc]
  · simp only [Place.id, hrun, htarget, String.append_assoc]

theorem Place.Extends.runId_ne {p q : Place} (h : p.Extends q) : p.runId ≠ q.runId := by
  have hlen : ∀ s : String, p.runId ≠ p.runId ++ ":" ++ s := by
    intro s hs
    have := congrArg String.length hs
    simp only [String.length_append] at this
    have hone : ":".length = 1 := rfl
    omega
  rcases h with ⟨hrun, -⟩ | ⟨more, hrun, -⟩
  · rw [hrun]
    exact hlen _
  · rw [hrun, String.append_assoc, String.append_assoc]
    exact hlen _

theorem Place.Extends.ne {p q : Place} (h : p.Extends q) : p ≠ q :=
  fun heq => h.runId_ne (congrArg Place.runId heq)

theorem int_colon (n : Int) : ':' ∉ (toString n).toList := Fields.int_notMem n (by decide) (by decide)

/-- One place string goes on behind the other's run id. -/
theorem Place.extends_of_id {p q : Place} {more : List Char}
    (hrun : q.runId.toList = p.runId.toList ++ ':' :: more)
    (h : (toString p.stepNo).toList ++ ':' :: p.recordTarget.value.toList =
      more ++ ':' :: ((toString q.stepNo).toList ++ ':' :: q.recordTarget.value.toList)) :
    p.Extends q := by
  by_cases hmem : ':' ∈ more
  · obtain ⟨us, vs, rfl, hus⟩ := List.eq_append_cons_of_mem hmem
    rw [List.append_assoc, List.cons_append] at h
    obtain ⟨hstep, htarget⟩ := Fields.cut_first (int_colon _) hus h
    refine .inr ⟨String.ofList vs, String.toList_injective ?_, String.toList_injective ?_⟩
    · simp [hrun, ← hstep, String.toList_append]
    · simp [htarget, String.toList_append]
  · obtain ⟨hstep, htarget⟩ := Fields.cut_first (int_colon _) hmem h
    refine .inl ⟨String.toList_injective ?_, String.toList_injective ?_⟩
    · simp [hrun, ← hstep, String.toList_append]
    · simp [htarget, String.toList_append]

theorem Place.eq_of_id {p q : Place} (hrun : p.runId.toList = q.runId.toList)
    (h : (toString p.stepNo).toList ++ ':' :: p.recordTarget.value.toList =
      (toString q.stepNo).toList ++ ':' :: q.recordTarget.value.toList) : p = q := by
  obtain ⟨hstep, htarget⟩ := Fields.cut_first (int_colon _) (int_colon _) h
  obtain ⟨run, step, target⟩ := p
  obtain ⟨run', step', target'⟩ := q
  obtain rfl : run = run' := String.toList_injective hrun
  obtain rfl : step = step' := Fields.int_inj hstep
  obtain rfl : target = target' := congrArg RecordTarget.mk (String.toList_injective htarget)
  rfl

theorem Place.id_eq_iff {p q : Place} : p.id = q.id ↔ p = q ∨ p.Extends q ∨ q.Extends p := by
  constructor
  · intro h
    have hl := congrArg String.toList h
    rw [Place.id_toList, Place.id_toList] at hl
    rcases List.append_eq_append_iff.mp hl with ⟨as, hrun, hrest⟩ | ⟨as, hrun, hrest⟩
    · cases as with
      | nil =>
        rw [List.append_nil] at hrun
        exact .inl (Place.eq_of_id hrun.symm (List.cons.inj hrest).2)
      | cons c as =>
        obtain ⟨rfl, hrest'⟩ := List.cons.inj hrest
        exact .inr (.inl (Place.extends_of_id hrun hrest'))
    · cases as with
      | nil =>
        rw [List.append_nil] at hrun
        exact .inl (Place.eq_of_id hrun (List.cons.inj hrest).2.symm)
      | cons c as =>
        obtain ⟨rfl, hrest'⟩ := List.cons.inj hrest
        exact .inr (.inr (Place.extends_of_id hrun hrest'))
  · rintro (rfl | h | h)
    · rfl
    · exact h.id
    · exact h.id.symm

/-! ## Operations -/

/-- Two operations of one kind whose places run into each other, two batches of calls that differ in the
attempt only, or two inputs that differ in the target only. -/
def Operation.Collides : Operation → Operation → Prop
  | .input r t n, .input s u m => r = s ∧ n = m ∧ t ≠ u
  | .textDelta p a n, .textDelta q b m => (p.Extends q ∨ q.Extends p) ∧ a = b ∧ n = m
  | .textFinal p a, .textFinal q b => (p.Extends q ∨ q.Extends p) ∧ a = b
  | .toolCalls p a, .toolCalls q b => p.Extends q ∨ q.Extends p ∨ p = q ∧ a ≠ b
  | .toolResults p, .toolResults q => p.Extends q ∨ q.Extends p
  | _, _ => False

namespace Operation

/-- The word an id ends in, if it does not end in a number. -/
def word? (last : List Char) : Option (List Char) :=
  if last.all Char.isDigit then none else some last

theorem word?_nat (n : Nat) : word? (toString n).toList = none :=
  if_pos (List.all_eq_true.mpr fun _ h => Fields.nat_digits h)

theorem status_colon (status : RunStatus) : ':' ∉ status.value.toList := by
  cases status <;> decide

/-- The separator is not in the last field. -/
theorem last_colon : ∀ o : Operation, ':' ∉ o.last.toList
  | input _ _ n | textDelta _ _ n => Fields.nat_notMem n (by decide)
  | textFinal _ _ => (by decide : ':' ∉ "final".toList)
  | toolCalls _ _ => (by decide : ':' ∉ "tool_calls".toList)
  | toolResults _ => (by decide : ':' ∉ "tool_results".toList)
  | runFinal _ status => status_colon status

theorem cut_id {o o' : Operation} (h : o.id = o'.id) :
    o.stem.toList = o'.stem.toList ∧ o.last.toList = o'.last.toList := by
  have hl := congrArg String.toList h
  simp only [id, String.toList_append] at hl
  rw [List.append_assoc, List.append_assoc] at hl
  exact Fields.cut_last (last_colon o) (last_colon o') hl

/-- A stem that ends in a word behind a separator. -/
theorem cut_stem {s s' w w' : String} (hw : ':' ∉ w.toList) (hw' : ':' ∉ w'.toList)
    (h : (s ++ ":" ++ w).toList = (s' ++ ":" ++ w').toList) : s = s' ∧ w = w' := by
  simp only [String.toList_append] at h
  rw [List.append_assoc, List.append_assoc] at h
  obtain ⟨hs, hw⟩ := Fields.cut_last hw hw' h
  exact ⟨String.toList_injective hs, String.toList_injective hw⟩

/-- The kind an operation is submitted as. -/
def kind : Operation → LogicalOpKind
  | input _ _ _ => .input
  | textDelta _ _ _ => .textDelta
  | textFinal _ _ => .textFinal
  | toolCalls _ _ => .toolCalls
  | toolResults _ => .toolResults
  | runFinal _ _ => .runFinal

/-- The word at the end of an id. -/
def word : Operation → Option (List Char)
  | input _ _ _ | textDelta _ _ _ => none
  | textFinal _ _ => some "final".toList
  | toolCalls _ _ => some "tool_calls".toList
  | toolResults _ => some "tool_results".toList
  | runFinal _ status => some status.value.toList

theorem word?_status (status : RunStatus) :
    word? status.value.toList = some status.value.toList := by
  cases status <;> decide

theorem word?_last : ∀ o : Operation, word? o.last.toList = o.word
  | input _ _ n | textDelta _ _ n => word?_nat n
  | textFinal _ _ => (by decide : word? "final".toList = some "final".toList)
  | toolCalls _ _ => (by decide : word? "tool_calls".toList = some "tool_calls".toList)
  | toolResults _ => (by decide : word? "tool_results".toList = some "tool_results".toList)
  | runFinal _ status => word?_status status

theorem status_word (status : RunStatus) : status.value.toList ≠ "final".toList ∧
    status.value.toList ≠ "tool_calls".toList ∧ status.value.toList ≠ "tool_results".toList := by
  cases status <;> decide

/-- An id shows the kind of its operation. -/
theorem kind_eq {o o' : Operation} (h : o.id = o'.id) : o.kind = o'.kind := by
  obtain ⟨hstem, hlast⟩ := cut_id h
  have hword : o.word = o'.word := by rw [← word?_last, ← word?_last, hlast]
  cases o with
  | input run t n =>
    cases o' with
    | input _ _ _ => rfl
    | textDelta _ _ _ => exact absurd (cut_stem (by decide) (by decide) hstem).2 (by decide)
    | _ => cases hword
  | textDelta p a n =>
    cases o' with
    | textDelta _ _ _ => rfl
    | input _ _ _ => exact absurd (cut_stem (by decide) (by decide) hstem).2 (by decide)
    | _ => cases hword
  | textFinal p a =>
    cases o' with
    | textFinal _ _ => rfl
    | input _ _ _ | textDelta _ _ _ => cases hword
    | toolCalls _ _ | toolResults _ => exact absurd (Option.some.inj hword) (by decide)
    | runFinal _ status => exact absurd (Option.some.inj hword).symm (status_word status).1
  | toolCalls p a =>
    cases o' with
    | toolCalls _ _ => rfl
    | input _ _ _ | textDelta _ _ _ => cases hword
    | textFinal _ _ | toolResults _ => exact absurd (Option.some.inj hword) (by decide)
    | runFinal _ status => exact absurd (Option.some.inj hword).symm (status_word status).2.1
  | toolResults p =>
    cases o' with
    | toolResults _ => rfl
    | input _ _ _ | textDelta _ _ _ => cases hword
    | textFinal _ _ | toolCalls _ _ => exact absurd (Option.some.inj hword) (by decide)
    | runFinal _ status => exact absurd (Option.some.inj hword).symm (status_word status).2.2
  | runFinal run status =>
    cases o' with
    | runFinal _ _ => rfl
    | input _ _ _ | textDelta _ _ _ => cases hword
    | textFinal _ _ => exact absurd (Option.some.inj hword) (status_word status).1
    | toolCalls _ _ => exact absurd (Option.some.inj hword) (status_word status).2.1
    | toolResults _ => exact absurd (Option.some.inj hword) (status_word status).2.2

theorem attempt_inj {a b : Int} (h : "a" ++ toString a = "a" ++ toString b) : a = b := by
  have hl := congrArg String.toList h
  rw [String.toList_append, String.toList_append] at hl
  exact Fields.int_inj (List.append_cancel_left hl)

theorem attempt_colon (a : Int) : ':' ∉ ("a" ++ toString a).toList := by
  rw [String.toList_append]
  intro h
  rcases List.mem_append.mp h with h | h
  · exact absurd h (by decide)
  · exact int_colon a h

theorem eq_or_collides {o o' : Operation} (h : o.id = o'.id) : o = o' ∨ o.Collides o' := by
  have hkind := kind_eq h
  obtain ⟨hstem, hlast⟩ := cut_id h
  cases o with
  | input run t n =>
    cases o' with
    | input run' t' n' =>
      obtain rfl := Fields.nat_inj hlast
      obtain rfl := (cut_stem (by decide) (by decide) hstem).1
      by_cases htarget : t = t'
      · exact .inl (by rw [htarget])
      · exact .inr ⟨rfl, rfl, htarget⟩
    | _ => cases hkind
  | textDelta p a n =>
    cases o' with
    | textDelta q b n' =>
      obtain rfl := Fields.nat_inj hlast
      have hrest := (cut_stem (by decide) (by decide) hstem).1
      obtain ⟨hid, ha⟩ := cut_stem (attempt_colon a) (attempt_colon b) (congrArg String.toList hrest)
      obtain rfl : a = b := Int.ofNat.inj (attempt_inj ha)
      rcases Place.id_eq_iff.mp hid with rfl | hext
      · exact .inl rfl
      · exact .inr ⟨hext, rfl, rfl⟩
    | _ => cases hkind
  | textFinal p a =>
    cases o' with
    | textFinal q b =>
      obtain ⟨hid, ha⟩ := cut_stem (attempt_colon a) (attempt_colon b) hstem
      obtain rfl := attempt_inj ha
      rcases Place.id_eq_iff.mp hid with rfl | hext
      · exact .inl rfl
      · exact .inr ⟨hext, rfl⟩
    | _ => cases hkind
  | toolCalls p a =>
    cases o' with
    | toolCalls q b =>
      rcases Place.id_eq_iff.mp (String.toList_injective hstem) with rfl | hext | hext
      · by_cases hab : a = b
        · exact .inl (by rw [hab])
        · exact .inr (.inr (.inr ⟨rfl, hab⟩))
      · exact .inr (.inl hext)
      · exact .inr (.inr (.inl hext))
    | _ => cases hkind
  | toolResults p =>
    cases o' with
    | toolResults q =>
      rcases Place.id_eq_iff.mp (String.toList_injective hstem) with rfl | hext
      · exact .inl rfl
      · exact .inr hext
    | _ => cases hkind
  | runFinal run status =>
    cases o' with
    | runFinal run' status' =>
      obtain rfl := RunStatus.value_inj (String.toList_injective hlast)
      obtain rfl := (cut_stem (by decide) (by decide) hstem).1
      exact .inl rfl
    | _ => cases hkind

theorem Collides.spec {o o' : Operation} (h : o.Collides o') : o.id = o'.id ∧ o ≠ o' := by
  have hplace : ∀ {p q : Place}, p.Extends q ∨ q.Extends p → p.id = q.id ∧ p ≠ q := by
    rintro p q (h | h)
    · exact ⟨h.id, h.ne⟩
    · exact ⟨h.id.symm, h.ne.symm⟩
  cases o with
  | input r t n =>
    cases o' with
    | input s u m =>
      obtain ⟨rfl, rfl, htarget⟩ := h
      exact ⟨rfl, fun he => htarget (by cases he; rfl)⟩
    | _ => cases h
  | runFinal _ _ => cases o' <;> cases h
  | textDelta p a n =>
    cases o' with
    | textDelta q b n' =>
      obtain ⟨hext, rfl, rfl⟩ := h
      obtain ⟨hid, hne⟩ := hplace hext
      exact ⟨by simp only [id, stem, hid, last], fun he => hne (by cases he; rfl)⟩
    | _ => cases h
  | textFinal p a =>
    cases o' with
    | textFinal q b =>
      obtain ⟨hext, rfl⟩ := h
      obtain ⟨hid, hne⟩ := hplace hext
      exact ⟨by simp only [id, stem, hid, last], fun he => hne (by cases he; rfl)⟩
    | _ => cases h
  | toolCalls p a =>
    cases o' with
    | toolCalls q b =>
      rcases or_assoc.mpr h with hext | ⟨rfl, hab⟩
      · obtain ⟨hid, hne⟩ := hplace hext
        exact ⟨by simp only [id, stem, hid, last], fun he => hne (by cases he; rfl)⟩
      · exact ⟨rfl, fun he => hab (by cases he; rfl)⟩
    | _ => cases h
  | toolResults p =>
    cases o' with
    | toolResults q =>
      obtain ⟨hid, hne⟩ := hplace h
      exact ⟨by simp only [id, stem, hid, last], fun he => hne (by cases he; rfl)⟩
    | _ => cases h

/-- The place of an operation of a step. -/
def place? : Operation → Option Place
  | .input _ _ _ | .runFinal _ _ => none
  | .textDelta place _ _ | .textFinal place _ | .toolCalls place _ | .toolResults place => some place

theorem Collides.places {o o' : Operation} {q : Place} (h : o.Collides o')
    (hq : o'.place? = some q) :
    ∃ p, o.place? = some p ∧ (p.Extends q ∨ q.Extends p ∨ p = q) := by
  cases o with
  | input _ _ _ =>
    cases o' with
    | input _ _ _ => cases hq
    | _ => cases h
  | runFinal _ _ => cases h
  | textDelta p _ _ =>
    cases o' with
    | textDelta _ _ _ =>
      cases hq
      exact ⟨p, rfl, h.1.imp_right .inl⟩
    | _ => cases h
  | textFinal p _ =>
    cases o' with
    | textFinal _ _ =>
      cases hq
      exact ⟨p, rfl, h.1.imp_right .inl⟩
    | _ => cases h
  | toolCalls p _ =>
    cases o' with
    | toolCalls _ _ =>
      cases hq
      exact ⟨p, rfl, h.imp_right (·.imp_right And.left)⟩
    | _ => cases h
  | toolResults p =>
    cases o' with
    | toolResults _ =>
      cases hq
      exact ⟨p, rfl, h.imp_right .inl⟩
    | _ => cases h

/-- **Operation ids.** Over arbitrary run ids and targets, the id of an operation tells it from
another one exactly if the two do not collide. -/
theorem id_inj_iff (o o' : Operation) : (o.id = o'.id → o = o') ↔ ¬ o.Collides o' := by
  constructor
  · intro h hc
    exact hc.spec.2 (h hc.spec.1)
  · intro h hid
    exact (eq_or_collides hid).resolve_right h

/-- Step 5 of run `r` on target `1:T`, and step 1 of run `r:5` on target `T`. -/
theorem nestedRuns_collide :
    (textFinal ⟨"r", 5, ⟨"1:T"⟩⟩ 1).id = (textFinal ⟨"r:5", 1, ⟨"T"⟩⟩ 1).id ∧
      textFinal ⟨"r", 5, ⟨"1:T"⟩⟩ 1 ≠ textFinal ⟨"r:5", 1, ⟨"T"⟩⟩ 1 :=
  ⟨by decide, by decide⟩

end Operation

end AgentRuntime
