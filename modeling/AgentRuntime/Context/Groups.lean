import AgentRuntime.Context.Turns

/-!
# Groups of a paired view

Three scans recognize a tool group. `pair_tool_messages` ends it when all ids have been seen,
`group_messages` at the first message that is no result of the calls, and `_oldest_tool_group` there
too, if it has found a result by then. On a paired view they find the same groups.

* `groupMessages_pairToolMessages` — the units of the paired view are what pairing has appended;
* `firstMulti`, `oldestToolGroup_view` — the oldest tool group, among the units;
* `groups_agree` — all three scans, and what is left when units are deleted.
-/

set_option autoImplicit false

namespace AgentRuntime

variable {parts : List Part}

/-- `group_messages` finds what pairing has appended. -/
theorem groupMessages_pairToolMessages (ms : List Message) :
    groupMessages (pairToolMessages ms) = (pairParts ms).map Part.messages := by
  rw [← view_pairParts, groupMessages_view]

/-! ## Units -/

/-- A unit with more than one message. -/
def isMulti (unit : List Message) : Bool := decide (1 < unit.length)

theorem Part.isMulti_messages (p : Part) : isMulti p.messages = p.isGroup := by
  cases p with
  | plain m hm => rfl
  | group m results hm =>
    have hpos : 0 < results.length := List.length_pos_iff.mpr hm.results_ne_nil
    unfold isMulti Part.messages Part.isGroup
    rw [decide_eq_true_iff, List.length_cons]
    omega

/-- The units with more than one message are the groups. -/
theorem filter_isMulti (parts : List Part) :
    (parts.map Part.messages).filter isMulti = (parts.filter Part.isGroup).map Part.messages := by
  rw [List.filter_map]
  congr 1
  apply List.filter_congr
  exact fun p _ => p.isMulti_messages

/-- A selection of the units of a view is a selection of its parts. -/
theorem units_selection {units : List (List Message)}
    (h : units.Sublist (parts.map Part.messages)) :
    ∃ kept : List Part, units.flatten = view kept := by
  obtain ⟨kept, -, rfl⟩ := List.sublist_map_iff.mp h
  exact ⟨kept, flatten_messages kept⟩

/-- The span of the first unit with more than one message; the units begin at the index. -/
def firstMulti : Nat → List (List Message) → Option (Nat × Nat)
  | _, [] => none
  | index, unit :: units =>
    if isMulti unit then some (index, index + unit.length) else firstMulti (index + unit.length) units

theorem firstMulti_none : ∀ {units : List (List Message)} {index : Nat},
    firstMulti index units = none ↔ ∀ unit ∈ units, isMulti unit = false
  | [], _ => ⟨fun _ _ hunit => (by cases hunit), fun _ => rfl⟩
  | unit :: units, index => by
    rw [firstMulti, List.forall_mem_cons]
    cases hunit : isMulti unit with
    | true =>
      rw [if_pos rfl]
      constructor
      · exact fun h => (by cases h)
      · exact fun h => Bool.noConfusion h.1
    | false =>
      rw [if_neg Bool.false_ne_true, firstMulti_none]
      exact ⟨fun h => ⟨rfl, h⟩, fun h => h.2⟩

/-- `_oldest_tool_group` finds the first group among the units. -/
theorem oldestToolGroup_view : ∀ (parts : List Part) (index : Nat),
    oldestToolGroup index (view parts) = firstMulti index (parts.map Part.messages)
  | [], _ => rfl
  | .plain m hm :: parts, index => by
    change oldestToolGroup index (m :: view parts) = firstMulti index ([m] :: parts.map Part.messages)
    rw [oldestToolGroup, firstMulti, if_neg, if_neg, oldestToolGroup_view parts]
    · rfl
    · exact Bool.false_ne_true
    · rintro ⟨hcalls, -⟩
      rw [Part.isPlain_callsTools hm] at hcalls
      cases hcalls
  | .group m results hm :: parts, index => by
    change oldestToolGroup index (m :: (results ++ view parts)) =
      firstMulti index ((Part.group m results hm).messages :: parts.map Part.messages)
    rw [oldestToolGroup, firstMulti, Part.isMulti_messages, takeWhile_group hm parts,
      if_pos ⟨hm.calls, hm.results_ne_nil⟩]
    unfold Part.isGroup Part.messages
    rw [if_pos rfl, List.length_cons, Nat.add_assoc, Nat.add_comm 1]

/-- **The three scans agree.** What pairing appends is the paired view; the units of that view are its
messages, in order; those with more than one message are the groups that pairing has kept; the oldest tool
group is the first of them; and whatever units are deleted, the rest is its own view. -/
theorem groups_agree (ms : List Message) :
    view (pairParts ms) = pairToolMessages ms ∧
      (groupMessages (pairToolMessages ms)).flatten = pairToolMessages ms ∧
      (groupMessages (pairToolMessages ms)).filter isMulti =
        ((pairParts ms).filter Part.isGroup).map Part.messages ∧
      oldestToolGroup 0 (pairToolMessages ms) = firstMulti 0 (groupMessages (pairToolMessages ms)) ∧
      (oldestToolGroup 0 (pairToolMessages ms) = none ↔
        ∀ unit ∈ groupMessages (pairToolMessages ms), isMulti unit = false) ∧
      ∀ units : List (List Message), units.Sublist (groupMessages (pairToolMessages ms)) →
        pairToolMessages units.flatten = units.flatten := by
  have hunits := groupMessages_pairToolMessages ms
  have hspan : oldestToolGroup 0 (pairToolMessages ms) =
      firstMulti 0 (groupMessages (pairToolMessages ms)) := by
    rw [hunits, ← oldestToolGroup_view, view_pairParts]
  refine ⟨view_pairParts ms, ?_, ?_, hspan, ?_, ?_⟩
  · rw [hunits, flatten_messages, view_pairParts]
  · rw [hunits, filter_isMulti]
  · rw [hspan]
    exact firstMulti_none
  · intro units hselected
    rw [hunits] at hselected
    obtain ⟨kept, hkept⟩ := units_selection hselected
    rw [hkept]
    exact pairToolMessages_view kept

/-- Two groups back to back, with one id; an orphan between them; a question behind them. -/
def repeatedTurn : List Message :=
  [{ role := .assistant, toolCalls := [⟨"c1", "search", []⟩] },
    { role := .tool, content := some "found", toolCallId := some "c1" },
    { role := .tool, content := some "again", toolCallId := some "c1" },
    { role := .assistant, toolCalls := [⟨"c1", "search", []⟩] },
    { role := .tool, content := some "more", toolCallId := some "c1" },
    { role := .user, content := some "thanks" }]

theorem repeatedTurn_without_oldest :
    ((groupMessages (pairToolMessages repeatedTurn)).drop 1).flatten.map (·.content) =
        [none, some "more", some "thanks"] ∧
      pairToolMessages ((groupMessages (pairToolMessages repeatedTurn)).drop 1).flatten =
        ((groupMessages (pairToolMessages repeatedTurn)).drop 1).flatten :=
  ⟨by decide +kernel, (groups_agree repeatedTurn).2.2.2.2.2 _ (List.drop_sublist 1 _)⟩

end AgentRuntime
