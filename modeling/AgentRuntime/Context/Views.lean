import AgentRuntime.Context.Compress
import Mathlib.Data.Finset.Dedup
import Mathlib.Data.List.Perm.Basic
import Mathlib.Data.List.TakeWhile

/-!
# Well-formed views

What the model is shown: plain messages, and calls that are followed by their results.

* `Completes`, `Part`, `view` — a view is a list of indivisible parts;
* `pairParts`, `view_pairParts` — what pairing appends, pass by pass;
* `pairToolMessages_part`, `pairToolMessages_append` — pairing keeps a part, drops whatever is none, and
  goes from one message that is no result to the next;
* `oldestToolGroup_spec`, `oldestPlainTurn_spec` — the span of a part that may go;
* `trim_spec` — trimming deletes whole parts until the rest fits.
-/

set_option autoImplicit false

namespace AgentRuntime

/-! ## Parts -/

/-- The results complete the calls of `m`: one TOOL message for each call, in any order. -/
structure Completes (m : Message) (results : List Message) : Prop where
  calls : m.callsTools = true
  distinct : m.callIds.Nodup
  named : "" ∉ m.callIds
  tools : ∀ r ∈ results, r.isTool = true
  perm : (results.map (·.toolCallId)).Perm (m.callIds.map some)

/-- A message that is neither a call nor a result. -/
def Message.isPlain (m : Message) : Bool := !m.callsTools && !m.isTool

/-- An indivisible part of a view. -/
inductive Part where
  | plain (m : Message) (h : m.isPlain = true)
  | group (m : Message) (results : List Message) (h : Completes m results)

namespace Part

def messages : Part → List Message
  | plain m _ => [m]
  | group m results _ => m :: results

def isGroup : Part → Bool
  | plain _ _ => false
  | group _ _ _ => true

def isSystem : Part → Bool
  | plain m _ => m.isSystem
  | group _ _ _ => false

end Part

/-- The messages of the parts. -/
def view (parts : List Part) : List Message := parts.flatMap Part.messages

/-- Every call message is immediately followed by its results, and there are no other results. -/
def WellFormed (ms : List Message) : Prop := ∃ parts, view parts = ms

@[simp] theorem view_nil : view [] = [] := rfl

@[simp] theorem view_cons (p : Part) (parts : List Part) :
    view (p :: parts) = p.messages ++ view parts := rfl

@[simp] theorem view_append (parts parts' : List Part) :
    view (parts ++ parts') = view parts ++ view parts' := List.flatMap_append

theorem WellFormed.append {ms ms' : List Message} (h : WellFormed ms) (h' : WellFormed ms') :
    WellFormed (ms ++ ms') := by
  obtain ⟨parts, rfl⟩ := h
  obtain ⟨parts', rfl⟩ := h'
  exact ⟨parts ++ parts', view_append parts parts'⟩

/-- Plain messages are a view. -/
theorem wellFormed_plain {ms : List Message} (h : ∀ m ∈ ms, m.isPlain = true) : WellFormed ms := by
  induction ms with
  | nil => exact ⟨[], rfl⟩
  | cons m ms ih =>
    obtain ⟨parts, hparts⟩ := ih fun m' hm => h m' (List.mem_cons_of_mem _ hm)
    exact ⟨.plain m (h m List.mem_cons_self) :: parts, congrArg (m :: ·) hparts⟩

variable {m : Message} {results ms : List Message}

theorem Completes.callIds_ne_nil (h : Completes m results) : m.callIds ≠ [] := by
  have hcalls := h.calls
  unfold Message.callsTools at hcalls
  unfold Message.callIds
  simp only [Bool.and_eq_true, Bool.not_eq_true', List.isEmpty_eq_false_iff] at hcalls
  simp only [ne_eq, List.map_eq_nil_iff]
  exact hcalls.2

theorem Completes.length (h : Completes m results) : results.length = m.callIds.length := by
  have hlen := h.perm.length_eq
  rw [List.length_map, List.length_map] at hlen
  exact hlen

theorem map_eq_map_some {α β : Type} {f : α → Option β} : ∀ {as : List α},
    (∀ a ∈ as, (f a).isSome = true) → as.map f = (as.filterMap f).map some
  | [], _ => rfl
  | a :: as, h => by
    obtain ⟨b, hb⟩ := Option.isSome_iff_exists.mp (h a List.mem_cons_self)
    rw [List.map_cons, hb, List.filterMap_cons_some hb, List.map_cons,
      map_eq_map_some fun a ha => h a (List.mem_cons_of_mem _ ha)]

/-- The ids that the results carry. -/
theorem Completes.ids (h : Completes m results) :
    ∃ ids : List String, ids.Perm m.callIds ∧ results.map (·.toolCallId) = ids.map some := by
  refine ⟨results.filterMap (·.toolCallId), ?_, map_eq_map_some fun r hr => ?_⟩
  · have hperm := h.perm.filterMap id
    simpa [List.filterMap_map] using hperm
  · have hmem := h.perm.mem_iff.mp (List.mem_map_of_mem hr)
    obtain ⟨id, -, hid⟩ := List.mem_map.mp hmem
    rw [← hid]
    rfl

theorem Completes.results_ne_nil (h : Completes m results) : results ≠ [] := by
  intro hnil
  have hlen := h.length
  rw [hnil] at hlen
  exact h.callIds_ne_nil (List.length_eq_zero_iff.mp hlen.symm)

theorem Message.isTool_of_callsTools (h : m.callsTools = true) : m.isTool = false := by
  unfold Message.callsTools at h
  unfold Message.isTool
  simp only [Bool.and_eq_true, beq_iff_eq] at h
  rw [h.1]
  rfl

theorem Message.isSystem_of_callsTools (h : m.callsTools = true) : m.isSystem = false := by
  unfold Message.callsTools at h
  unfold Message.isSystem
  simp only [Bool.and_eq_true, beq_iff_eq] at h
  rw [h.1]
  rfl

theorem Message.isSystem_of_isTool (h : m.isTool = true) : m.isSystem = false := by
  unfold Message.isTool at h
  unfold Message.isSystem
  rw [beq_iff_eq] at h
  rw [h]
  rfl

/-- What follows a part does not begin with a result. -/
theorem view_head (parts : List Part) {r : Message} {rest : List Message} (h : view parts = r :: rest) :
    r.isTool = false := by
  cases parts with
  | nil => cases h
  | cons p parts =>
    cases p with
    | plain m hm =>
      obtain rfl : m = r := (List.cons.inj h).1
      unfold Message.isPlain at hm
      simp only [Bool.and_eq_true, Bool.not_eq_true'] at hm
      exact hm.2
    | group m results hm =>
      obtain rfl : m = r := (List.cons.inj h).1
      exact Message.isTool_of_callsTools hm.calls

/-! ## Pairing -/

/-- What the inner loop collects: results with distinct ids that are needed and not seen yet. -/
theorem collectResults_spec (needed : Finset String) : ∀ (ms : List Message) (seen : Finset String),
    ∃ ids : List String,
      (collectResults needed seen ms).1.map (·.toolCallId) = ids.map some ∧ ids.Nodup ∧ "" ∉ ids ∧
        (∀ id ∈ ids, id ∉ seen) ∧ (∀ r ∈ (collectResults needed seen ms).1, r.isTool = true) ∧
        (collectResults needed seen ms).2.1 = seen ∪ ids.toFinset
  | [], seen => ⟨[], by simp [collectResults]⟩
  | m :: ms, seen => by
    unfold collectResults
    cases hid : m.toolCallId with
    | none => exact ⟨[], by simp⟩
    | some id =>
      dsimp only
      split
      · rename_i hfound
        obtain ⟨htool, hne, -, hunseen⟩ := hfound
        split
        · refine ⟨[id], by simp [hid], List.nodup_singleton id, ?_, ?_, ?_, ?_⟩
          · exact fun hmem => hne (List.mem_singleton.mp hmem).symm
          · exact fun id' hmem => List.mem_singleton.mp hmem ▸ hunseen
          · exact fun r hr => List.mem_singleton.mp hr ▸ htool
          · rw [List.toFinset_cons, List.toFinset_nil, insert_empty_eq, Finset.union_singleton]
        · obtain ⟨ids, hmap, hnodup, hnamed, hfresh, htools, hseen⟩ :=
            collectResults_spec needed ms (insert id seen)
          have hnew : id ∉ ids := fun hmem => hfresh id hmem (Finset.mem_insert_self id seen)
          refine ⟨id :: ids, ?_, List.nodup_cons.mpr ⟨hnew, hnodup⟩, ?_, ?_, ?_, ?_⟩
          · simp only [List.map_cons, hid, hmap]
          · exact fun hmem => (List.mem_cons.mp hmem).elim (fun h => hne h.symm) hnamed
          · intro id' hmem
            rcases List.mem_cons.mp hmem with rfl | hmem
            · exact hunseen
            · exact fun h => hfresh id' hmem (Finset.mem_insert_of_mem h)
          · intro r hr
            rcases List.mem_cons.mp hr with rfl | hr
            · exact htool
            · exact htools r hr
          · rw [hseen]
            ext x
            simp only [Finset.mem_union, Finset.mem_insert, List.toFinset_cons]
            tauto
      · exact ⟨[], by simp⟩

/-- A complete group is collected as a whole. -/
theorem collectResults_complete {needed : Finset String} (rest : List Message) :
    ∀ (results : List Message) (ids : List String) (seen : Finset String),
      results.map (·.toolCallId) = ids.map some → results ≠ [] → (∀ r ∈ results, r.isTool = true) →
      ids.Nodup → "" ∉ ids → (∀ id ∈ ids, id ∉ seen) → seen ∪ ids.toFinset = needed →
      collectResults needed seen (results ++ rest) = (results, needed, rest)
  | [], _, _, _, hne, _, _, _, _, _ => absurd rfl hne
  | r :: results, [], _, hmap, _, _, _, _, _, _ => by cases hmap
  | r :: results, id :: ids, seen, hmap, _, htools, hnodup, hnamed, hfresh, hneeded => by
    simp only [List.map_cons, List.cons.injEq] at hmap
    obtain ⟨hid, hmap⟩ := hmap
    obtain ⟨hnew, hnodup⟩ := List.nodup_cons.mp hnodup
    have hmem : id ∈ needed := by
      rw [← hneeded]
      simp
    have hne : id ≠ "" := fun h => hnamed (h ▸ List.mem_cons_self)
    have hunseen : id ∉ seen := hfresh id List.mem_cons_self
    rw [List.cons_append]
    unfold collectResults
    rw [hid]
    dsimp only
    rw [if_pos ⟨htools r List.mem_cons_self, hne, hmem, hunseen⟩]
    have hneeded' : insert id seen ∪ ids.toFinset = needed := by
      rw [← hneeded]
      ext x
      simp only [Finset.mem_union, Finset.mem_insert, List.toFinset_cons]
      tauto
    cases results with
    | nil =>
      have hids : ids = [] := by
        cases ids with
        | nil => rfl
        | cons _ _ => cases hmap
      have hfull : insert id seen = needed := by
        rw [← hneeded', hids]
        simp
      rw [if_pos hfull, hfull]
      rfl
    | cons r' results =>
      cases ids with
      | nil => cases hmap
      | cons id' ids =>
        have hmissing : insert id seen ≠ needed := by
          intro hfull
          have hin : id' ∈ insert id seen := by
            rw [hfull, ← hneeded']
            simp
          rcases Finset.mem_insert.mp hin with rfl | hin
          · exact hnew List.mem_cons_self
          · exact hfresh id' (List.mem_cons_of_mem _ List.mem_cons_self) hin
        rw [if_neg hmissing, collectResults_complete rest (r' :: results) (id' :: ids) (insert id seen)
          hmap (List.cons_ne_nil _ _) (fun r hr => htools r (List.mem_cons_of_mem _ hr)) hnodup
          (fun h => hnamed (List.mem_cons_of_mem _ h)) (fun x hx hin => ?_) hneeded']
        rcases Finset.mem_insert.mp hin with rfl | hin
        · exact hnew hx
        · exact hfresh x (List.mem_cons_of_mem _ hx) hin

/-- Pairing keeps a part. -/
theorem pairToolMessages_part (p : Part) (ms : List Message) :
    pairToolMessages (p.messages ++ ms) = p.messages ++ pairToolMessages ms := by
  cases p with
  | plain m hm =>
    unfold Message.isPlain at hm
    simp only [Bool.and_eq_true, Bool.not_eq_true'] at hm
    change pairToolMessages (m :: ms) = m :: pairToolMessages ms
    rw [pairToolMessages, if_neg (by simp [hm.1]), if_neg (by simp [hm.2])]
  | group m results hm =>
    obtain ⟨ids, hids, hmap⟩ := hm.ids
    have hneeded : ∅ ∪ ids.toFinset = m.callIds.toFinset := by
      rw [Finset.empty_union]
      exact List.toFinset_eq_of_perm _ _ hids
    have hfound := collectResults_complete ms results ids ∅ hmap hm.results_ne_nil hm.tools
      (hids.nodup_iff.mpr hm.distinct) (fun h => hm.named (hids.mem_iff.mp h))
      (fun _ _ => Finset.notMem_empty _) hneeded
    change pairToolMessages (m :: (results ++ ms)) = m :: results ++ pairToolMessages ms
    rw [pairToolMessages, if_pos hm.calls,
      if_neg (by rw [List.toFinset_card_of_nodup hm.distinct]; simp)]
    dsimp only
    rw [hfound, if_pos ⟨rfl, hm.length⟩]

/-- A well-formed view is kept as it is. -/
theorem pairToolMessages_view (parts : List Part) : pairToolMessages (view parts) = view parts := by
  induction parts with
  | nil => rw [view_nil, pairToolMessages]
  | cons p parts ih => rw [view_cons, pairToolMessages_part, ih]

/-- The group that the inner loop has found. -/
theorem completes_collected (hcalls : m.callsTools = true)
    (hcard : m.callIds.toFinset.card = m.callIds.length)
    (hseen : (collectResults m.callIds.toFinset ∅ ms).2.1 = m.callIds.toFinset) :
    Completes m (collectResults m.callIds.toFinset ∅ ms).1 := by
  obtain ⟨ids, hmap, hnodup, hnamed, -, htools, hunion⟩ :=
    collectResults_spec m.callIds.toFinset ms ∅
  have hmulti : (Multiset.toFinset (m.callIds : Multiset String)).card =
      Multiset.card (m.callIds : Multiset String) := hcard
  have hdistinct : m.callIds.Nodup :=
    Multiset.coe_nodup.mp (Multiset.toFinset_card_eq_card_iff_nodup.mp hmulti)
  rw [hseen, Finset.empty_union] at hunion
  have hperm : ids.Perm m.callIds := List.perm_of_nodup_nodup_toFinset_eq hnodup hdistinct hunion.symm
  exact ⟨hcalls, hdistinct, fun h => hnamed (hperm.mem_iff.mpr h), htools, by
    rw [hmap]
    exact hperm.map some⟩

theorem Message.isPlain_of_not {m : Message} (hcalls : ¬ m.callsTools = true) (htool : ¬ m.isTool = true) :
    m.isPlain = true := by
  unfold Message.isPlain
  rw [Bool.eq_false_iff.mpr hcalls, Bool.eq_false_iff.mpr htool]
  rfl

/-- What `pair_tool_messages` appends to `kept`: a group in one pass, a plain message in another. -/
def pairParts : List Message → List Part
  | [] => []
  | m :: ms =>
    if hcalls : m.callsTools then
      if hcard : m.callIds.toFinset.card ≠ m.callIds.length then
        pairParts (ms.dropWhile Message.isTool)
      else
        let found := collectResults m.callIds.toFinset ∅ ms
        if hfound : found.2.1 = m.callIds.toFinset ∧ found.1.length = m.callIds.length then
          .group m found.1 (completes_collected hcalls (not_not.mp hcard) hfound.1) :: pairParts found.2.2
        else pairParts (found.2.2.dropWhile Message.isTool)
    else if htool : m.isTool then pairParts ms
    else .plain m (Message.isPlain_of_not hcalls htool) :: pairParts ms
termination_by ms => ms.length
decreasing_by
  all_goals
    have hdrop : ∀ xs : List Message, (xs.dropWhile Message.isTool).length ≤ xs.length := fun xs =>
      (List.dropWhile_suffix _).length_le
    have hrest := collectResults_rest_length m.callIds.toFinset ∅ ms
    have hms := hdrop ms
    have hleft := hdrop (collectResults m.callIds.toFinset ∅ ms).2.2
    simp only [List.length_cons] at *
    omega

/-- Together they are the paired view. -/
theorem view_pairParts (ms : List Message) : view (pairParts ms) = pairToolMessages ms := by
  induction ms using pairToolMessages.induct with
  | case1 =>
    rw [pairParts, pairToolMessages, view_nil]
  | case2 m ms hcalls hcard ih =>
    rw [pairParts, dif_pos hcalls, dif_pos hcard, pairToolMessages, if_pos hcalls, if_pos hcard]
    exact ih
  | case3 m ms hcalls hcard found hfound ih =>
    rw [pairParts, dif_pos hcalls, dif_neg hcard, pairToolMessages, if_pos hcalls, if_neg hcard]
    dsimp only
    rw [dif_pos hfound, if_pos hfound, view_cons, ih]
    rfl
  | case4 m ms hcalls hcard found hfound ih =>
    rw [pairParts, dif_pos hcalls, dif_neg hcard, pairToolMessages, if_pos hcalls, if_neg hcard]
    dsimp only
    rw [dif_neg hfound, if_neg hfound]
    exact ih
  | case5 m ms hcalls htool ih =>
    rw [pairParts, dif_neg hcalls, dif_pos htool, pairToolMessages, if_neg hcalls, if_pos htool]
    exact ih
  | case6 m ms hcalls htool ih =>
    rw [pairParts, dif_neg hcalls, dif_neg htool, pairToolMessages, if_neg hcalls, if_neg htool,
      view_cons, ih]
    rfl

/-- **Pairing gives well-formed views**, whatever the history. -/
theorem wellFormed_pairToolMessages (ms : List Message) : WellFormed (pairToolMessages ms) :=
  ⟨pairParts ms, view_pairParts ms⟩

/-- The inner loop never goes past a message that is no result. -/
theorem collectResults_stops (needed : Finset String) (hm : m.isTool = false) (rest : List Message) :
    ∀ (ms : List Message) (seen : Finset String), collectResults needed seen (ms ++ m :: rest) =
      ((collectResults needed seen ms).1, (collectResults needed seen ms).2.1,
        (collectResults needed seen ms).2.2 ++ m :: rest)
  | [], seen => by
    rw [List.nil_append]
    unfold collectResults
    cases m.toolCallId with
    | none => rfl
    | some id =>
      dsimp only
      rw [if_neg]
      · rfl
      · rintro ⟨htool, -⟩
        rw [hm] at htool
        cases htool
  | m' :: ms, seen => by
    rw [List.cons_append]
    unfold collectResults
    cases m'.toolCallId with
    | none => rfl
    | some id =>
      dsimp only
      split
      · split
        · rfl
        · rw [collectResults_stops needed hm rest ms (insert id seen)]
      · rfl

theorem dropWhile_stops (hm : m.isTool = false) (ms rest : List Message) :
    (ms ++ m :: rest).dropWhile Message.isTool = ms.dropWhile Message.isTool ++ m :: rest := by
  induction ms with
  | nil =>
    rw [List.nil_append, List.dropWhile_nil, List.nil_append,
      List.dropWhile_cons_of_neg (by simp [hm])]
  | cons m' ms ih =>
    rw [List.cons_append, List.dropWhile_cons, List.dropWhile_cons]
    split
    · exact ih
    · rfl

/-- What comes before a message that is no result is paired for itself. -/
theorem pairToolMessages_append (hm : m.isTool = false) (ms rest : List Message) :
    pairToolMessages (ms ++ m :: rest) = pairToolMessages ms ++ pairToolMessages (m :: rest) := by
  induction ms using pairToolMessages.induct with
  | case1 =>
    have hnil : pairToolMessages [] = [] := by rw [pairToolMessages]
    rw [hnil, List.nil_append, List.nil_append]
  | case2 m' ms hcalls hcard ih =>
    rw [List.cons_append, pairToolMessages, if_pos hcalls, if_pos hcard, dropWhile_stops hm, ih]
    rw [pairToolMessages.eq_2 m' ms, if_pos hcalls, if_pos hcard]
  | case3 m' ms hcalls hcard found hfound ih =>
    rw [List.cons_append, pairToolMessages, if_pos hcalls, if_neg hcard,
      pairToolMessages.eq_2 m' ms, if_pos hcalls, if_neg hcard]
    dsimp only
    rw [collectResults_stops _ hm, if_pos hfound, if_pos hfound, ih, List.append_assoc]
  | case4 m' ms hcalls hcard found hfound ih =>
    rw [List.cons_append, pairToolMessages, if_pos hcalls, if_neg hcard,
      pairToolMessages.eq_2 m' ms, if_pos hcalls, if_neg hcard]
    dsimp only
    rw [collectResults_stops _ hm, if_neg hfound, if_neg hfound, dropWhile_stops hm, ih]
  | case5 m' ms hcalls htool ih =>
    rw [List.cons_append, pairToolMessages, if_neg hcalls, if_pos htool, ih,
      pairToolMessages.eq_2 m' ms, if_neg hcalls, if_pos htool]
  | case6 m' ms hcalls htool ih =>
    rw [List.cons_append, pairToolMessages, if_neg hcalls, if_neg htool, ih,
      pairToolMessages.eq_2 m' ms, if_neg hcalls, if_neg htool, List.cons_append]

/-- The calls that a well-formed view shows can be told apart. -/
theorem WellFormed.callIds (h : WellFormed ms) (hm : m ∈ ms) (hcalls : m.callsTools = true) :
    m.callIds.Nodup ∧ "" ∉ m.callIds := by
  obtain ⟨parts, rfl⟩ := h
  obtain ⟨p, -, hp⟩ := List.mem_flatMap.mp hm
  cases p with
  | plain m' hplain =>
    obtain rfl : m = m' := List.mem_singleton.mp hp
    unfold Message.isPlain at hplain
    rw [hcalls] at hplain
    cases hplain
  | group m' results hgroup =>
    rcases List.mem_cons.mp hp with rfl | hp
    · exact ⟨hgroup.distinct, hgroup.named⟩
    · have htool := hgroup.tools m hp
      rw [Message.isTool_of_callsTools hcalls] at htool
      cases htool

/-! ## What pairing keeps -/

section Keeps

variable {q : Message → Bool} (hcalls : ∀ m : Message, m.callsTools = true → q m = false)
  (htools : ∀ m : Message, m.isTool = true → q m = false)

include htools

theorem filter_tools (h : ∀ r ∈ results, r.isTool = true) : results.filter q = [] :=
  List.filter_eq_nil_iff.mpr fun r hr => by
    rw [htools r (h r hr)]
    exact Bool.false_ne_true

theorem filter_dropWhile (ms : List Message) : (ms.dropWhile Message.isTool).filter q = ms.filter q := by
  have hsplit := List.takeWhile_append_dropWhile (p := Message.isTool) (l := ms)
  have hnone : (ms.takeWhile Message.isTool).filter q = [] :=
    filter_tools htools fun r hr => List.mem_takeWhile_imp hr
  calc (ms.dropWhile Message.isTool).filter q
      = (ms.takeWhile Message.isTool).filter q ++ (ms.dropWhile Message.isTool).filter q := by
        rw [hnone, List.nil_append]
    _ = ms.filter q := by rw [← List.filter_append, hsplit]

theorem filter_collected (needed : Finset String) (ms : List Message) :
    (collectResults needed ∅ ms).2.2.filter q = ms.filter q := by
  obtain ⟨_, _, _, _, _, hfound, _⟩ := collectResults_spec needed ms ∅
  have hsplit := collectResults_append needed ms ∅
  calc (collectResults needed ∅ ms).2.2.filter q
      = (collectResults needed ∅ ms).1.filter q ++ (collectResults needed ∅ ms).2.2.filter q := by
        rw [filter_tools htools hfound, List.nil_append]
    _ = ms.filter q := by rw [← List.filter_append, hsplit]

include hcalls

/-- Pairing keeps every message that is neither a call nor a result. -/
theorem filter_pairToolMessages (ms : List Message) : (pairToolMessages ms).filter q = ms.filter q := by
  have hdrop : ∀ {m : Message} {ms : List Message}, q m = false → (m :: ms).filter q = ms.filter q :=
    fun h => List.filter_cons_of_neg (by rw [h]; exact Bool.false_ne_true)
  induction ms using pairToolMessages.induct with
  | case1 => rw [pairToolMessages]
  | case2 m ms hm hcard ih =>
    rw [pairToolMessages, if_pos hm, if_pos hcard, ih, filter_dropWhile htools, hdrop (hcalls m hm)]
  | case3 m ms hm hcard found hfound ih =>
    obtain ⟨_, _, _, _, _, hresults, _⟩ := collectResults_spec m.callIds.toFinset ms ∅
    rw [pairToolMessages, if_pos hm, if_neg hcard]
    dsimp only
    rw [if_pos hfound, List.cons_append, hdrop (hcalls m hm), hdrop (hcalls m hm), List.filter_append,
      ih, filter_tools htools hresults, List.nil_append, filter_collected htools]
  | case4 m ms hm hcard found hfound ih =>
    rw [pairToolMessages, if_pos hm, if_neg hcard]
    dsimp only
    rw [if_neg hfound, ih, filter_dropWhile htools, filter_collected htools, hdrop (hcalls m hm)]
  | case5 m ms hm htool ih =>
    rw [pairToolMessages, if_neg hm, if_pos htool, ih, hdrop (htools m htool)]
  | case6 m ms hm htool ih =>
    rw [pairToolMessages, if_neg hm, if_neg htool, List.filter_cons, List.filter_cons, ih]

end Keeps

/-- The system messages of a view, in order. -/
def systems (ms : List Message) : List Message := ms.filter Message.isSystem

@[simp] theorem systems_append (ms ms' : List Message) :
    systems (ms ++ ms') = systems ms ++ systems ms' := List.filter_append ..

theorem systems_cons_of_not (h : m.isSystem = false) : systems (m :: ms) = systems ms :=
  List.filter_cons_of_neg (by rw [h]; exact Bool.false_ne_true)

theorem systems_tools (h : ∀ r ∈ results, r.isTool = true) : systems results = [] :=
  filter_tools (fun _ => Message.isSystem_of_isTool) h

/-- Pairing keeps the system messages. -/
theorem systems_pairToolMessages (ms : List Message) : systems (pairToolMessages ms) = systems ms :=
  filter_pairToolMessages (fun _ => Message.isSystem_of_callsTools)
    (fun _ => Message.isSystem_of_isTool) ms

/-! ## What may go -/

/-- The results of a group, and nothing behind them, answer its calls. -/
theorem takeWhile_group (hm : Completes m results) (parts : List Part) :
    ((results ++ view parts).takeWhile fun r => r.isTool && r.toolCallId.any (· ∈ m.callIds)) =
      results := by
  have hpos : ∀ r ∈ results, (r.isTool && r.toolCallId.any (· ∈ m.callIds)) = true := by
    intro r hr
    obtain ⟨id, hid, hsome⟩ := List.mem_map.mp (hm.perm.mem_iff.mp (List.mem_map_of_mem hr))
    rw [hm.tools r hr, ← hsome]
    simpa using hid
  rw [List.takeWhile_append_of_pos hpos]
  cases hview : view parts with
  | nil => exact List.append_nil _
  | cons r rest =>
    rw [List.takeWhile_cons, if_neg, List.append_nil]
    rw [view_head parts hview]
    exact Bool.false_ne_true

theorem Part.isPlain_callsTools (h : m.isPlain = true) : m.callsTools = false := by
  unfold Message.isPlain at h
  simp only [Bool.and_eq_true, Bool.not_eq_true'] at h
  exact h.1

/-- `_oldest_tool_group` finds the first group of a view, as a whole. -/
theorem oldestToolGroup_some : ∀ {parts : List Part} {index : Nat} {span : Nat × Nat},
    oldestToolGroup index (view parts) = some span →
      ∃ before p after, parts = before ++ p :: after ∧ p.isGroup = true ∧
        (∀ q ∈ before, q.isGroup = false) ∧
        span = (index + (view before).length, index + (view before).length + p.messages.length)
  | [], _, _, h => by cases h
  | .plain m hm :: parts, index, span, h => by
    change oldestToolGroup index (m :: view parts) = some span at h
    rw [oldestToolGroup] at h
    simp only [Part.isPlain_callsTools hm, Bool.false_eq_true, false_and, if_false] at h
    obtain ⟨before, p, after, rfl, hp, hbefore, rfl⟩ := oldestToolGroup_some h
    refine ⟨.plain m hm :: before, p, after, rfl, hp, fun q hq => ?_, ?_⟩
    · rcases List.mem_cons.mp hq with rfl | hq
      · rfl
      · exact hbefore q hq
    · have hlen : (view (.plain m hm :: before)).length = 1 + (view before).length := by
        rw [view_cons, List.length_append]
        rfl
      rw [hlen, ← Nat.add_assoc]
  | .group m results hm :: parts, index, span, h => by
    change oldestToolGroup index (m :: (results ++ view parts)) = some span at h
    rw [oldestToolGroup] at h
    simp only [takeWhile_group hm parts] at h
    rw [if_pos ⟨hm.calls, hm.results_ne_nil⟩] at h
    cases h
    refine ⟨[], .group m results hm, parts, rfl, rfl, fun _ hq => (by cases hq), ?_⟩
    simp only [view_nil, List.length_nil, Nat.add_zero, Part.messages, List.length_cons]
    rw [Nat.add_assoc, Nat.add_comm 1]

theorem oldestToolGroup_none : ∀ {parts : List Part} {index : Nat},
    oldestToolGroup index (view parts) = none → ∀ p ∈ parts, p.isGroup = false
  | [], _, _, _, hp => by cases hp
  | .plain m hm :: parts, index, h, p, hp => by
    change oldestToolGroup index (m :: view parts) = none at h
    rw [oldestToolGroup] at h
    simp only [Part.isPlain_callsTools hm, Bool.false_eq_true, false_and, if_false] at h
    rcases List.mem_cons.mp hp with rfl | hp
    · rfl
    · exact oldestToolGroup_none h p hp
  | .group m results hm :: parts, index, h, p, hp => by
    change oldestToolGroup index (m :: (results ++ view parts)) = none at h
    rw [oldestToolGroup] at h
    simp only [takeWhile_group hm parts] at h
    rw [if_pos ⟨hm.calls, hm.results_ne_nil⟩] at h
    cases h

/-- `_oldest_plain_turn` finds the first turn that is not of the system, but never the last message. -/
theorem oldestPlainTurn_some : ∀ {parts : List Part} {index : Nat} {span : Nat × Nat},
    (∀ p ∈ parts, p.isGroup = false) → oldestPlainTurn index (view parts) = some span →
      ∃ before p after, parts = before ++ p :: after ∧ after ≠ [] ∧ p.isSystem = false ∧
        (∀ q ∈ before, q.isSystem = true) ∧
        span = (index + (view before).length, index + (view before).length + p.messages.length)
  | [], _, _, _, h => by cases h
  | .group m results hm :: parts, _, _, hplain, _ => by cases hplain _ List.mem_cons_self
  | [.plain m hm], _, _, _, h => by cases h
  | .plain m hm :: .group m' results hm' :: parts, _, _, hplain, _ => by
    cases hplain (.group m' results hm') (List.mem_cons_of_mem _ List.mem_cons_self)
  | .plain m hm :: .plain m' hm' :: parts, index, span, hplain, h => by
    change oldestPlainTurn index (m :: m' :: view parts) = some span at h
    rw [oldestPlainTurn] at h
    split at h
    · rename_i hsystem
      have hrest : ∀ p ∈ Part.plain m' hm' :: parts, p.isGroup = false := fun p hp =>
        hplain p (List.mem_cons_of_mem _ hp)
      obtain ⟨before, p, after, heq, hafter, hp, hbefore, rfl⟩ := oldestPlainTurn_some hrest h
      refine ⟨.plain m hm :: before, p, after, by rw [heq]; rfl, hafter, hp, fun q hq => ?_, ?_⟩
      · rcases List.mem_cons.mp hq with rfl | hq
        · exact hsystem
        · exact hbefore q hq
      · have hlen : (view (.plain m hm :: before)).length = 1 + (view before).length := by
          rw [view_cons, List.length_append]
          rfl
        rw [hlen, ← Nat.add_assoc]
    · rename_i hsystem
      cases h
      exact ⟨[], .plain m hm, .plain m' hm' :: parts, rfl, List.cons_ne_nil _ _,
        Bool.eq_false_iff.mpr hsystem, fun _ hq => (by cases hq), rfl⟩

/-- Deleting the span of a part. -/
theorem deleteSpan_view (before : List Part) (p : Part) (after : List Part) :
    deleteSpan (view (before ++ p :: after))
      (0 + (view before).length, 0 + (view before).length + p.messages.length) =
        view (before ++ after) := by
  unfold deleteSpan
  rw [view_append, view_cons, view_append, Nat.zero_add, List.take_left, ← List.append_assoc,
    ← List.length_append, List.drop_left]

/-- The part that is deleted next: the oldest group, or, without groups, the oldest plain turn that is
not of the system, unless it is the last. -/
structure Oldest (parts before : List Part) (p : Part) (after : List Part) : Prop where
  split : parts = before ++ p :: after
  kind : (p.isGroup = true ∧ ∀ q ∈ before, q.isGroup = false) ∨
    (∀ q ∈ parts, q.isGroup = false) ∧ p.isSystem = false ∧ after ≠ [] ∧
      ∀ q ∈ before, q.isSystem = true

theorem Oldest.not_system {parts before after : List Part} {p : Part} (h : Oldest parts before p after) :
    p.isSystem = false := by
  rcases h.kind with ⟨hgroup, -⟩ | ⟨-, hp, -⟩
  · cases p with
    | plain _ _ => cases hgroup
    | group _ _ _ => rfl
  · exact hp

theorem oldestSpan_view {parts : List Part} {span : Nat × Nat}
    (h : oldestSpan (view parts) = some span) :
    ∃ before p after, Oldest parts before p after ∧
      deleteSpan (view parts) span = view (before ++ after) := by
  unfold oldestSpan at h
  rcases Option.or_eq_some_iff.mp h with h | ⟨hnone, h⟩
  · obtain ⟨before, p, after, rfl, hp, hbefore, rfl⟩ := oldestToolGroup_some h
    exact ⟨before, p, after, ⟨rfl, .inl ⟨hp, hbefore⟩⟩, deleteSpan_view before p after⟩
  · have hplain := oldestToolGroup_none hnone
    obtain ⟨before, p, after, rfl, hafter, hp, hbefore, rfl⟩ := oldestPlainTurn_some hplain h
    exact ⟨before, p, after, ⟨rfl, .inr ⟨hplain, hp, hafter, hbefore⟩⟩, deleteSpan_view before p after⟩

theorem Part.systems_messages (p : Part) :
    systems p.messages = if p.isSystem then p.messages else [] := by
  cases p with
  | plain m hm =>
    change [m].filter Message.isSystem = if m.isSystem then [m] else []
    rw [List.filter_cons]
    rfl
  | group m results hm =>
    change systems (m :: results) = []
    rw [systems_cons_of_not (Message.isSystem_of_callsTools hm.calls), systems_tools hm.tools]

/-- Deleting a part that is not of the system keeps the system messages. -/
theorem systems_delete (before : List Part) {p : Part} (after : List Part) (h : p.isSystem = false) :
    systems (view (before ++ after)) = systems (view (before ++ p :: after)) := by
  rw [view_append, view_append, view_cons, systems_append, systems_append, systems_append,
    p.systems_messages, h, if_neg Bool.false_ne_true, List.nil_append]

/-! ## Trimming -/

/-- The view has been trimmed: it is well formed, has the same system messages, and fits. -/
structure Trimmed (estimate : List Message → Except Exc Int) (budgetTokens : Int)
    (ms result : List Message) : Prop where
  wellFormed : WellFormed result
  systems : systems result = systems ms
  fits : ∃ total, estimate result = .ok total ∧ total ≤ budgetTokens

theorem trim_trimmed (estimate : List Message → Except Exc Int) (budgetTokens : Int) (compressed : Bool)
    (paired : List Message) : ∀ {result : List Message} {compressed' : Bool}, WellFormed paired →
      trim estimate budgetTokens compressed paired = .ok (result, compressed') →
        Trimmed estimate budgetTokens paired result := by
  induction compressed, paired using trim.induct estimate budgetTokens with
  | case1 compressed paired e he =>
    intro result compressed' _ h
    rw [trim, he] at h
    cases h
  | case2 compressed paired total htotal hover hnone =>
    intro result compressed' _ h
    rw [trim, htotal] at h
    dsimp only at h
    rw [if_pos hover] at h
    split at h
    · cases h
    · rename_i span hspan
      rw [hnone] at hspan
      cases hspan
  | case3 compressed paired total htotal hover span hspan ih =>
    intro result compressed' hw h
    rw [trim, htotal] at h
    dsimp only at h
    rw [if_pos hover] at h
    split at h
    · cases h
    · rename_i span' hspan'
      obtain rfl : span = span' := Option.some.inj (hspan.symm.trans hspan')
      obtain ⟨parts, rfl⟩ := hw
      obtain ⟨before, p, after, hold, hdelete⟩ := oldestSpan_view hspan
      obtain ⟨hwell, hsystems, hfits⟩ := ih ⟨before ++ after, hdelete.symm⟩ h
      refine ⟨hwell, ?_, hfits⟩
      rw [hsystems, hdelete, hold.split]
      exact systems_delete before after hold.not_system
  | case4 compressed paired total htotal hfits =>
    intro result compressed' hw h
    rw [trim, htotal] at h
    dsimp only at h
    rw [if_neg hfits] at h
    cases h
    exact ⟨hw, rfl, total, htotal, by omega⟩

/-! ## Units -/

/-- The units of a view are its parts. -/
theorem groupMessages_view (parts : List Part) : groupMessages (view parts) = parts.map Part.messages := by
  induction parts with
  | nil => rw [view_nil, groupMessages]; rfl
  | cons p parts ih =>
    cases p with
    | plain m hm =>
      change groupMessages (m :: view parts) = [m] :: parts.map Part.messages
      rw [groupMessages, if_neg, ih]
      rw [Part.isPlain_callsTools hm]
      exact Bool.false_ne_true
    | group m results hm =>
      change groupMessages (m :: (results ++ view parts)) = (m :: results) :: parts.map Part.messages
      rw [groupMessages, if_pos hm.calls]
      dsimp only
      rw [takeWhile_group hm parts, List.drop_left, ih]

theorem flatten_messages (parts : List Part) : (parts.map Part.messages).flatten = view parts :=
  (List.flatMap_def ..).symm

/-- The messages of a view that are not of the system, and those that are. -/
theorem view_filter_not_system (parts : List Part) :
    (view parts).filter (fun m => !m.isSystem) = view (parts.filter fun p => !p.isSystem) := by
  induction parts with
  | nil => rfl
  | cons p parts ih =>
    rw [view_cons, List.filter_append, ih, List.filter_cons]
    cases p with
    | plain m hm =>
      change [m].filter _ ++ _ = view (if (!m.isSystem) = true then _ else _)
      rw [List.filter_cons]
      split <;> rfl
    | group m results hm =>
      have hkeep : ∀ r ∈ (Part.group m results hm).messages, (!r.isSystem) = true := by
        intro r hr
        rcases List.mem_cons.mp hr with rfl | hr
        · rw [Message.isSystem_of_callsTools hm.calls]
          rfl
        · rw [Message.isSystem_of_isTool (hm.tools r hr)]
          rfl
      rw [List.filter_eq_self.mpr hkeep]
      rfl

theorem Message.isPlain_of_isSystem (h : m.isSystem = true) : m.isPlain = true := by
  unfold Message.isSystem at h
  rw [beq_iff_eq] at h
  unfold Message.isPlain Message.callsTools Message.isTool
  rw [h]
  rfl

theorem wellFormed_systems (ms : List Message) : WellFormed (systems ms) :=
  wellFormed_plain fun _ hm => Message.isPlain_of_isSystem (List.mem_filter.mp hm).2

end AgentRuntime
