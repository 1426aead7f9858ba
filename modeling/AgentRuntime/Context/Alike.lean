import AgentRuntime.Context.Prepare

/-!
# Equal prompts

Two messages that are hashed alike are equal to Python: every field is the same, and the arguments of
the calls are the same dicts, in whatever order they were filled.

* `Alike` — equal prompts; `TokenEstimator.Unordered` — an estimator that does not tell them apart;
* `trimGroups_hashed` — equal prompts are trimmed to equal views.
-/

set_option autoImplicit false

namespace AgentRuntime

open Async

/-- The messages are equal, but for the order of the arguments of their calls. -/
def Alike (ms ms' : List Message) : Prop := ms.map Message.hashed = ms'.map Message.hashed

/-! ## Estimators -/

/-- The order in which arguments are printed does not matter to the estimator. -/
def TokenEstimator.Unordered (estimator : TokenEstimator) : Prop :=
  ∀ c : ToolCall,
    estimator.canEstimate (estimator.renderArguments c.hashed.arguments) =
      estimator.canEstimate (estimator.renderArguments c.arguments) ∧
    estimator.estimateText (estimator.renderArguments c.hashed.arguments) =
      estimator.estimateText (estimator.renderArguments c.arguments)

/-- `str(dict(arguments))`, of items that are printed one by one. -/
def strDict (item : String × Value → String) (arguments : List (String × Value)) : String :=
  "\x7b" ++ String.intercalate ", " (arguments.map item) ++ "\x7d"

theorem length_intercalate (sep : String) : ∀ texts : List String,
    (String.intercalate sep texts).length =
      (texts.map String.length).sum + sep.length * (texts.length - 1)
  | [] => by simp
  | [text] => by simp
  | text :: text' :: texts => by
    rw [String.intercalate_cons_cons, String.length_append, String.length_append,
      length_intercalate sep (text' :: texts)]
    simp only [List.map_cons, List.sum_cons, List.length_cons, Nat.add_sub_cancel, Nat.mul_add]
    omega

theorem length_strDict_perm (item : String × Value → String) {arguments arguments' : List (String × Value)}
    (h : arguments.Perm arguments') :
    (strDict item arguments).length = (strDict item arguments').length := by
  have hsum : ((arguments.map item).map String.length).sum = ((arguments'.map item).map String.length).sum :=
    ((h.map item).map String.length).sum_eq
  unfold strDict
  simp only [String.length_append, length_intercalate, List.length_map, h.length_eq]
  rw [hsum]

/-- The estimator of the runtime counts characters. -/
theorem charQuarterEstimator_unordered (item : String × Value → String) :
    (charQuarterEstimator (strDict item)).Unordered := by
  intro c
  have hlength : (strDict item c.hashed.arguments).length = (strDict item c.arguments).length :=
    length_strDict_perm item (List.mergeSort_perm _ _)
  have hnonempty : ∀ arguments, strDict item arguments ≠ "" := by
    intro arguments h
    have hzero : (strDict item arguments).length = 0 := by rw [h, String.length_empty]
    unfold strDict at hzero
    rw [String.length_append, String.length_append] at hzero
    have hbrace : ("\x7b" : String).length = 1 := by decide
    omega
  refine ⟨rfl, congrArg Except.ok ?_⟩
  change charQuarterEstimator.quarter (strDict item c.hashed.arguments) =
    charQuarterEstimator.quarter (strDict item c.arguments)
  unfold charQuarterEstimator.quarter
  rw [if_neg (hnonempty _), if_neg (hnonempty _), hlength]

/-! ## What is hashed -/

namespace Message

variable (m : Message)

@[simp] theorem hashed_callsTools : m.hashed.callsTools = m.callsTools := by
  unfold callsTools hashed
  simp

@[simp] theorem hashed_isTool : m.hashed.isTool = m.isTool := rfl

@[simp] theorem hashed_isSystem : m.hashed.isSystem = m.isSystem := rfl

@[simp] theorem hashed_toolCallId : m.hashed.toolCallId = m.toolCallId := rfl

@[simp] theorem hashed_callIds : m.hashed.callIds = m.callIds := by
  unfold callIds hashed
  rw [List.map_map]
  rfl

end Message

/-! ## Pairing -/

theorem collectResults_hashed (needed : Finset String) : ∀ (ms : List Message) (seen : Finset String),
    collectResults needed seen (ms.map Message.hashed) =
      ((collectResults needed seen ms).1.map Message.hashed, (collectResults needed seen ms).2.1,
        (collectResults needed seen ms).2.2.map Message.hashed)
  | [], seen => rfl
  | m :: ms, seen => by
    rw [List.map_cons]
    unfold collectResults
    rw [Message.hashed_toolCallId]
    cases m.toolCallId with
    | none => rfl
    | some id =>
      simp only [Message.hashed_isTool]
      split
      · split
        · rfl
        · rw [collectResults_hashed needed ms]
          rfl
      · rfl

theorem dropWhile_hashed (ms : List Message) :
    (ms.map Message.hashed).dropWhile Message.isTool = (ms.dropWhile Message.isTool).map Message.hashed := by
  rw [List.dropWhile_map]
  rfl

theorem pairToolMessages_hashed (ms : List Message) :
    pairToolMessages (ms.map Message.hashed) = (pairToolMessages ms).map Message.hashed := by
  induction ms using pairToolMessages.induct with
  | case1 => rw [List.map_nil, pairToolMessages, List.map_nil]
  | case2 m ms hcalls hcard ih =>
    rw [pairToolMessages, if_pos hcalls, if_pos hcard, List.map_cons, pairToolMessages,
      Message.hashed_callsTools, Message.hashed_callIds, if_pos hcalls, if_pos hcard, dropWhile_hashed, ih]
  | case3 m ms hcalls hcard found hfound ih =>
    rw [pairToolMessages, if_pos hcalls, if_neg hcard, List.map_cons, pairToolMessages,
      Message.hashed_callsTools, Message.hashed_callIds, if_pos hcalls, if_neg hcard, collectResults_hashed]
    dsimp only
    rw [List.length_map, if_pos hfound, if_pos hfound, ih, List.map_append, List.map_cons]
  | case4 m ms hcalls hcard found hfound ih =>
    rw [pairToolMessages, if_pos hcalls, if_neg hcard, List.map_cons, pairToolMessages,
      Message.hashed_callsTools, Message.hashed_callIds, if_pos hcalls, if_neg hcard, collectResults_hashed]
    dsimp only
    rw [List.length_map, if_neg hfound, if_neg hfound, dropWhile_hashed, ih]
  | case5 m ms hcalls htool ih =>
    rw [pairToolMessages, if_neg hcalls, if_pos htool, List.map_cons, pairToolMessages,
      Message.hashed_callsTools, Message.hashed_isTool, if_neg hcalls, if_pos htool, ih]
  | case6 m ms hcalls htool ih =>
    rw [pairToolMessages, if_neg hcalls, if_neg htool, List.map_cons, pairToolMessages,
      Message.hashed_callsTools, Message.hashed_isTool, if_neg hcalls, if_neg htool, ih, List.map_cons]

/-! ## Trimming -/

theorem oldestToolGroup_hashed : ∀ (ms : List Message) (index : Nat),
    oldestToolGroup index (ms.map Message.hashed) = oldestToolGroup index ms
  | [], index => rfl
  | m :: ms, index => by
    have hresults : (ms.map Message.hashed).takeWhile
        (fun r => r.isTool && r.toolCallId.any (· ∈ m.callIds)) =
        (ms.takeWhile fun r => r.isTool && r.toolCallId.any (· ∈ m.callIds)).map Message.hashed := by
      rw [List.takeWhile_map]
      rfl
    rw [List.map_cons]
    unfold oldestToolGroup
    rw [Message.hashed_callsTools, Message.hashed_callIds, hresults, oldestToolGroup_hashed ms]
    simp only [List.length_map, ne_eq, List.map_eq_nil_iff]

theorem oldestPlainTurn_hashed : ∀ (ms : List Message) (index : Nat),
    oldestPlainTurn index (ms.map Message.hashed) = oldestPlainTurn index ms
  | [], index => rfl
  | [m], index => rfl
  | m :: m' :: ms, index => by
    have ih := oldestPlainTurn_hashed (m' :: ms) (index + 1)
    rw [List.map_cons] at ih
    rw [List.map_cons, List.map_cons]
    unfold oldestPlainTurn
    rw [Message.hashed_isSystem, ih]

theorem oldestSpan_hashed (ms : List Message) : oldestSpan (ms.map Message.hashed) = oldestSpan ms := by
  unfold oldestSpan
  rw [oldestToolGroup_hashed, oldestPlainTurn_hashed]

theorem deleteSpan_hashed (ms : List Message) (span : Nat × Nat) :
    deleteSpan (ms.map Message.hashed) span = (deleteSpan ms span).map Message.hashed := by
  unfold deleteSpan
  rw [List.map_append, List.map_take, List.map_drop]

/-- A view whose messages are replaced by what is hashed of them. -/
def hashedView (r : List Message × Bool) : List Message × Bool := (r.1.map Message.hashed, r.2)

theorem trim_hashed {estimate : List Message → Except Exc Int}
    (hestimate : ∀ ms, estimate (ms.map Message.hashed) = estimate ms) (budgetTokens : Int)
    (compressed : Bool) (ms : List Message) :
    trim estimate budgetTokens compressed (ms.map Message.hashed) =
      (trim estimate budgetTokens compressed ms).map hashedView := by
  induction compressed, ms using trim.induct estimate budgetTokens with
  | case1 compressed ms e he =>
    rw [trim, trim, hestimate, he]
    rfl
  | case2 compressed ms total htotal hover hnone =>
    rw [trim, trim, hestimate, htotal]
    dsimp only
    rw [if_pos hover, if_pos hover]
    split
    · split
      · rfl
      · rename_i span hspan
        rw [hnone] at hspan
        cases hspan
    · rename_i span hspan
      rw [oldestSpan_hashed, hnone] at hspan
      cases hspan
  | case3 compressed ms total htotal hover span hspan ih =>
    rw [trim, trim, hestimate, htotal]
    dsimp only
    rw [if_pos hover, if_pos hover]
    split
    · rename_i hnone
      rw [oldestSpan_hashed, hspan] at hnone
      cases hnone
    · rename_i span' hspan'
      rw [oldestSpan_hashed, hspan] at hspan'
      cases hspan'
      rw [deleteSpan_hashed, ih]
      split
      · rename_i hnone
        rw [hspan] at hnone
        cases hnone
      · rename_i span' hspan'
        obtain rfl : span = span' := Option.some.inj (hspan.symm.trans hspan')
        rfl
  | case4 compressed ms total htotal hfits =>
    rw [trim, trim, hestimate, htotal]
    dsimp only
    rw [if_neg hfits, if_neg hfits]
    rfl

section Estimates

variable {estimator : TokenEstimator}

/-- The two texts cost the same. -/
def TokenEstimator.SameCost (estimator : TokenEstimator) (text text' : String) : Prop :=
  estimator.canEstimate text = estimator.canEstimate text' ∧
    estimator.estimateText text = estimator.estimateText text'

theorem estimateTexts_congr {complaint : String} {texts texts' : List String}
    (h : List.Forall₂ estimator.SameCost texts texts') :
    ∀ total, estimateTexts estimator complaint total texts = estimateTexts estimator complaint total texts' := by
  induction h with
  | nil => exact fun _ => rfl
  | cons hcost _ ih =>
    intro total
    unfold estimateTexts
    rw [hcost.1, hcost.2]
    split
    · split
      · exact ih _
      · rfl
    · rfl

theorem sameCost_refl (texts : List String) : List.Forall₂ estimator.SameCost texts texts :=
  List.forall₂_same.mpr fun _ _ => ⟨rfl, rfl⟩

theorem sameCost_calls (h : estimator.Unordered) : ∀ calls : List ToolCall,
    List.Forall₂ estimator.SameCost
      ((calls.map ToolCall.hashed).flatMap fun call => [call.name, estimator.renderArguments call.arguments])
      (calls.flatMap fun call => [call.name, estimator.renderArguments call.arguments])
  | [] => .nil
  | call :: calls => .cons ⟨rfl, rfl⟩ (.cons (h call) (sameCost_calls h calls))

theorem sameCost_message (h : estimator.Unordered) (m : Message) :
    List.Forall₂ estimator.SameCost (estimableTexts estimator m.hashed) (estimableTexts estimator m) := by
  unfold estimableTexts
  refine List.rel_append (List.rel_append (sameCost_refl _) ?_) (sameCost_refl _)
  exact sameCost_calls h m.toolCalls

theorem sameCost_messages (h : estimator.Unordered) : ∀ ms : List Message,
    List.Forall₂ estimator.SameCost ((ms.map Message.hashed).flatMap (estimableTexts estimator))
      (ms.flatMap (estimableTexts estimator))
  | [] => .nil
  | m :: ms => by
    rw [List.map_cons, List.flatMap_cons, List.flatMap_cons]
    exact List.rel_append (sameCost_message h m) (sameCost_messages h ms)

theorem estimateMessages_hashed (h : estimator.Unordered) (reservedTokens : Int) (ms : List Message) :
    estimateMessages (ms.map Message.hashed) estimator reservedTokens =
      estimateMessages ms estimator reservedTokens :=
  estimateTexts_congr (sameCost_messages h ms) reservedTokens

end Estimates

/-- Equal prompts are trimmed to equal views. -/
theorem trimGroups_hashed {estimator : TokenEstimator} (h : estimator.Unordered) (ms : List Message)
    (budgetTokens reservedTokens : Int) :
    trimGroups (ms.map Message.hashed) budgetTokens estimator reservedTokens =
      (trimGroups ms budgetTokens estimator reservedTokens).map hashedView := by
  unfold trimGroups
  rw [pairToolMessages_hashed, trim_hashed (estimateMessages_hashed h reservedTokens)]

theorem trimGroups_alike {estimator : TokenEstimator} (h : estimator.Unordered) {ms ms' view : List Message}
    {budgetTokens reservedTokens : Int} {compressed : Bool} (halike : Alike ms ms')
    (hview : trimGroups ms budgetTokens estimator reservedTokens = .ok (view, compressed)) :
    ∃ view', trimGroups ms' budgetTokens estimator reservedTokens = .ok (view', compressed) ∧
      Alike view view' := by
  have hsame : (trimGroups ms' budgetTokens estimator reservedTokens).map hashedView =
      .ok (view.map Message.hashed, compressed) := by
    rw [← trimGroups_hashed h, ← halike, trimGroups_hashed h, hview]
    rfl
  cases hview' : trimGroups ms' budgetTokens estimator reservedTokens with
  | error e =>
    rw [hview'] at hsame
    cases hsame
  | ok r =>
    rw [hview'] at hsame
    obtain ⟨hmessages, hcompressed⟩ := Prod.mk.inj (Except.ok.inj hsame)
    exact ⟨r.1, by rw [← hcompressed], hmessages.symm⟩

end AgentRuntime
