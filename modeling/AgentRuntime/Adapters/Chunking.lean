import AgentRuntime.Adapters.CallIds
import AgentRuntime.Async.Drain
import AgentRuntime.Capabilities.Schema

/-!
# Chunked histories

A provider that streams back what a request told it: however it cuts the texts and mixes the calls, the
adapter restores them.

* `Chunking` — chunks that spell a text and some calls;
* `foldl_absorbDelta` — the fragment at an index absorbs the deltas of this index only;
* `assembleToolCalls_chunking` — the calls of the fragments are the original ones;
* `normalizeChatCompletionStream_restores` — so are the text and the calls of the stream.
-/

set_option autoImplicit false

namespace AgentRuntime.OpenaiAdapter

open Async

/-! ## Chunkings -/

/-- The piece of the text in a chunk. -/
def Chunk.text (chunk : Chunk) : String :=
  ((chunk.firstChoice.bind (·.delta)).bind (·.content)).getD ""

/-- The pieces of calls in a chunk. -/
def Chunk.toolDeltas (chunk : Chunk) : List ToolDelta :=
  (chunk.firstChoice.map Choice.toolDeltas).getD []

def ToolDelta.name (d : ToolDelta) : Option String := d.function.bind (·.name)

/-- The piece of an arguments string. -/
def ToolDelta.arguments (d : ToolDelta) : String := (d.function.bind (·.arguments)).getD ""

/-- The deltas spell the call: its id and name come with the first one, its arguments in pieces. -/
def Spells (call : EmittedCall) (ds : List ToolDelta) : Prop :=
  ∃ first rest, ds = first :: rest ∧ first.id = some call.id ∧ first.name = some call.name ∧
    (∀ d ∈ rest, nonEmpty d.id = none ∧ nonEmpty d.name = none) ∧
    String.join (ds.map ToolDelta.arguments) = call.arguments

/-- Chunks that spell a text and the calls of a history, each call at an index of its own. The pieces of
different indices are mixed in any way. -/
structure Chunking (json : JsonModule) (indexed : List (Int × ToolCall)) (text : Option String)
    (chunks : List Chunk) : Prop where
  text : String.join (chunks.map Chunk.text) = text.getD ""
  known : ∀ d ∈ chunks.flatMap Chunk.toolDeltas, d.place ∈ indexed.map Prod.fst
  spelled : ∀ ic ∈ indexed, Spells (emitCall json ic.2)
    ((chunks.flatMap Chunk.toolDeltas).filter fun d => d.place = ic.1)

/-- The call is one that the constructor has built, with an id, and `json` reads its arguments back from
a text, which is not empty. -/
structure Restorable (json : JsonModule) (call : ToolCall) : Prop where
  id_ne : call.callId ≠ ""
  built : ∃ arguments, call = ToolCall.of call.callId call.name arguments
  loads_dumps : json.loads (json.dumps (jsonObject call.arguments)) = .ok (jsonObject call.arguments)
  dumps_ne : json.dumps (jsonObject call.arguments) ≠ ""

/-! ## Texts -/

theorem nonEmpty_getD (text : Option String) : (nonEmpty text).getD "" = text.getD "" := by
  cases text with
  | none => rfl
  | some text =>
    change (if text = "" then none else some text).getD "" = text
    split
    · rename_i hempty
      exact hempty.symm
    · rfl

/-- The text that a chunk adds, unless it is empty. -/
def Chunk.piece (chunk : Chunk) : Option String := chunk.firstChoice.bind Choice.content

theorem Chunk.piece_getD (chunk : Chunk) : chunk.piece.getD "" = chunk.text := by
  unfold Chunk.piece Chunk.text
  cases chunk.firstChoice with
  | none => rfl
  | some choice => exact nonEmpty_getD _

/-- The pieces that are left out are empty. -/
theorem join_pieces (chunks : List Chunk) :
    String.join (chunks.filterMap Chunk.piece) = String.join (chunks.map Chunk.text) := by
  induction chunks with
  | nil => rfl
  | cons chunk chunks ih =>
    have hpiece := chunk.piece_getD
    rw [List.map_cons, String.join_cons, ← ih]
    cases h : chunk.piece with
    | none =>
      rw [h] at hpiece
      rw [List.filterMap_cons_none h, ← hpiece]
      exact String.empty_append.symm
    | some text =>
      rw [h] at hpiece
      rw [List.filterMap_cons_some h, String.join_cons, ← hpiece]
      rfl

/-! ## Fragments -/

/-- The fragment at an index absorbs the deltas of this index, and no others. -/
theorem foldl_absorbDelta (index : Int) (ds : List ToolDelta) : ∀ tools : FragmentTable,
    (ds.foldl absorbDelta tools).lookup index =
      if (ds.filter fun d => d.place = index) = [] then tools.lookup index
      else some ((ds.filter fun d => d.place = index).foldl ToolFragment.absorb (fragmentAt tools index)) := by
  induction ds with
  | nil => exact fun tools => (if_pos rfl).symm
  | cons d ds ih =>
    intro tools
    rw [List.foldl_cons, ih]
    by_cases hd : d.place = index
    · subst hd
      have hlookup : (absorbDelta tools d).lookup d.place =
          some ((fragmentAt tools d.place).absorb d) := AList.lookup_insert _
      rw [List.filter_cons_of_pos (by exact decide_eq_true rfl), if_neg (List.cons_ne_nil _ _),
        List.foldl_cons, hlookup, fragmentAt_eq hlookup]
      split
      · rename_i hnil
        rw [hnil]
        rfl
      · rfl
    · have hlookup : (absorbDelta tools d).lookup index = tools.lookup index :=
        AList.lookup_insert_ne (Ne.symm hd)
      rw [List.filter_cons_of_neg (by simpa using hd), hlookup]
      unfold fragmentAt
      rw [hlookup]

theorem mem_keys_absorbed {index : Int} (ds : List ToolDelta) :
    (∃ item, (ds.foldl absorbDelta ∅).lookup index = some item) ↔ ∃ d ∈ ds, d.place = index := by
  rw [foldl_absorbDelta]
  split
  · rename_i hnil
    constructor
    · rintro ⟨item, h⟩
      cases h
    · rintro ⟨d, hd, hplace⟩
      have hmem : d ∈ ds.filter fun d => d.place = index :=
        List.mem_filter.mpr ⟨hd, decide_eq_true hplace⟩
      rw [hnil] at hmem
      cases hmem
  · rename_i hcons
    refine iff_of_true ⟨_, rfl⟩ ?_
    obtain ⟨d, hd⟩ := List.exists_mem_of_ne_nil _ hcons
    obtain ⟨hd, hplace⟩ := List.mem_filter.mp hd
    exact ⟨d, hd, of_decide_eq_true hplace⟩

/-- Behind the first delta only the arguments grow. -/
theorem foldl_absorb_rest {rest : List ToolDelta}
    (h : ∀ d ∈ rest, nonEmpty d.id = none ∧ nonEmpty d.name = none) : ∀ item : ToolFragment,
    rest.foldl ToolFragment.absorb item =
      { item with arguments := item.arguments ++ String.join (rest.map ToolDelta.arguments) } := by
  induction rest with
  | nil => exact fun item => by rw [List.map_nil, String.join_nil, String.append_empty]; rfl
  | cons d rest ih =>
    intro item
    obtain ⟨hid, hname⟩ := h d List.mem_cons_self
    have hstep : item.absorb d = { item with arguments := item.arguments ++ d.arguments } := by
      unfold ToolFragment.absorb
      rw [hid, nonEmpty_getD]
      change ToolFragment.mk item.callId ((nonEmpty d.name).getD item.name) _ = _
      rw [hname]
      rfl
    rw [List.foldl_cons, hstep, ih fun d' hd' => h d' (List.mem_cons_of_mem _ hd'), List.map_cons,
      String.join_cons, String.append_assoc]

/-- The fragment of deltas that spell a call. -/
theorem foldl_absorb_spells {call : EmittedCall} {ds : List ToolDelta} (h : Spells call ds) :
    ds.foldl ToolFragment.absorb {} = ⟨call.id, call.name, call.arguments⟩ := by
  obtain ⟨first, rest, rfl, hid, hname, hrest, harguments⟩ := h
  have hfirst : ({} : ToolFragment).absorb first = ⟨call.id, call.name, first.arguments⟩ := by
    unfold ToolFragment.absorb
    rw [hid, String.empty_append]
    change ToolFragment.mk ((nonEmpty (some call.id)).getD "") ((nonEmpty first.name).getD "") _ = _
    rw [hname, nonEmpty_getD, nonEmpty_getD, nonEmpty_getD]
    rfl
  rw [List.foldl_cons, hfirst, foldl_absorb_rest hrest, ← harguments, List.map_cons, String.join_cons]

/-! ## Calls -/

section Calls

variable {json : JsonModule} {indexed : List (Int × ToolCall)} {text : Option String}
  {chunks : List Chunk}

/-- The fragments that the chunks leave. -/
def fragmentsOf (chunks : List Chunk) : FragmentTable :=
  (chunks.flatMap Chunk.toolDeltas).foldl absorbDelta ∅

theorem Chunking.mem_indices (h : Chunking json indexed text chunks) {index : Int} :
    index ∈ sortedIndices (fragmentsOf chunks) ↔ index ∈ indexed.map Prod.fst := by
  rw [mem_sortedIndices]
  unfold fragmentsOf
  rw [mem_keys_absorbed]
  constructor
  · rintro ⟨d, hd, rfl⟩
    exact h.known d hd
  · intro hindex
    obtain ⟨ic, hic, rfl⟩ := List.mem_map.mp hindex
    obtain ⟨first, rest, hspelled, -⟩ := h.spelled ic hic
    have hfirst : first ∈ (chunks.flatMap Chunk.toolDeltas).filter fun d => d.place = ic.1 := by
      rw [hspelled]
      exact List.mem_cons_self
    obtain ⟨hfirst, hplace⟩ := List.mem_filter.mp hfirst
    exact ⟨first, hfirst, of_decide_eq_true hplace⟩

/-- The fragments are read in the order of the indices. -/
theorem Chunking.sortedIndices_eq (h : Chunking json indexed text chunks)
    (hsorted : (indexed.map Prod.fst).Pairwise (· < ·)) :
    sortedIndices (fragmentsOf chunks) = indexed.map Prod.fst := by
  have hperm : (sortedIndices (fragmentsOf chunks)).Perm (indexed.map Prod.fst) :=
    (List.perm_ext_iff_of_nodup (sortedIndices_nodup _) (hsorted.imp fun h => Int.ne_of_lt h)).mpr
      fun index => h.mem_indices
  have hmerged : (sortedIndices (fragmentsOf chunks)).Pairwise (fun i j => decide (i ≤ j) = true) := by
    apply List.pairwise_mergeSort
    · intro a b c hab hbc
      exact decide_eq_true (Int.le_trans (of_decide_eq_true hab) (of_decide_eq_true hbc))
    · intro a b
      simp only [Bool.or_eq_true, decide_eq_true_eq]
      exact Int.le_total a b
  have hle : (sortedIndices (fragmentsOf chunks)).Pairwise (· ≤ ·) := hmerged.imp of_decide_eq_true
  exact hperm.eq_of_pairwise (fun a b _ _ hab hba => Int.le_antisymm hab hba) hle
    (hsorted.imp Int.le_of_lt)

/-- The fragment at the index of a call. -/
theorem Chunking.fragmentAt_eq (h : Chunking json indexed text chunks) {ic : Int × ToolCall}
    (hic : ic ∈ indexed) : fragmentAt (fragmentsOf chunks) ic.1 =
      ⟨ic.2.callId, ic.2.name, json.dumps (jsonObject ic.2.arguments)⟩ := by
  have hspelled := h.spelled ic hic
  have hcons : (chunks.flatMap Chunk.toolDeltas).filter (fun d => d.place = ic.1) ≠ [] := by
    obtain ⟨first, rest, hds, -⟩ := hspelled
    rw [hds]
    exact List.cons_ne_nil _ _
  apply OpenaiAdapter.fragmentAt_eq
  unfold fragmentsOf
  rw [foldl_absorbDelta, if_neg hcons]
  exact congrArg some (foldl_absorb_spells hspelled)

/-- A fragment with the id, the name and the arguments of a call is read as this call. -/
theorem Restorable.assembleCall {call : ToolCall} (h : Restorable json call) (index : Int) :
    assembleCall json index ⟨call.callId, call.name, json.dumps (jsonObject call.arguments)⟩ = .ok call := by
  obtain ⟨arguments, hbuilt⟩ := h.built
  have hfrozen : freezeMapping (thawFields call.arguments) = call.arguments := by
    rw [hbuilt]
    unfold ToolCall.of freezeMapping
    rw [freezeFields_thawFields, freezeFields_freezeFields]
  have hraw : ToolFragment.rawArguments
      ⟨call.callId, call.name, json.dumps (jsonObject call.arguments)⟩ =
        json.dumps (jsonObject call.arguments) := if_neg h.dumps_ne
  unfold OpenaiAdapter.assembleCall
  rw [hraw, h.loads_dumps]
  unfold jsonObject ToolFragment.idAt
  simp only [if_neg h.id_ne, hfrozen]

theorem assembleCalls_of {fragments : FragmentTable} (hread : ∀ ic ∈ indexed,
    assembleCall json ic.1 (fragmentAt fragments ic.1) = .ok ic.2) :
    assembleCalls json fragments (indexed.map Prod.fst) = .ok (indexed.map Prod.snd) := by
  induction indexed with
  | nil => rfl
  | cons ic indexed ih =>
    have hcall := hread ic List.mem_cons_self
    unfold fragmentAt at hcall
    rw [List.map_cons, assembleCalls, hcall, ih fun ic' hic' => hread ic' (List.mem_cons_of_mem _ hic')]
    rfl

/-- The calls of the fragments are the original ones, in the order of their indices. -/
theorem assembleToolCalls_chunking (h : Chunking json indexed text chunks)
    (hsorted : (indexed.map Prod.fst).Pairwise (· < ·))
    (hcalls : ∀ ic ∈ indexed, Restorable json ic.2) :
    assembleToolCalls json (fragmentsOf chunks) = .ok (indexed.map Prod.snd) := by
  unfold assembleToolCalls
  rw [h.sortedIndices_eq hsorted]
  apply assembleCalls_of
  intro ic hic
  rw [h.fragmentAt_eq hic]
  exact (hcalls ic hic).assembleCall ic.1

end Calls

/-! ## The stream -/

/-- The locals behind a chunk. -/
def nextNormalizer (acc : Normalizer) (chunk : Chunk) : Normalizer :=
  let acc := { acc with usage := usageFromChunk chunk acc.usage }
  match chunk.firstChoice with
  | none => acc
  | some choice => { acc with textParts := acc.textParts ++ choice.content.toList }.absorb choice

def textEvent (identity : StepIdentity) (text : String) : ModelStepEvent :=
  .textDelta identity text 1 none

theorem foldl_nextNormalizer (chunks : List Chunk) : ∀ acc : Normalizer,
    (chunks.foldl nextNormalizer acc).textParts = acc.textParts ++ chunks.filterMap Chunk.piece ∧
      (chunks.foldl nextNormalizer acc).tools =
        (chunks.flatMap Chunk.toolDeltas).foldl absorbDelta acc.tools := by
  induction chunks with
  | nil => exact fun acc => ⟨(List.append_nil _).symm, rfl⟩
  | cons chunk chunks ih =>
    intro acc
    obtain ⟨hparts, htools⟩ := ih (nextNormalizer acc chunk)
    have hnext : (nextNormalizer acc chunk).textParts = acc.textParts ++ chunk.piece.toList ∧
        (nextNormalizer acc chunk).tools = chunk.toolDeltas.foldl absorbDelta acc.tools := by
      unfold nextNormalizer Chunk.piece Chunk.toolDeltas
      cases chunk.firstChoice with
      | none => exact ⟨(List.append_nil _).symm, rfl⟩
      | some choice => exact ⟨rfl, rfl⟩
    rw [List.foldl_cons, hparts, htools, hnext.1, hnext.2, List.flatMap_cons, List.foldl_append,
      List.append_assoc]
    refine ⟨congrArg _ ?_, rfl⟩
    cases hpiece : chunk.piece with
    | none => rw [List.filterMap_cons_none hpiece]; rfl
    | some text => rw [List.filterMap_cons_some hpiece]; rfl

section Stream

variable {may : (q : Query) → Except Exc (Answer q) → Prop} {identity : StepIdentity}

/-- The events of a chunk. -/
def chunkEvents (identity : StepIdentity) (_ : Normalizer) (chunk : Chunk) : List ModelStepEvent :=
  (chunk.piece.map (textEvent identity)).toList

theorem ends_normalizeChunk {pull : World → World → Prop} {acc : Normalizer} {chunk : Chunk} {w w' : World}
    {zs : List ModelStepEvent} {o : Except Exc Normalizer} :
    Node.Ends may pull (normalizeChunk identity acc chunk w) zs o w' ↔
      zs = chunkEvents identity acc chunk ∧ o = .ok (nextNormalizer acc chunk) ∧
        match chunk.piece with
        | none => w' = w
        | some _ => pull w w' := by
  unfold normalizeChunk nextNormalizer chunkEvents Chunk.piece
  cases chunk.firstChoice with
  | none => exact Node.ends_done
  | some choice =>
    simp only [Option.bind_some]
    cases hcontent : choice.content with
    | none =>
      simp only [Option.toList_none, List.append_nil]
      exact Node.ends_done
    | some text =>
      refine Node.ends_yield.trans ⟨?_, ?_⟩
      · rintro ⟨ys', w₁, rfl, hp, h⟩
        obtain ⟨rfl, rfl, rfl⟩ := Node.ends_done.mp h
        exact ⟨rfl, rfl, hp⟩
      · rintro ⟨rfl, rfl, hp⟩
        exact ⟨[], w', rfl, hp, .done _ w'⟩

theorem emitAll_chunkEvents (chunks : List Chunk) : ∀ acc : Normalizer,
    Node.emitAll (chunkEvents identity) nextNormalizer acc chunks =
      (chunks.filterMap Chunk.piece).map (textEvent identity) := by
  induction chunks with
  | nil => exact fun _ => rfl
  | cons chunk chunks ih =>
    intro acc
    rw [Node.emitAll, ih]
    unfold chunkEvents
    cases hpiece : chunk.piece with
    | none => rw [List.filterMap_cons_none hpiece]; rfl
    | some text => rw [List.filterMap_cons_some hpiece]; rfl

/-- A run of the adapter over chunks that a run of their generator delivers. -/
theorem ends_normalize {json : JsonModule} {chunks : Gen Chunk Unit} {w w' : World}
    {zs : List ModelStepEvent} {o : Except Exc Unit}
    (h : Node.Ends may anyState (normalizeChatCompletionStream json identity chunks w) zs o w') :
    ∃ ys r w₁ tail, Node.Ends may anyState (chunks w) ys r w₁ ∧
      zs = (ys.filterMap Chunk.piece).map (textEvent identity) ++ tail ∧
        match r with
        | .ok _ => Node.Ends may anyState (finishStream json identity (ys.foldl nextNormalizer {}) w₁) tail o w'
        | .error e => tail = [] ∧ o = .error e := by
  have hpass : Node.EachPass may anyState anyState
      (fun acc chunk => ((normalizeChunk identity acc chunk >>= fun acc => pure (Sum.inl acc)) :
        Gen ModelStepEvent (Normalizer ⊕ Unit))) (chunkEvents identity) nextNormalizer := by
    intro acc chunk w zs r w' h
    obtain ⟨us, ws, r', w₁, rfl, hchunk, hrest⟩ := Proc.ends_bind.mp h
    obtain ⟨rfl, rfl, -⟩ := ends_normalizeChunk.mp hchunk
    obtain ⟨rfl, rfl, -⟩ := Node.ends_done.mp hrest
    exact ⟨List.append_nil _, rfl, trivial⟩
  obtain ⟨ys, r, w₁, tail, hn, rfl, hrest⟩ := Node.ends_forEach hpass _ h
  rw [emitAll_chunkEvents]
  refine ⟨ys, r, w₁, tail, hn, rfl, ?_⟩
  cases r with
  | ok u => exact hrest
  | error e => exact hrest

/-- Chunks that can be drained give a run of the adapter. -/
theorem normalize_ends {json : JsonModule} {chunks : Gen Chunk Unit} {w w₁ : World} {ys : List Chunk}
    (hn : Node.Ends may Eq (chunks w) ys (.ok ()) w₁) {tail : List ModelStepEvent} {o : Except Exc Unit}
    {w' : World}
    (h : Node.Ends may anyState (finishStream json identity (ys.foldl nextNormalizer {}) w₁) tail o w') :
    Node.Ends may anyState (normalizeChatCompletionStream json identity chunks w)
      ((ys.filterMap Chunk.piece).map (textEvent identity) ++ tail) o w' := by
  rw [← emitAll_chunkEvents ys {}]
  refine Node.ends_forEach_of (fun acc chunk w => ?_) hn h
  refine Proc.ends_bind.mpr ⟨_, [], _, w, (List.append_nil _).symm,
    ends_normalizeChunk.mpr ⟨rfl, rfl, ?_⟩, .done _ w⟩
  cases chunk.piece with
  | none => rfl
  | some text => exact trivial

/-- What the adapter publishes of a history: its text, in pieces, and one result with the text and the
calls, if any of them says something. -/
def Restored (identity : StepIdentity) (indexed : List (Int × ToolCall)) (text : Option String)
    (zs : List ModelStepEvent) : Prop :=
  ∃ texts result, String.join texts = text.getD "" ∧
    result.text = text ∧ result.toolCalls = indexed.map Prod.snd ∧
    zs = texts.map (textEvent identity) ++
      if text.any hasVisible || !indexed.isEmpty then [.completed identity result none] else []

section Restored

variable {json : JsonModule} {indexed : List (Int × ToolCall)} {text : Option String}
  {chunks : List Chunk}

/-- The result of the locals behind a chunking. -/
theorem Chunking.result (h : Chunking json indexed text chunks)
    (hsorted : (indexed.map Prod.fst).Pairwise (· < ·))
    (hcalls : ∀ ic ∈ indexed, Restorable json ic.2) (htext : text ≠ some "") :
    ∃ result, (chunks.foldl nextNormalizer {}).result json = .ok result ∧
      result.text = text ∧ result.toolCalls = indexed.map Prod.snd := by
  obtain ⟨hparts, htools⟩ := foldl_nextNormalizer chunks {}
  have hjoin : (chunks.foldl nextNormalizer {}).text = text := by
    unfold Normalizer.text
    rw [hparts, List.nil_append, join_pieces, h.text]
    cases text with
    | none => rfl
    | some text => exact if_neg fun hempty => htext (congrArg some hempty)
  have hassembled : assembleToolCalls json (chunks.foldl nextNormalizer {}).tools =
      .ok (indexed.map Prod.snd) := by
    rw [htools]
    exact assembleToolCalls_chunking h hsorted hcalls
  generalize chunks.foldl nextNormalizer {} = acc at hjoin hassembled ⊢
  refine ⟨{ text := acc.text, toolCalls := indexed.map Prod.snd, usage := acc.usage,
            finishReason := acc.finishReason }, ?_, hjoin, rfl⟩
  unfold Normalizer.result
  rw [hassembled]
  rfl

theorem isEffective_iff {result : ModelResult} (htext : result.text = text)
    (hcalls : result.toolCalls = indexed.map Prod.snd) :
    result.isEffective = (text.any hasVisible || !indexed.isEmpty) := by
  unfold ModelResult.isEffective
  rw [htext, hcalls, List.isEmpty_map]
  cases text with
  | none => rfl
  | some text => rfl

/-- The end of the stream behind a chunking. -/
theorem Chunking.ends_finishStream (h : Chunking json indexed text chunks)
    (hsorted : (indexed.map Prod.fst).Pairwise (· < ·))
    (hcalls : ∀ ic ∈ indexed, Restorable json ic.2) (htext : text ≠ some "") (w : World) :
    ∃ result, result.text = text ∧ result.toolCalls = indexed.map Prod.snd ∧
      (∀ {zs o w'}, Node.Ends may anyState
        (finishStream json identity (chunks.foldl nextNormalizer {}) w) zs o w' → o = .ok () ∧
          zs = if text.any hasVisible || !indexed.isEmpty then [.completed identity result none] else []) ∧
      ∃ zs w', Node.Ends may anyState
        (finishStream json identity (chunks.foldl nextNormalizer {}) w) zs (.ok ()) w' := by
  obtain ⟨result, hresult, hresultText, hresultCalls⟩ := h.result hsorted hcalls htext
  refine ⟨result, hresultText, hresultCalls, ?_⟩
  unfold finishStream
  rw [hresult]
  simp only [isEffective_iff hresultText hresultCalls]
  split
  · constructor
    · intro zs o w' h
      obtain ⟨ys, w₁, rfl, -, h⟩ := Node.ends_yield.mp h
      obtain ⟨rfl, rfl, -⟩ := Node.ends_done.mp h
      exact ⟨rfl, rfl⟩
    · exact ⟨[.completed identity result none], w, .yield w trivial (.done () w)⟩
  · constructor
    · intro zs o w' h
      obtain ⟨rfl, rfl, -⟩ := Node.ends_done.mp h
      exact ⟨rfl, rfl⟩
    · exact ⟨[], w, .done () w⟩

/-- **Round trip.** A provider streams back a text and calls as a request emits them, cut and mixed in any
way. The adapter publishes the text in pieces and, if there is something visible or a call, one result, last,
with the same text and the same calls in the order of their indices. -/
theorem normalizeChatCompletionStream_restores (hsorted : (indexed.map Prod.fst).Pairwise (· < ·))
    (hcalls : ∀ ic ∈ indexed, Restorable json ic.2) (htext : text ≠ some "") (identity : StepIdentity)
    (chunks : Gen Chunk Unit) (w : World)
    (hchunks : ∀ ys r w', Node.Ends may anyState (chunks w) ys r w' →
      r = .ok () ∧ Chunking json indexed text ys) :
    (∀ zs o w',
      Node.Ends may anyState (normalizeChatCompletionStream json identity chunks w) zs o w' →
        o = .ok () ∧ Restored identity indexed text zs) ∧
    ((∃ ys w', Node.Ends may Eq (chunks w) ys (.ok ()) w') → ∃ zs w',
      Node.Ends may anyState (normalizeChatCompletionStream json identity chunks w) zs (.ok ()) w') := by
  constructor
  · intro zs o w' h
    obtain ⟨ys, r, w₁, tail, hn, rfl, hrest⟩ := ends_normalize h
    obtain ⟨rfl, hchunking⟩ := hchunks ys r w₁ hn
    obtain ⟨result, hresultText, hresultCalls, hends, -⟩ :=
      hchunking.ends_finishStream hsorted hcalls htext w₁
    obtain ⟨rfl, rfl⟩ := hends hrest
    refine ⟨rfl, ys.filterMap Chunk.piece, result, ?_, hresultText, hresultCalls, rfl⟩
    rw [join_pieces, hchunking.text]
  · rintro ⟨ys, w₁, hn⟩
    obtain ⟨-, hchunking⟩ := hchunks ys _ w₁ (hn.mono fun _ _ _ => trivial)
    obtain ⟨result, -, -, -, tail, w', hfinish⟩ := hchunking.ends_finishStream hsorted hcalls htext w₁
    exact ⟨_, w', normalize_ends hn hfinish⟩

end Restored

end Stream

/-! ## Two chunks -/

/-- A generator of chunks that are there already. -/
def deliver : List Chunk → Gen Chunk Unit
  | [] => pure ()
  | chunk :: chunks => do
    Proc.yield .generatorExit chunk
    deliver chunks

theorem ends_deliver {may : (q : Query) → Except Exc (Answer q) → Prop} {pull : World → World → Prop}
    (chunks : List Chunk) : ∀ {ys : List Chunk} {r : Except Exc Unit} {w w' : World},
    Node.Ends may pull (deliver chunks w) ys r w' → ys = chunks ∧ r = .ok () := by
  induction chunks with
  | nil =>
    intro ys r w w' h
    obtain ⟨rfl, rfl, -⟩ := Node.ends_done.mp h
    exact ⟨rfl, rfl⟩
  | cons chunk chunks ih =>
    intro ys r w w' h
    obtain ⟨ys', w₁, rfl, -, h⟩ := Node.ends_yield.mp h
    obtain ⟨rfl, rfl⟩ := ih h
    exact ⟨rfl, rfl⟩

/-- A text and a call, in two pieces each. -/
def twoChunks : List Chunk :=
  [⟨[⟨some ⟨some "Look", some [⟨some 0, some "c1", some ⟨some "search", some "\x7b"⟩⟩]⟩, none⟩], none⟩,
    ⟨[⟨some ⟨some "ing", some [⟨some 0, none, some ⟨none, some "\x7d"⟩⟩]⟩, some "tool_calls"⟩], none⟩]

theorem twoChunks_restored :
    let identity : StepIdentity := ⟨"r", 0, 0⟩
    let w : World := { runId := "r", recordTarget := ⟨"t"⟩ }
    ∀ zs o w', Node.Ends (fun _ _ => False) anyState
      (normalizeChatCompletionStream emptyObjects identity (deliver twoChunks) w) zs o w' →
        o = .ok () ∧ Restored identity [(0, ⟨"c1", "search", []⟩)] (some "Looking") zs := by
  have hcall : Restorable emptyObjects ⟨"c1", "search", []⟩ :=
    ⟨by decide, ⟨[], rfl⟩, rfl, by decide⟩
  have hchunking : Chunking emptyObjects [(0, ⟨"c1", "search", []⟩)] (some "Looking") twoChunks := by
    refine ⟨by decide, ?_, ?_⟩
    · intro d hd
      have hplace : ∀ d ∈ twoChunks.flatMap Chunk.toolDeltas, d.place = 0 := by
        intro d hd
        rcases List.mem_cons.mp hd with rfl | hd
        · rfl
        · rcases List.mem_cons.mp hd with rfl | hd
          · rfl
          · cases hd
      rw [hplace d hd]
      exact List.mem_cons_self
    · intro ic hic
      obtain rfl := List.mem_singleton.mp hic
      exact ⟨_, _, rfl, rfl, rfl, fun d hd => by
        obtain rfl := List.mem_singleton.mp hd
        exact ⟨rfl, rfl⟩, by decide⟩
  exact (normalizeChatCompletionStream_restores (List.pairwise_singleton _ _)
    (fun ic hic => by
      obtain rfl := List.mem_singleton.mp hic
      exact hcall) (by decide) ⟨"r", 0, 0⟩ (deliver twoChunks) _ fun ys r w' h => by
        obtain ⟨rfl, rfl⟩ := ends_deliver twoChunks h
        exact ⟨rfl, hchunking⟩).1

end AgentRuntime.OpenaiAdapter
