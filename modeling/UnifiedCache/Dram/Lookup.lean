import UnifiedCache.Dram.NodeActor
import UnifiedCache.Dram.ReplyService
import UnifiedCache.Dram.TaskAccounting
import UnifiedCache.DramPool.Types
import UnifiedCache.Lib.Scatter

/-! A lookup, from the blocks asked for to the vector that `WaitLookup` returns.
Positions change four times on the way: by the routing, by the batches, by the
place of a bit in a reply, and back to the positions of the task. -/
namespace UnifiedCache.Dram
open List TaskBooks
open TaskManager DramPool Scatter

namespace TaskBooks
variable {cfg : TaskManagerConfig} {routing : Routing}

variable {request : Request}

theorem mem_requestsOf {submission : Submission} {first : RequestId}
    (h : request ∈ requestsOf cfg routing submission first) :
    ∃ p ∈ placements cfg routing (normalizeInput cfg submission.input),
      request.nodeId = p.1 ∧ request.op = submission.op ∧
      request.entries = p.2.filterMap ((normalizeInput cfg submission.input)[·]?) := by
  unfold requestsOf numberRequests at h
  rw [buildRequests_eq] at h
  obtain ⟨i, hd, rfl⟩ := mem_mapIdx.1 h
  rw [length_map] at hd
  refine ⟨_, getElem_mem hd, ?_, ?_, ?_⟩ <;> simp

variable (cfg routing) in
theorem entries_requestsOf (submission : Submission) (first : RequestId) :
    ((requestsOf cfg routing submission first).flatMap Request.entries).Perm
    (normalizeInput cfg submission.input) := by
  have hs : (requestsOf cfg routing submission first).map Request.entries =
      (buildRequests cfg routing submission.op (normalizeInput cfg submission.input)
        submission.deadline).map Request.entries := by
    apply ext_getElem <;> simp [requestsOf, numberRequests]
  rw [flatMap_def, hs, ← flatMap_def]
  exact entries_buildRequests cfg routing _ _ _

@[simp] theorem originalIndex_normalizeLookup (blocks : List BlockId) :
    (normalizeLookup blocks).map IoEntry.originalIndex = List.range blocks.length := by
  apply ext_getElem <;> simp [normalizeLookup]

@[simp] theorem keys_normalizeLookup (blocks : List BlockId) : (normalizeLookup blocks).map
    (fun e => e.blockId.toList) = blocks.map fun b => b.toList := by
  apply ext_getElem <;> simp [normalizeLookup]

theorem mem_normalizeLookup {blocks : List BlockId} {i : Nat} {b : BlockId}
    (h : blocks[i]? = some b) :
    ({ blockId := b, originalIndex := i } : IoEntry) ∈ normalizeLookup blocks := by
  obtain ⟨hd, rfl⟩ := List.getElem?_eq_some_iff.1 h
  exact mem_mapIdx.2 ⟨i, hd, rfl⟩

theorem lookupResults_aggregate {task : ActiveTask} {outcomes : List (Status × List EntryResult)}
    (lookup : task.op = .lookup) (unfailed : task.failure = none)
    (succeeded : ∀ outcome ∈ outcomes, outcome.1.success = true) :
    (aggregate task outcomes).lookupResults =
      scatter task.lookupResults (outcomes.flatMap fun outcome =>
        outcome.2.map fun r => (r.originalIndex, if r.found then 1 else 0)) := by
  induction outcomes generalizing task with
  | nil => rfl
  | cons outcome outcomes ih =>
    have hf : settleRequest outcome.1 outcome.2 task =
        { task with
          remainingRequests := SizeT.sub task.remainingRequests 1
          lookupResults := applyLookupResults task.lookupResults outcome.2 } := by
      have := succeeded outcome (by simp)
      simp [settleRequest, Status.failure, this, unfailed, lookup]
    have hs : aggregate task (outcome :: outcomes) =
        aggregate (settleRequest outcome.1 outcome.2 task) outcomes := rfl
    have hw : applyLookupResults task.lookupResults outcome.2 =
        scatter task.lookupResults (outcome.2.map fun r =>
          (r.originalIndex, if r.found then 1 else 0)) := by
      rw [applyLookupResults, scatter, foldl_map]
    rw [flatMap_cons, scatter_append, ← hw, hs, hf]
    apply ih
    · exact lookup
    · exact unfailed
    · intro o ho
      exact succeeded o (mem_cons_of_mem _ ho)

def completions (taskId : TaskId) (history : List TaskObservation) :
    List (Request × Status × List EntryResult) :=
  history.reverse.filterMap fun
    | .completed request status results =>
      if request.taskId = taskId then some (request, status, results) else none
    | _ => none

theorem outcomes_eq_map (taskId : TaskId) (history : List TaskObservation) :
    outcomes taskId history = (completions taskId history).map Prod.snd := by
  unfold outcomes completions
  rw [map_filterMap]
  apply filterMap_congr
  intro o _
  cases o with
  | completed request => by_cases h : request.taskId = taskId <;> simp [h]
  | _ => rfl

@[simp] theorem requests_completions (taskId : TaskId) (history : List TaskObservation) :
    (completions taskId history).map Prod.fst = (ofTask taskId (completed history)).reverse := by
  unfold completions ofTask completed
  rw [map_filterMap, filterMap_reverse, ← filterMap_eq_filter, filterMap_filterMap]
  congr 1
  apply filterMap_congr
  intro o _
  cases o with
  | completed request =>
    by_cases h : request.taskId = taskId <;> simp [h, Option.guard]
  | _ => rfl

theorem mem_completions {taskId : TaskId} {history : List TaskObservation} {status : Status}
    {r : List EntryResult} (h : (request, status, r) ∈ completions taskId history) :
    .completed request status r ∈ history := by
  obtain ⟨o, ho, hs⟩ := mem_filterMap.1 h
  cases o with
  | completed =>
    dsimp only at hs
    split at hs
    · cases hs
      exact mem_reverse.1 ho
    · cases hs
  | _ => cases hs

end TaskBooks

/-- A lookup that succeeds brings what its node found for each entry, in the order
of the entries: packed into the reply slot, decoded there and renumbered. -/
def answeredBy (verdicts : Request → List LookupResult) (request : Request)
    (event : RequestCompleted) : Prop :=
  request.op = .lookup → event.status.success = true →
    (verdicts request).length = request.entries.length ∧
    ∃ (node : NodeActor.Config) (slot bytes : List UInt8) (decoded : List EntryResult),
      getPackedResponseSize .lookup request.entries.length ≤ slot.length ∧
      packResponse (some slot) .lookup
        { request_id := request.requestId
          results := (verdicts request).map LookupResult.toByte } = .ok bytes ∧
      decodeReply (some bytes) .lookup request.requestId request.entries.length = .ok decoded ∧
      event = NodeActor.completionOf node request event.status decoded

def writesOf (verdicts : Request → List LookupResult) (request : Request) : List (Nat × UInt8) :=
  (request.entries.zip (verdicts request)).map fun answer =>
    (answer.1.originalIndex, answer.2.toByte)

@[simp] theorem bit_toByte (r : LookupResult) : (if r.toByte = 0 then 0 else 1) = r.toByte := by
  cases r <;> rfl

theorem decodeReply_count {data : Option (List UInt8)} {op : OpType} {requestId : RequestId}
    {entryCount : Nat} {decoded : List EntryResult} (h : decodeReply data op requestId entryCount =
    .ok decoded) : entryCount ≤ kMaxProtocolBatchEntries := by
  by_contra hm
  rw [decodeReply, if_pos (Nat.lt_of_not_le hm)] at h
  cases h

variable {verdicts : Request → List LookupResult} {request : Request}

theorem writes_answeredBy {e : RequestCompleted} (h : answeredBy verdicts request e)
    (lookup : request.op = .lookup) (succeeded : e.status.success = true) :
    (e.entryResults.map fun r =>
      (r.originalIndex, if r.found then 1 else 0)) = writesOf verdicts request := by
  obtain ⟨hl, node, slot, bytes, decoded, room, hp, hd, he⟩ :=
    h lookup succeeded
  have hc := decodeReply_count hd
  rw [← hl, ← length_map LookupResult.toByte] at room hd hc
  rw [decodeReply_packResponse room hc hp] at hd
  cases hd
  rw [he]
  apply ext_getElem
  · simp [NodeActor.completionOf, NodeActor.restoreIndexes, writesOf, hl]
  intro i hi _
  have hn : i < request.entries.length := by
    simpa [NodeActor.completionOf, NodeActor.restoreIndexes, hl] using hi
  simp [NodeActor.completionOf, NodeActor.restoreIndexes, writesOf, hn]

theorem indexes_writesOf (h : (verdicts request).length = request.entries.length) :
    (writesOf verdicts request).map Prod.fst = request.entries.map IoEntry.originalIndex := by
  apply ext_getElem <;> simp [writesOf, h]

theorem mem_writesOf {pos : Nat} {e : IoEntry} {v : LookupResult}
    (he : request.entries[pos]? = some e) (hv : (verdicts request)[pos]? = some v) :
    (e.originalIndex, v.toByte) ∈ writesOf verdicts request := by
  refine mem_map.2 ⟨(e, v), ?_, rfl⟩
  apply mem_of_getElem? (i := pos)
  exact List.getElem?_zip_eq_some.2 ⟨he, hv⟩

namespace Service
variable {cfg : TaskManagerConfig} {routing : Routing}
  {answers : Request → RequestCompleted → Prop} {s t : Service}

def Told (answers : Request → RequestCompleted → Prop) (history : List TaskObservation) : Prop :=
  ∀ ⦃request status results⦄, .completed request status results ∈ history → status.success = true →
      ∃ event, answers request event ∧ event.status = status ∧ event.entryResults = results

theorem Told.cons {history : List TaskObservation} {entry : TaskObservation}
    (h : Told answers history)
    (silent : ∀ request st r, entry ≠ .completed request st r) : Told answers (entry :: history)
    := by
  intro request st r hm
  exact h ((mem_cons.1 hm).resolve_left (Ne.symm (silent _ _ _)))

theorem told_complete (h : Told answers s.history) {taskId : TaskId} {status : Status}
    {results : List EntryResult}
    (told : status.success = true → ∃ e, answers req e ∧ e.status = status ∧ e.entryResults =
    results) : Told answers (s.complete req taskId status results).history := by
  have hc : Told answers (.completed req status results :: s.history) := by
    intro o st r hm ho
    rcases mem_cons.1 hm with he | hm
    · cases he
      exact told ho
    · exact h hm ho
  unfold complete
  dsimp only
  split
  · exact hc
  · exact hc.cons (by simp)

@[simp] theorem foldl_deliver_history (b : List (Request × RequestCompleted)) (s : Service) :
    (b.foldl deliver s).history = s.history := by
  induction b generalizing s with
  | nil => rfl
  | cons _ _ ih =>
    rw [foldl_cons, ih]
    unfold deliver
    split <;> rfl

theorem Told.step (h : Told answers s.history) (w : Wired cfg answers s)
    (hs : Step cfg routing answers s t) : Told answers t.history := by
  cases hs with
  | enqueue =>
    unfold enqueue
    dsimp only
    split
    · split
      · exact h.cons (by simp)
      · exact h.cons (by simp)
    · exact h.cons (by simp)
  | publish =>
    unfold publish
    dsimp only
    split
    · rw [foldl_deliver_history]
      exact h
    · exact h
  | complete _ e b =>
    refine told_complete (s := { s with worker := .idle }) h ?_
    intro _
    exact ⟨e, (w.inHand b).content, rfl, rfl⟩
  | plan =>
    unfold plan
    split
    · exact h.cons (by simp)
    · exact h.cons (by simp)
  | submit _ r =>
    unfold submit
    split
    · rename_i hf
      refine told_complete (s := { s with worker := .submitting r }) h ?_
      intro ho
      simp [Status.failure, ho] at hf
    · exact h
  | _ => exact h

theorem reachable_told (h : Transition.Reachable (system cfg routing answers) s) :
    Told answers s.history := by
  refine Transition.Reachable.invariant (I := fun s => Told answers s.history) ?_ ?_ h
  · rintro _ rfl
    intro _ _ _ hm
    exact absurd hm not_mem_nil
  · intro s _ t hs told ht
    exact told.step (reachable_kept hs).1 ht

/-- The vector returned for a lookup of `blocks` that was sent out as `requests`:
each position is asked for once, and at its position stands what the node it was
routed to answered at its place in the batch. -/
structure Gathered (routing : Routing) (verdicts : Request → List LookupResult)
    (blocks : List BlockId) (requests : List Request) (bits : List UInt8) : Prop where
  length : bits.length = blocks.length
  covers : (requests.flatMap fun request => request.entries.map IoEntry.originalIndex).Perm
    (List.range blocks.length)
  answer : ∀ {index block}, blocks[index]? = some block →
    ∃ request ∈ requests, ∃ (position : Nat) (indexes : List Nat),
      request.entries[position]? = some { blockId := block, originalIndex := index } ∧
      (request.nodeId, indexes) ∈ routing.routeKeys (blocks.map fun block => block.toList) ∧
      index ∈ indexes ∧
      ∃ bit, bits[index]? = some bit ∧ (bit ≠ 0 ↔ (verdicts request)[position]? = some .found)

section
variable {verdicts : Request → List LookupResult} {sub : Submission}
  {requests : List Request} {blocks : List BlockId}
  (told : Told (answeredBy verdicts) s.history) (kept : TaskBooks.Kept cfg routing s.books)
  (admitted : .admitted sub requests ∈ s.history) (lookup : sub.op = .lookup)
  (input : sub.input = .lookup blocks)

include kept admitted lookup in
theorem op_of_admitted (h : request ∈ requests) : request.op = .lookup := by
  obtain ⟨⟨first, rfl⟩, _, _⟩ := kept.traced.planned admitted
  obtain ⟨_, _, _, ho, _⟩ := mem_requestsOf h
  rw [ho, lookup]

include kept admitted input in
theorem covers_of_admitted :
    (requests.flatMap fun request => request.entries.map IoEntry.originalIndex).Perm
    (List.range blocks.length) := by
  obtain ⟨⟨first, rfl⟩, _, _⟩ := kept.traced.planned admitted
  have hp := (entries_requestsOf cfg routing sub first).map IoEntry.originalIndex
  rw [map_flatMap, input] at hp
  rwa [← originalIndex_normalizeLookup]

include kept admitted input in
theorem place_of_admitted {index : Nat} {b : BlockId} (h : blocks[index]? = some b) :
    ∃ request ∈ requests, ∃ (position : Nat) (indexes : List Nat),
      request.entries[position]? = some { blockId := b, originalIndex := index } ∧
      (request.nodeId, indexes) ∈ routing.routeKeys (blocks.map fun b => b.toList) ∧
      index ∈ indexes := by
  obtain ⟨⟨first, rfl⟩, _, _⟩ := kept.traced.planned admitted
  have ha := entries_requestsOf cfg routing sub first
  rw [input] at ha
  obtain ⟨request, hr, hn⟩ :=
    mem_flatMap.1 (ha.mem_iff.2 (mem_normalizeLookup h))
  obtain ⟨p, hp, hnd, _, he⟩ := mem_requestsOf hr
  obtain ⟨position, ho⟩ := mem_iff_getElem?.1 hn
  rw [input] at hp he
  rw [he] at hn
  obtain ⟨o, ht, hs⟩ := mem_filterMap.1 hn
  have hd : o = index := by
    obtain ⟨_, hg⟩ := List.getElem?_eq_some_iff.1 hs
    simpa [normalizeInput, normalizeLookup] using congrArg IoEntry.originalIndex hg
  obtain ⟨indexes, hro, hm⟩ := routed_of_placed hp ht
  refine ⟨request, hr, position, indexes, ho, ?_, hd ▸ hm⟩
  rw [hnd, ← keys_normalizeLookup]
  exact hro

variable (none_open : TaskBooks.ofTask sub.taskId s.openRequests = [])
include kept admitted none_open in
theorem completions_perm : ((completions sub.taskId s.history).map Prod.fst).Perm requests := by
  obtain ⟨_, ho, _⟩ := kept.traced.planned admitted
  have ha := kept.traced.requests.filter fun request => request.taskId = sub.taskId
  rw [filter_append] at ha
  change (ofTask sub.taskId (issued s.history)).Perm (ofTask sub.taskId (completed s.history) ++
      ofTask sub.taskId s.openRequests) at ha
  change ofTask sub.taskId (issued s.history) = requests at ho
  rw [none_open, append_nil, ho] at ha
  rw [requests_completions]
  exact (reverse_perm _).trans ha.symm

variable (succeeded : ∀ outcome ∈ TaskBooks.outcomes sub.taskId s.history,
  outcome.1.success = true)

include told kept admitted lookup none_open succeeded in
theorem writes_of_completed {c : Request × Status × List EntryResult}
    (h : c ∈ completions sub.taskId s.history) :
    (verdicts c.1).length = c.1.entries.length ∧ (c.2.2.map fun r =>
        (r.originalIndex, if r.found then 1 else 0)) =
        writesOf verdicts c.1 := by
  have hr : c.1 ∈ requests :=
    (completions_perm kept admitted none_open).mem_iff.1 (mem_map_of_mem h)
  have hp := op_of_admitted kept admitted lookup hr
  have ho : c.2.1.success = true := by
    apply succeeded c.2
    rw [outcomes_eq_map]
    exact mem_map_of_mem h
  obtain ⟨e, ha, hs, he⟩ := told (mem_completions h) ho
  rw [← hs] at ho
  rw [← he]
  exact ⟨(ha hp ho).1, writes_answeredBy ha hp ho⟩

include told kept admitted lookup input none_open succeeded in
theorem lookupResults_progress : (progress cfg sub requests s.history).lookupResults = scatter
    (List.replicate blocks.length 0)
    (((completions sub.taskId s.history).map Prod.fst).flatMap (writesOf verdicts)) := by
  have hc : entryCount cfg sub = blocks.length := by
    simp [entryCount, input, normalizeInput, normalizeLookup]
  unfold progress
  rw [lookupResults_aggregate (by exact lookup) rfl succeeded,
    outcomes_eq_map, flatMap_map, flatMap_map]
  rw [activeTask, if_pos lookup, hc]
  congr 1
  apply flatMap_congr
  intro c h
  exact (writes_of_completed told kept admitted lookup none_open succeeded h).2

include told kept admitted lookup input none_open succeeded in
theorem gathered_of_settled : Gathered routing verdicts blocks requests
    (progress cfg sub requests s.history).lookupResults := by
  have hp := completions_perm kept admitted none_open
  have hc := covers_of_admitted kept admitted input
  have hl : ∀ request ∈ requests, (verdicts request).length = request.entries.length := by
    intro request h
    obtain ⟨c, hm, rfl⟩ := mem_map.1 (hp.mem_iff.2 h)
    exact (writes_of_completed told kept admitted lookup none_open succeeded hm).1
  rw [lookupResults_progress told kept admitted lookup input none_open succeeded]
  refine ⟨by simp, hc, ?_⟩
  intro i b h
  obtain ⟨request, hr, position, indexes, he, hro, hd⟩ :=
    place_of_admitted kept admitted input h
  obtain ⟨ho, _⟩ := List.getElem?_eq_some_iff.1 he
  obtain ⟨verdict, hv⟩ : ∃ verdict, (verdicts request)[position]? = some verdict := by
    rw [← hl request hr] at ho
    exact ⟨_, List.getElem?_eq_getElem ho⟩
  refine ⟨request, hr, position, indexes, he, hro, hd, verdict.toByte, ?_, ?_⟩
  · apply getElem?_scatter_of_mem
    · -- the positions written are those of the entries, so each is written once
      rw [map_flatMap]
      have hs : ∀ request ∈ (completions sub.taskId s.history).map Prod.fst,
          (writesOf verdicts request).map Prod.fst =
            request.entries.map IoEntry.originalIndex := fun request hm =>
        indexes_writesOf (hl request (hp.mem_iff.1 hm))
      rw [flatMap_congr hs]
      exact ((hp.flatMap_right _).trans hc).nodup_iff.2 nodup_range
    · exact mem_flatMap.2 ⟨request, hp.mem_iff.2 hr, mem_writesOf he hv⟩
    · obtain ⟨ht, _⟩ := List.getElem?_eq_some_iff.1 h
      simpa using ht
  · rw [hv]
    cases verdict <;> simp [LookupResult.toByte]

end

variable {submission : Submission} {requests : List Request}

section
variable (kept : TaskBooks.Kept cfg routing s.books)
  (admitted : .admitted submission requests ∈ s.history)
include kept admitted

theorem result_of_admitted {result : TaskResult}
    (fulfilled : .fulfilled submission.taskId result ∈ s.history) :
    ofTask submission.taskId s.openRequests = [] ∧
      result = resultOf (progress cfg submission requests s.history) := by
  obtain ⟨_, ho, hp⟩ := kept.traced.planned admitted
  have hd : submission.taskId ∈ fulfilledIds s.history :=
    mem_filterMap.2 ⟨_, fulfilled, rfl⟩
  have hr : requests ≠ [] := by
    rcases hp with ha | ⟨_, hs⟩
    · exact absurd hd (kept.placed.not_fulfilled ha)
    · exact hs
  rcases kept.traced.promises fulfilled with
    ⟨_, his⟩ | ⟨o, more, ht, hid, hn, he⟩
  · exact absurd (ho.symm.trans his) hr
  · obtain ⟨rfl, rfl⟩ := kept.once admitted ht hid.symm
    exact ⟨hn, he⟩

theorem fulfilled_of_settled (e : normalizeInput cfg submission.input ≠ [])
    (none_open : ofTask submission.taskId s.openRequests = []) :
    ∃ r, .fulfilled submission.taskId r ∈ s.history := by
  obtain ⟨_, _, hp⟩ := kept.traced.planned admitted
  rcases hp with ha | ⟨hd, _⟩
  · obtain ⟨ta, ht⟩ := Table.mem_keys_iff.1 ha
    obtain ⟨other, more, hot, hid, htask_eq⟩ := kept.traced.tasks ht
    obtain ⟨rfl, rfl⟩ := kept.once admitted hot hid.symm
    have hc : ta.entryCount = (normalizeInput cfg submission.input).length := by
      rw [htask_eq]
      exact entryCount_aggregate _ _
    have hr : ta.remainingRequests = 0 := by
      rw [remaining_eq kept ht, none_open]
      rfl
    have hz := (kept.counted.sized ht).2 hr
    rw [hc, length_eq_zero_iff] at hz
    exact absurd hz e
  obtain ⟨o, ho, hs⟩ := mem_filterMap.1 hd
  cases o with
  | fulfilled _ r =>
    cases hs
    exact ⟨r, ho⟩
  | _ => cases hs

end

/-- The state of a lookup in any run, whatever the routing, the batches and the
order in which replies come in. When all its requests succeeded, the promise is
fulfilled; and what `WaitLookup` then returns is gathered from the nodes' answers. -/
theorem lookup_gathered (config : TaskManagerConfig) (routing : Routing)
    (verdicts : Request → List LookupResult) (s : Service)
    (reached : Transition.Reachable (system config routing (answeredBy verdicts)) s)
    (submission : Submission) (requests : List Request) (blocks : List BlockId)
    (admitted : .admitted submission requests ∈ s.history) (lookup : submission.op = .lookup)
    (input : submission.input = .lookup blocks) :
    (blocks ≠ [] → TaskBooks.ofTask submission.taskId s.openRequests = [] →
      (∀ outcome ∈ TaskBooks.outcomes submission.taskId s.history, outcome.1.success = true) →
      ∃ result, .fulfilled submission.taskId result ∈ s.history ∧ result.status.success = true) ∧
    ∀ result, .fulfilled submission.taskId result ∈ s.history → result.status.success = true →
      ∃ bits, waitLookup result = .ok bits ∧ Gathered routing verdicts blocks requests bits := by
  have told := reachable_told reached
  have kept := (reachable_kept reached).2
  constructor
  · intro hb none_open succeeded
    have hn : normalizeInput config submission.input ≠ [] := by
      rw [input]
      simpa [normalizeInput, normalizeLookup] using hb
    obtain ⟨result, hr⟩ := fulfilled_of_settled kept admitted hn none_open
    refine ⟨result, hr, ?_⟩
    rw [status_of_result (result_of_admitted kept admitted hr).2]
    exact (success_earliestFailure _).2 succeeded
  intro result hr ho
  obtain ⟨none_open, he⟩ := result_of_admitted kept admitted hr
  have succeeded : ∀ outcome ∈ outcomes submission.taskId s.history, outcome.1.success = true := by
    rw [status_of_result he] at ho
    exact (success_earliestFailure _).1 ho
  refine ⟨result.lookupResults, by simp [waitLookup, Status.failure, ho], ?_⟩
  have hbi : result.lookupResults =
      (progress config submission requests s.history).lookupResults := by
    rw [he] at ho ⊢
    exact if_pos ho
  rw [hbi]
  exact gathered_of_settled told kept admitted lookup input none_open succeeded

def stored (request : Request) : List LookupResult :=
  if request.nodeId = 0 then [.found] else [.notFound]

theorem firstEvent_answers : answeredBy stored firstRequest
    (eventOf firstRequest [{ found := true, code := 1 }]) := by
  intro _ _
  refine ⟨rfl, {}, List.replicate 10 0, [1, 0, 0, 0, 0, 0, 0, 0, 1, 1],
    [{ found := true, code := 1 }], by decide, ?_, ?_, rfl⟩
  · decide +kernel
  · decide +kernel

theorem secondEvent_answers : answeredBy stored secondRequest
    (eventOf secondRequest [{ originalIndex := 1 }]) := by
  intro _ _
  refine ⟨rfl, { endpoint := { nodeId := 1 } }, List.replicate 10 0,
    [2, 0, 0, 0, 0, 0, 0, 0, 1, 0], [{}], by decide, ?_, ?_, rfl⟩
  · decide +kernel
  · decide +kernel

theorem lookup_gathered_two :
    .fulfilled 1 { status := .OK, lookupResults := [1, 0] } ∈ lookupAnswered.history ∧
      ∃ bits, waitLookup { status := .OK, lookupResults := [1, 0] } = .ok bits ∧
        Gathered twoNodes stored [Vector.ofFn fun _ => 7, Vector.ofFn fun _ => 8]
          [firstRequest, secondRequest] bits := by
  have hf : .fulfilled 1 { status := .OK, lookupResults := [1, 0] } ∈
      lookupAnswered.history := by
    decide +kernel
  have hr := (lookup_reachable firstEvent_answers secondEvent_answers).2
  have hg := lookup_gathered schedulerConfig twoNodes stored lookupAnswered hr lookupSubmission
    [firstRequest, secondRequest] _ (by decide +kernel) rfl rfl
  exact ⟨hf, hg.2 _ hf rfl⟩

end Service
end UnifiedCache.Dram
