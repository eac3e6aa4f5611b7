import UnifiedCache.Dram.TaskService

/-! What the books come to: entries in use, requests left, promises kept and room
for every completion. A task without entries is the one thing they do not cover. -/
namespace UnifiedCache.Dram
open List TaskManager TaskBooks

namespace TaskBooks

def earliestFailure (outcomes : List (Status × List EntryResult)) : Option Status :=
  (outcomes.map Prod.fst).find? Status.failure

section
variable (task : ActiveTask) (outcomes : List (Status × List EntryResult))
include task outcomes

theorem failure_aggregate :
    (aggregate task outcomes).failure = task.failure.or (earliestFailure outcomes) := by
  induction outcomes generalizing task with
  | nil => exact Option.or_none.symm
  | cons o _ ih =>
    rw [aggregate, foldl_cons]
    refine (ih _).trans ?_
    unfold settleRequest earliestFailure
    rw [map_cons, List.find?_cons]
    cases hf : o.1.failure with
    | true => cases task.failure <;> simp
    | false =>
      simp only [Bool.false_eq_true, if_false]
      split <;> rfl

@[simp] theorem entryCount_aggregate : (aggregate task outcomes).entryCount = task.entryCount := by
  induction outcomes generalizing task with
  | nil => rfl
  | cons o _ ih =>
    rw [aggregate, foldl_cons]
    exact (ih _).trans (entryCount_settleRequest o.1 o.2 task)

end
end TaskBooks

namespace Service
variable {cfg : TaskManagerConfig} {routing : Routing} {s : Service}

structure Accounted (config : TaskManagerConfig) (s : Service) : Prop where
  used_eq : s.manager.usedIoEntries =
    (s.manager.activeTasks.entries.map fun entry => entry.2.entryCount).sum
  used_le : s.manager.usedIoEntries ≤ config.maxIoEntries
  /-- A request that was issued has come out or is open. -/
  requests : ∀ taskId, (ofTask taskId (issued s.history)).Perm
    (ofTask taskId (completed s.history) ++ ofTask taskId s.openRequests)
  remaining : ∀ taskId task, (taskId, task) ∈ s.manager.activeTasks.entries →
    task.remainingRequests = (ofTask taskId s.openRequests).length ∧ 0 < task.remainingRequests
  /-- An accepted task waits, is active or has been answered, and that once. -/
  once : ∀ taskId ∈ acceptedIds s.history,
    (s.waiting.map Submission.taskId).count taskId + s.manager.activeTasks.keys.count taskId +
      (fulfilledIds s.history).count taskId = 1
  /-- It has been answered when none of its requests is open any more. -/
  fulfilled : ∀ taskId ∈ acceptedIds s.history,
    taskId ∉ s.waiting.map Submission.taskId → ofTask taskId s.openRequests = [] →
      (fulfilledIds s.history).count taskId = 1
  status : ∀ taskId result, .fulfilled taskId result ∈ s.history →
    ofTask taskId (issued s.history) ≠ [] → ofTask taskId s.openRequests = [] ∧
      result.status = (earliestFailure (outcomes taskId s.history)).getD .OK ∧
      (result.status.success = true ↔
        ∀ outcome ∈ outcomes taskId s.history, outcome.1.success = true)
  /-- Without a request only a refusal is promised. -/
  refused : ∀ taskId result, .fulfilled taskId result ∈ s.history →
    ofTask taskId (issued s.history) = [] → result.status.failure = true
  /-- Whatever the nodes may publish now is queued to the last completion. -/
  published : ∀ batch rest, s.outstanding.Perm (batch.map Prod.fst ++ rest) →
    s.manager.completions.size + batch.length ≤ config.maxIoEntries ∧
      (s.manager.accepting = true → (s.publish batch rest).manager.completions.contents =
        s.manager.completions.contents ++ batch.map Prod.snd)
  reliable : s.manager.accepting = true → s.discarded = []

variable {submission : Submission}

theorem status_of_result {requests : List Request} {history : List TaskObservation}
    {result : TaskResult} (h : result = resultOf (progress cfg submission requests history)) :
    result.status = (earliestFailure (outcomes submission.taskId history)).getD .OK := by
  rw [h]
  unfold resultOf progress
  rw [failure_aggregate]
  rfl

@[simp] theorem success_earliestFailure (outcomes : List (Status × List EntryResult)) :
    ((earliestFailure outcomes).getD .OK).success = true ↔ ∀ o ∈ outcomes, o.1.success = true := by
  unfold earliestFailure
  cases hf : (outcomes.map Prod.fst).find? Status.failure with
  | none =>
    refine ⟨fun _ o hm => ?_, fun _ => rfl⟩
    have hn := List.find?_eq_none.1 hf o.1 (mem_map_of_mem hm)
    simpa [Status.failure] using hn
  | some st =>
    have ha : st.failure = true := List.find?_some hf
    obtain ⟨o, hm, rfl⟩ := mem_map.1 (mem_of_find?_eq_some hf)
    rw [← Status.success_eq_false] at ha
    rw [Option.getD_some, ha]
    refine ⟨fun ho => absurd ho (by simp), fun hl => ?_⟩
    rw [← ha]
    exact hl o hm

section
variable {answers : Request → RequestCompleted → Prop} (wired : Wired cfg answers s)
  (kept : Kept cfg routing s.books)
include kept
variable {taskId : TaskId} {task : ActiveTask}

theorem remaining_eq (h : (taskId, task) ∈ s.manager.activeTasks.entries) :
    task.remainingRequests = (ofTask taskId s.openRequests).length := by
  rw [← kept.counted.ledger.count_of_mem h]
  rw [count_eq_countP, countP_map, countP_eq_length_filter]
  rfl

theorem count_once (h : taskId ∈ acceptedIds s.history) :
    (s.waiting.map Submission.taskId).count taskId + s.manager.activeTasks.keys.count taskId +
    (fulfilledIds s.history).count taskId = 1 := by
  have hc := kept.placed.partition.count_eq taskId
  rw [count_append, count_append, count_eq_one_of_mem kept.placed.distinct h] at hc
  exact hc

theorem fulfilled_cases {result : TaskResult} (h : .fulfilled taskId result ∈ s.history) :
    (result.status.failure = true ∧ ofTask taskId (issued s.history) = []) ∨ ∃ su requests,
    su.taskId = taskId ∧ ofTask taskId (issued s.history) ≠ [] ∧ ofTask taskId s.openRequests = [] ∧
    result = resultOf (progress cfg su requests s.history) := by
  refine (kept.traced.promises h).imp_right ?_
  rintro ⟨su, requests, ha, rfl, hn, hr⟩
  obtain ⟨_, ho, hp⟩ := kept.traced.planned ha
  refine ⟨su, requests, rfl, ?_, hn, hr⟩
  have hd : su.taskId ∈ fulfilledIds s.history := mem_filterMap.2 ⟨_, h, rfl⟩
  obtain hc | he := hp
  · exact absurd hd (kept.placed.not_fulfilled hc)
  · rw [show ofTask su.taskId (issued s.history) = requests from ho]
    exact he.2

theorem positive_of_entries (e : ∀ su requests, .admitted su requests ∈ s.history →
      normalizeInput cfg su.input ≠ [])
    (h : (taskId, task) ∈ s.manager.activeTasks.entries) : 0 < task.remainingRequests := by
  obtain ⟨su, requests, ha, _, ht⟩ := kept.traced.tasks h
  have hc : task.entryCount = (normalizeInput cfg su.input).length := by
    rw [ht]
    exact entryCount_aggregate _ _
  have hp := length_pos_iff.2 (e su requests ha)
  have hs := (kept.counted.sized h).2
  omega

include wired

theorem publish_contents {batch : List (Request × RequestCompleted)} {rest : List Request}
    (owed : s.outstanding.Perm (batch.map Prod.fst ++ rest))
    (accepting : s.manager.accepting = true) :
    (s.publish batch rest).manager.completions.contents = s.manager.completions.contents ++
    batch.map Prod.snd := by
  obtain ⟨c, hc, _, he⟩ :=
    foldl_deliver batch { s with outstanding := rest } (by
      rw [wired.capacity]
      exact room wired kept owed)
  unfold publish
  rw [if_pos accepting, he]
  exact hc

end

/-- In every state that any interleaving of clients, worker and nodes reaches, the
accounting holds exactly as long as no task without entries has been admitted. -/
theorem accounted_iff (config : TaskManagerConfig) (routing : Routing) (s : Service)
    (h : Transition.Reachable (system config routing fun _ _ => True) s) :
    Accounted config s ↔ ∀ submission requests, .admitted submission requests ∈ s.history →
      normalizeInput config submission.input ≠ [] := by
  obtain ⟨wired, kept⟩ := reachable_kept h
  constructor
  · intro accounted submission requests hd hn
    obtain ⟨⟨first, hf⟩, hw, hl⟩ := kept.traced.planned hd
    have hsi := (requestsOf_sized config routing submission first).1
    have hem : requests = [] := by
      rw [← hf, entryCount, hn] at hsi
      exact length_eq_zero_iff.1 (Nat.le_zero.1 hsi)
    have ha := hl.resolve_right fun hen => hen.2 hem
    obtain ⟨task, ht⟩ := Table.mem_keys_iff.1 ha
    obtain ⟨hre, ho⟩ := accounted.remaining _ _ ht
    have hop := accounted.requests submission.taskId
    rw [show ofTask submission.taskId (issued s.history) = requests from hw, hem,
      nil_perm, append_eq_nil_iff] at hop
    rw [hre, hop.2] at ho
    exact Nat.lt_irrefl 0 ho
  · intro entries
    have hp : ∀ {taskId task}, (taskId, task) ∈ s.manager.activeTasks.entries →
        0 < task.remainingRequests := positive_of_entries kept entries
    exact
      { used_eq := kept.counted.used
        used_le := kept.counted.used_le
        requests := fun taskId =>
          (kept.traced.requests.filter _).trans (List.Perm.of_eq (ofTask_append _ _ _))
        remaining := fun taskId task hm => ⟨remaining_eq kept hm, hp hm⟩
        once := fun taskId hm => count_once kept hm
        fulfilled := by
          intro taskId hm hwt hop
          have hc := count_once kept hm
          have hid : s.manager.activeTasks.keys.count taskId = 0 := by
            refine List.count_eq_zero.2 fun ha => ?_
            obtain ⟨task, ht⟩ := Table.mem_keys_iff.1 ha
            have ho := hp ht
            rw [remaining_eq kept ht, hop] at ho
            exact Nat.lt_irrefl 0 ho
          rw [List.count_eq_zero.2 hwt, hid] at hc
          omega
        status := by
          intro taskId result hm hs
          obtain ⟨submission, requests, rfl, _, hop, hr⟩ :=
            (fulfilled_cases kept hm).resolve_left fun he => hs he.2
          have hst := status_of_result hr
          refine ⟨hop, hst, ?_⟩
          rw [hst]
          exact success_earliestFailure _
        refused := by
          intro taskId result hm hs
          refine ((fulfilled_cases kept hm).resolve_right ?_).1
          rintro ⟨_, _, rfl, hsm, _⟩
          exact hsm hs
        published := fun batch rest owed =>
          ⟨room wired kept owed, publish_contents wired kept owed⟩
        reliable := wired.reliable }

theorem eight_fits : 8 < SizeT.modulus := by decide

def schedulerConfig : TaskManagerConfig where
  maxIoEntries := 8
  requestBatchEntries := 4
  timeouts := { dump := 3000, lookup := 3000 }
  fits := eight_fits
  batching := Nat.succ_pos 3

/-- The first key goes to node 0 and the others go to node 1. -/
def twoNodes : Routing where
  routeKeys keys := [(0, (List.range keys.length).take 1), (1, (List.range keys.length).drop 1)]
  complete keys := by
    rw [List.flatMap_cons, List.flatMap_cons, List.flatMap_nil, List.append_nil,
      List.take_append_drop]

def enqueued (submission : Submission) : Service :=
  ((start schedulerConfig).allocate schedulerConfig submission.op submission.input 0).enqueue
    submission

def begun (submission : Submission) : Service :=
  { enqueued submission with
    manager := { (enqueued submission).manager with
      submissions := ((enqueued submission).manager.submissions.pop.map Prod.snd).getD
        (enqueued submission).manager.submissions }
    worker := .planning submission }.plan schedulerConfig twoNodes submission 0

section
variable {answers : Request → RequestCompleted → Prop}

theorem begun_reachable
    (ha : submission ∈ ((start schedulerConfig).allocate schedulerConfig submission.op
      submission.input 0).arriving) (hi : (enqueued submission).worker = .idle)
    (hm : (enqueued submission).manager.accepting = true)
    (he : (enqueued submission).manager.completions.empty = true)
    (hq : (enqueued submission).manager.submissions.contents = [submission]) :
    Transition.Reachable (system schedulerConfig twoNodes answers) (begun submission) := by
  have hs : Transition.Reachable (system schedulerConfig twoNodes answers)
      (start schedulerConfig) := .start rfl
  have hn := hs.next (a := ()) (.allocate submission.op submission.input 0)
  have hp := hn.next (a := ()) (.enqueue submission ha)
  have ht := hp.next (a := ()) (.takeSubmission submission _ hi hm he (BoundedQueue.pop_eq [] hq))
  exact ht.next (a := ()) (.plan submission 0 rfl)

def settled (request : Request) (event : RequestCompleted) (rest : List Request) (s : Service) :
    Service :=
  let s := s.publish [(request, event)] rest
  { s with
    manager := { s.manager with
      completions := (s.manager.completions.pop.map Prod.snd).getD s.manager.completions }
    answered := []
    worker := .idle }.complete request event.taskId event.status event.entryResults

theorem settled_reachable {request : Request} {event : RequestCompleted} {rest : List Request}
    (h : Transition.Reachable (system schedulerConfig twoNodes answers) s)
    (ho : s.outstanding.Perm (request :: rest)) (ha : Answers answers request event)
    (hi : (s.publish [(request, event)] rest).worker = .idle)
    (hm : (s.publish [(request, event)] rest).manager.accepting = true)
    (hc : (s.publish [(request, event)] rest).manager.completions.contents = [event])
    (hq : (s.publish [(request, event)] rest).answered = [request]) :
    Transition.Reachable (system schedulerConfig twoNodes answers)
      (s.settled request event rest) := by
  have hp := h.next (a := ()) (.publish [(request, event)] rest ho (by simpa using ha))
  have ht := hp.next (a := ()) (.takeCompletion event _ request [] hi hm
    (BoundedQueue.pop_eq [] hc) hq)
  exact ht.next (a := ()) (.complete request event rfl)

end

def lookupSubmission : Submission where
  taskId := 1
  op := .lookup
  deadline := 3000000000
  input := .lookup [Vector.ofFn fun _ => 7, Vector.ofFn fun _ => 8]

def firstRequest : Request where
  taskId := 1
  requestId := 1
  op := .lookup
  entries := [{ blockId := Vector.ofFn fun _ => 7 }]
  deadline := 3000000000

def secondRequest : Request :=
  { firstRequest with
    requestId := 2
    nodeId := 1
    entries := [{ blockId := Vector.ofFn fun _ => 8, originalIndex := 1 }] }

def eventOf (request : Request) (results : List EntryResult) : RequestCompleted where
  taskId := request.taskId
  requestId := request.requestId
  nodeId := request.nodeId
  status := .OK
  entryResults := results

def lookupSent : Service :=
  { ((begun lookupSubmission).submit firstRequest [secondRequest] .OK).submit secondRequest [] .OK
    with worker := .idle }

def lookupHalf : Service :=
  lookupSent.settled secondRequest (eventOf secondRequest [{ originalIndex := 1 }]) [firstRequest]

def lookupAnswered : Service :=
  lookupHalf.settled firstRequest (eventOf firstRequest [{ found := true, code := 1 }]) []

theorem lookup_reachable {answers : Request → RequestCompleted → Prop}
    (hf : answers firstRequest (eventOf firstRequest [{ found := true, code := 1 }]))
    (hs : answers secondRequest (eventOf secondRequest [{ originalIndex := 1 }])) :
    Transition.Reachable (system schedulerConfig twoNodes answers) lookupHalf ∧
      Transition.Reachable (system schedulerConfig twoNodes answers) lookupAnswered := by
  have hb : Transition.Reachable (system schedulerConfig twoNodes answers)
      (begun lookupSubmission) := begun_reachable (by decide) rfl rfl (by decide +kernel)
    (by decide +kernel)
  have hn := hb.next (a := ()) (.submit firstRequest [secondRequest] .OK (by decide +kernel))
  have hn := hn.next (a := ()) (.submit secondRequest [] .OK (by decide +kernel))
  have hn := hn.next (a := ()) (.done (by decide +kernel))
  have hh : Transition.Reachable (system schedulerConfig twoNodes answers) lookupHalf :=
    settled_reachable hn (by decide +kernel) ⟨rfl, rfl, hs⟩ (by decide +kernel)
      (by decide +kernel) (by decide +kernel) (by decide +kernel)
  exact ⟨hh, settled_reachable hh (by decide +kernel) ⟨rfl, rfl, hf⟩ (by decide +kernel)
    (by decide +kernel) (by decide +kernel) (by decide +kernel)⟩

theorem lookup_entries {requests : List Request}
    (h : .admitted submission requests ∈ lookupAnswered.history) :
    normalizeInput schedulerConfig submission.input ≠ [] := by
  have hh : lookupAnswered.history =
      [.fulfilled 1 { status := .OK, lookupResults := [1, 0] },
        .completed firstRequest .OK [{ found := true, code := 1 }],
        .completed secondRequest .OK [{ originalIndex := 1 }],
        .admitted lookupSubmission [firstRequest, secondRequest], .accepted lookupSubmission] := by
    decide +kernel
  rw [hh] at h
  obtain ⟨rfl, -⟩ : submission = lookupSubmission ∧ _ := by simpa using h
  decide

/-- Two requests of a lookup: one of them is open, then none, and the promise is fulfilled. -/
theorem accounted_lookup : (Accounted schedulerConfig lookupHalf ∧
      lookupHalf.openRequests = [firstRequest] ∧ lookupHalf.manager.usedIoEntries = 2 ∧
      fulfilledIds lookupHalf.history = []) ∧
    Accounted schedulerConfig lookupAnswered ∧ lookupAnswered.openRequests = [] ∧
      lookupAnswered.manager.usedIoEntries = 0 ∧ fulfilledIds lookupAnswered.history = [1] := by
  obtain ⟨hh, ha⟩ := @lookup_reachable (fun _ _ => True) trivial trivial
  refine ⟨⟨(accounted_iff _ _ _ hh).2 ?_, by decide +kernel, by decide +kernel,
    by decide +kernel⟩, (accounted_iff _ _ _ ha).2 ?_, by decide +kernel, by decide +kernel,
    by decide +kernel⟩
  · intro submission requests hm
    have hs : lookupHalf.history <:+ lookupAnswered.history := by decide +kernel
    exact lookup_entries (hs.subset hm)
  · intro submission requests
    exact lookup_entries

def emptyDump : Submission where
  taskId := 1
  op := .dump
  deadline := 3000000000
  input := .transfer { shards := [{ owner := Vector.ofFn fun _ => 1, index := 0, addrs := [] }] }

def emptyPlanned : Service :=
  { begun emptyDump with worker := .idle }

/-- Its dump of a shard has no entry, hence no request, and stays active with
nothing left that could complete it. -/
theorem emptyDump_never_fulfilled :
    Transition.Reachable (system schedulerConfig twoNodes fun _ _ => True) emptyPlanned ∧
      emptyPlanned.worker = .idle ∧ emptyPlanned.openRequests = [] ∧
      1 ∈ acceptedIds emptyPlanned.history ∧
      1 ∉ emptyPlanned.waiting.map Submission.taskId ∧ 1 ∉ fulfilledIds emptyPlanned.history ∧
      ∃ task, (1, task) ∈ emptyPlanned.manager.activeTasks.entries ∧
        task.remainingRequests = 0 := by
  have hp : Transition.Reachable (system schedulerConfig twoNodes fun _ _ => True)
      (begun emptyDump) := begun_reachable (by decide) rfl rfl (by decide +kernel)
    (by decide +kernel)
  refine ⟨hp.next (a := ()) (.done (by decide +kernel)), rfl, ?_⟩
  refine ⟨by decide +kernel, by decide +kernel, by decide +kernel, by decide +kernel,
    activeTask emptyDump 0 0, by decide +kernel, rfl⟩

end Service
end UnifiedCache.Dram
