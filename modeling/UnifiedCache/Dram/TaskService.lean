import UnifiedCache.Dram.TaskBooks
import UnifiedCache.Lib.Transition

/-! The task manager among its threads. Clients enqueue tasks, the worker plans
them and counts completions in, the nodes' threads publish completions. A step is
what one thread does under one lock, or with the worker's own state. -/
namespace UnifiedCache.Dram
open List TaskBooks BoundedQueue Submission
open TaskManager

/-- Where the worker thread is. The request of a completion is known to the proof
only; the code knows its task. -/
inductive Worker where
  | idle
  | completing (request : Request) (event : RequestCompleted)
  | planning (submission : Submission)
  | submitting (requests : List Request)
  deriving DecidableEq

namespace Worker

def requests : Worker → List Request
  | .completing request _ => [request]
  | .submitting requests => requests
  | _ => []

def submissions : Worker → List Submission
  | .planning submission => [submission]
  | _ => []

end Worker

/-- `arriving` are tasks with an id that their client has not pushed yet,
`outstanding` the requests a node owes a completion for, `answered` those whose
completion is queued, and `discarded` those whose completion was not. -/
structure Service where
  manager : TaskManager
  arriving : List Submission := []
  worker : Worker := .idle
  outstanding : List Request := []
  answered : List Request := []
  discarded : List Request := []
  history : List TaskObservation := []

namespace Service
variable (config : TaskManagerConfig) (routing : Routing)

def start : Service where
  manager := TaskManager.start config

def observe (s : Service) (o : TaskObservation) : Service :=
  { s with history := o :: s.history }

/-- `EnqueueTask` up to the lock of the work queues. -/
def allocate (op : OpType) (input : TaskInput) (now : TimePoint) (s : Service) : Service :=
  { s with
    manager := { s.manager with nextTaskId := s.manager.nextTaskId + 1 }
    arriving :=
      { taskId := s.manager.nextTaskId, op := op, input := input
        deadline := now + TimePoint.milliseconds (timeout config op) } :: s.arriving }

/-- The rest of `EnqueueTask`. -/
def enqueue (submission : Submission) (s : Service) : Service :=
  let s := { s with arriving := s.arriving.erase submission }
  if s.manager.accepting then
    match s.manager.submissions.push submission with
    | (submissions, true) =>
      { s with manager := { s.manager with submissions := submissions } }.observe
        (.accepted submission)
    | (_, false) => s.observe (.rejected submission .NoSpace)
  else s.observe (.rejected submission (.Error "TaskManager is stopping"))

/-- `Publish` of one completion; the result of `Push` is ignored. -/
def deliver (s : Service) (answer : Request × RequestCompleted) : Service :=
  match s.manager.completions.push answer.2 with
  | (completions, true) =>
    { s with
      manager := { s.manager with completions := completions }
      answered := s.answered ++ [answer.1] }
  | (_, false) => { s with discarded := s.discarded ++ [answer.1] }

/-- `Publish`; `rest` are the requests that stay outstanding. -/
def publish (batch : List (Request × RequestCompleted)) (rest : List Request) (s : Service) :
    Service :=
  let s := { s with outstanding := rest }
  if s.manager.accepting then batch.foldl deliver s
  else { s with discarded := s.discarded ++ batch.map Prod.fst }

/-- `CompleteRequest`, with the promise fulfilled when it was the last one. -/
def complete (request : Request) (taskId : TaskId) (status : Status)
    (results : List EntryResult) (s : Service) : Service :=
  let (manager, result) := s.manager.completeRequest taskId status results
  let s := { s with manager := manager }.observe (.completed request status results)
  match result with
  | none => s
  | some result => s.observe (.fulfilled taskId result)

def plan (submission : Submission) (now : TimePoint) (s : Service) : Service :=
  match planSubmission config routing submission now s.manager with
  | .refused result => { s with worker := .idle }.observe (.fulfilled submission.taskId result)
  | .admitted manager requests =>
    { s with manager := manager, worker := .submitting requests }.observe
      (.admitted submission requests)

/-- One round of the loop over the requests, with what `submitRequest` returned. -/
def submit (request : Request) (rest : List Request) (status : Status) (s : Service) : Service :=
  let s := { s with worker := .submitting rest }
  if status.failure then s.complete request request.taskId status []
  else { s with outstanding := s.outstanding ++ [request] }

/-- A completion that a node may publish for `request`. -/
structure Answers (answers : Request → RequestCompleted → Prop) (request : Request)
    (event : RequestCompleted) : Prop where
  taskId : event.taskId = request.taskId
  requestId : event.requestId = request.requestId
  content : answers request event

/-- The steps, when nodes answer as `answers` allows: each request that
`submitRequest` took is completed at most once. -/
inductive Step (answers : Request → RequestCompleted → Prop) (s : Service) : Service → Prop where
  | allocate (op : OpType) (input : TaskInput) (now : TimePoint) :
      Step answers s (s.allocate config op input now)
  | enqueue (submission : Submission) (arriving : submission ∈ s.arriving) :
      Step answers s (s.enqueue submission)
  | publish (batch : List (Request × RequestCompleted)) (rest : List Request)
      (owed : s.outstanding.Perm (batch.map Prod.fst ++ rest))
      (answered : ∀ answer ∈ batch, Answers answers answer.1 answer.2) :
      Step answers s (s.publish batch rest)
  | shutdown : Step answers s { s with manager := { s.manager with accepting := false } }
  | takeCompletion (event : RequestCompleted) (completions : BoundedQueue RequestCompleted)
      (request : Request) (left : List Request) (idle : s.worker = .idle)
      (accepting : s.manager.accepting = true)
      (popped : s.manager.completions.pop = some (event, completions))
      (first : s.answered = request :: left) :
      Step answers s { s with
        manager := { s.manager with completions := completions }
        answered := left
        worker := .completing request event }
  | takeSubmission (submission : Submission) (submissions : BoundedQueue Submission)
      (idle : s.worker = .idle) (accepting : s.manager.accepting = true)
      (none_ : s.manager.completions.empty = true)
      (popped : s.manager.submissions.pop = some (submission, submissions)) :
      Step answers s { s with
        manager := { s.manager with submissions := submissions }
        worker := .planning submission }
  | complete (request : Request) (event : RequestCompleted)
      (busy : s.worker = .completing request event) :
      Step answers s ({ s with worker := .idle }.complete request event.taskId event.status
        event.entryResults)
  | plan (submission : Submission) (now : TimePoint) (busy : s.worker = .planning submission) :
      Step answers s (s.plan config routing submission now)
  | submit (request : Request) (rest : List Request) (status : Status)
      (busy : s.worker = .submitting (request :: rest)) :
      Step answers s (s.submit request rest status)
  | done (busy : s.worker = .submitting []) : Step answers s { s with worker := .idle }

def system (answers : Request → RequestCompleted → Prop) : Transition.System Service Unit where
  init s := s = start config
  step s _ t := Step config routing answers s t

def waiting (s : Service) : List Submission :=
  s.manager.submissions.contents ++ s.worker.submissions

def openRequests (s : Service) : List Request :=
  s.worker.requests ++ s.outstanding ++ s.answered ++ s.discarded

def books (s : Service) : TaskBooks where
  waiting := s.waiting
  active := s.manager.activeTasks
  used := s.manager.usedIoEntries
  openRequests := s.openRequests
  history := s.history

structure Wired (config : TaskManagerConfig) (answers : Request → RequestCompleted → Prop)
    (s : Service) : Prop where
  queued : List.Forall₂ (Answers answers) s.answered s.manager.completions.contents
  inHand : ∀ {request event}, s.worker = .completing request event → Answers answers request event
  capacity : s.manager.completions.slots.length = config.maxIoEntries
  reliable : s.manager.accepting = true → s.discarded = []
  distinct : (s.arriving.map Submission.taskId ++ TaskBooks.acceptedIds s.history).Nodup
  below : ∀ taskId ∈ s.arriving.map Submission.taskId ++ TaskBooks.acceptedIds s.history,
    taskId < s.manager.nextTaskId

variable {config} {routing} {answers : Request → RequestCompleted → Prop} {s t : Service}

theorem Wired.start : Wired config answers (start config) where
  queued := .nil
  inHand h := by cases h
  capacity := length_slots_ofCapacity _
  reliable _ := rfl
  distinct := nodup_nil
  below _ h := absurd h not_mem_nil

theorem room (w : Wired config answers s) (k : TaskBooks.Kept config routing s.books)
    {b : List (Request × RequestCompleted)} {r : List Request}
    (o : s.outstanding.Perm (b.map Prod.fst ++ r)) :
    s.manager.completions.size + b.length ≤ config.maxIoEntries := by
  have hl := o.length_eq
  have hq := w.queued.length_eq
  have ho := k.counted.length_open_le.trans k.counted.used_le
  rw [length_contents] at hq
  simp only [books, openRequests, length_append] at ho
  rw [length_append, length_map] at hl
  omega

theorem foldl_deliver (b : List (Request × RequestCompleted)) (s : Service)
    (h : s.manager.completions.size + b.length ≤ s.manager.completions.slots.length) :
    ∃ completions : BoundedQueue RequestCompleted,
      completions.contents = s.manager.completions.contents ++ b.map Prod.snd ∧
      completions.slots.length = s.manager.completions.slots.length ∧
      b.foldl deliver s = { s with
        manager := { s.manager with completions := completions }
        answered := s.answered ++ b.map Prod.fst } := by
  induction b generalizing s with
  | nil => exact ⟨s.manager.completions, (append_nil _).symm, rfl, by simp⟩
  | cons a _ ih =>
    rw [length_cons] at h
    have hp := push_of_room a.2
      (show s.manager.completions.size < s.manager.completions.slots.length by omega)
    have hs := length_slots_push s.manager.completions a.2
    have hd : s.deliver a = { s with
        manager := { s.manager with completions := (s.manager.completions.push a.2).1 }
        answered := s.answered ++ [a.1] } := by
      unfold deliver
      split
      · rename_i hu
        rw [hu]
      · rename_i hf
        rw [hf] at hp
        exact absurd hp.1 (by simp)
    have hz : (s.manager.completions.push a.2).1.size = s.manager.completions.size + 1 := by
      rw [← length_contents, hp.2, length_append, length_contents, length_singleton]
    rw [foldl_cons, hd]
    obtain ⟨completions, hc, hl, he⟩ := ih { s with
        manager := { s.manager with completions := (s.manager.completions.push a.2).1 }
        answered := s.answered ++ [a.1] } (by dsimp only; omega)
    refine ⟨completions, ?_, hl.trans hs, ?_⟩
    · rw [hc, hp.2, append_assoc]
      rfl
    · rw [he, append_assoc]
      rfl

theorem complete_step (kept : TaskBooks.Kept config routing s.books) {request : Request}
    {worker : Worker} (status : Status) (results : List EntryResult)
    (hw : worker.submissions = s.worker.submissions)
    (ho : s.openRequests.Perm (request :: ({ s with worker := worker } : Service).openRequests)) :
    TaskBooks.Step config routing s.books
      (({ s with worker := worker } : Service).complete request request.taskId status results).books := by
  have hm : request.taskId ∈ s.openRequests.map Request.taskId :=
    mem_map_of_mem (ho.mem_iff.2 mem_cons_self)
  obtain ⟨task, f⟩ := Table.mem_keys_iff.1 (kept.counted.ledger.mem_keys hm)
  have hp : 0 < task.remainingRequests := by
    rw [← kept.counted.ledger.count_of_mem f]
    exact count_pos_iff.2 hm
  have hl := kept.counted.remaining_settled f hp status results
  have hf : s.manager.activeTasks.find? request.taskId = some task :=
    Table.find?_eq_some.2 f
  have hu : SizeT.sub s.manager.usedIoEntries task.entryCount =
      s.manager.usedIoEntries - task.entryCount :=
    SizeT.sub_eq (kept.counted.entryCount_le f) (kept.counted.used_le.trans_lt config.fits)
  have hst : ∀ {active used open' history}, TaskBooks.Step config routing s.books
      ⟨s.waiting, active, used, open', history⟩ → TaskBooks.Step config routing s.books
      ⟨s.manager.submissions.contents ++ worker.submissions, active, used, open', history⟩ := by
    rw [waiting, hw]
    exact id
  by_cases hla : task.remainingRequests = 1
  · have hd : s.manager.completeRequest request.taskId status results =
        ({ s.manager with
            usedIoEntries := s.manager.usedIoEntries - task.entryCount
            activeTasks := s.manager.activeTasks.erase request.taskId },
          some (resultOf (settleRequest status results task))) := by
      unfold completeRequest
      simp only [hf, hl, entryCount_settleRequest, hu]
      rw [if_neg (by omega)]
    unfold complete
    rw [hd]
    exact hst (.finish request status results task _ ho f hla)
  · have hmo : s.manager.completeRequest request.taskId status results =
        ({ s.manager with
            activeTasks := s.manager.activeTasks.modify request.taskId
              (settleRequest status results) }, none) := by
      unfold completeRequest
      simp only [hf, hl]
      rw [if_pos (by omega)]
    unfold complete
    rw [hmo]
    exact hst (.settle request status results task _ ho f (by omega))

variable (config routing) in
theorem planSubmission_cases {mgr : TaskManager} (submission : Submission) (now : TimePoint)
    (hu : mgr.usedIoEntries ≤ config.maxIoEntries) : (∃ status : Status, status.failure = true ∧
      planSubmission config routing submission now mgr = .refused { status := status }) ∨
    (mgr.usedIoEntries + entryCount config submission ≤ config.maxIoEntries ∧
      planSubmission config routing submission now mgr = .admitted
        { mgr with
          usedIoEntries := mgr.usedIoEntries + entryCount config submission
          nextRequestId := mgr.nextRequestId + UInt64.ofNat
            (requestsOf config routing submission mgr.nextRequestId).length
          activeTasks := mgr.activeTasks.emplace submission.taskId
            (activeTask submission (entryCount config submission)
              (requestsOf config routing submission mgr.nextRequestId).length) }
        (requestsOf config routing submission mgr.nextRequestId)) := by
  unfold planSubmission
  split
  · exact .inl ⟨.Timeout, rfl, rfl⟩
  dsimp only
  rw [SizeT.sub_eq hu config.fits]
  split
  · exact .inl ⟨.NoSpace, rfl, rfl⟩
  have hl : mgr.usedIoEntries + entryCount config submission ≤ config.maxIoEntries := by
    unfold entryCount
    omega
  refine .inr ⟨hl, ?_⟩
  have ha : SizeT.add mgr.usedIoEntries (normalizeInput config submission.input).length =
      mgr.usedIoEntries + (normalizeInput config submission.input).length :=
    SizeT.add_eq (hl.trans_lt config.fits)
  rw [ha]
  rfl

theorem plan_step (kept : TaskBooks.Kept config routing s.books) {submission : Submission}
    (busy : s.worker = .planning submission) (now : TimePoint) :
    TaskBooks.Step config routing s.books (s.plan config routing submission now).books := by
  have hw : s.waiting.Perm (submission :: (s.manager.submissions.contents ++ [])) := by
    unfold waiting
    rw [busy, append_nil]
    exact perm_append_singleton _ _
  have ho : s.openRequests = s.outstanding ++ s.answered ++ s.discarded := by
    unfold openRequests
    rw [busy]
    rfl
  unfold plan
  rcases planSubmission_cases config routing submission now kept.counted.used_le with ⟨status, hf, he⟩ | ⟨hr, he⟩
  · have hs : TaskBooks.Step config routing s.books _ :=
      .refuse submission status _ hw hf
    rw [show planSubmission config routing submission now s.manager = _ from he]
    change TaskBooks.Step config routing _
      { waiting := _, active := _, used := _, openRequests := s.openRequests, history := _ } at hs
    rw [ho] at hs
    exact hs
  have hm : (requestsOf config routing submission s.manager.nextRequestId ++
      s.openRequests).Perm (requestsOf config routing submission s.manager.nextRequestId ++
          s.outstanding ++ s.answered ++ s.discarded) := by
    rw [ho]
    simp only [append_assoc]
    exact .refl _
  have hs : TaskBooks.Step config routing s.books _ :=
    .plan submission s.manager.nextRequestId _ _ hw hr hm
  rw [show planSubmission config routing submission now s.manager = _ from he]
  exact hs

theorem step_books (wired : Wired config answers s) (kept : TaskBooks.Kept config routing s.books)
    (hs : Step config routing answers s t) : TaskBooks.Step config routing s.books t.books := by
  have hsh : ∀ n : Service, n.manager.activeTasks = s.manager.activeTasks →
      n.manager.usedIoEntries = s.manager.usedIoEntries → n.history = s.history →
      s.waiting.Perm n.waiting → s.openRequests.Perm n.openRequests →
      TaskBooks.Step config routing s.books n.books := by
    intro n ha hu hh hw hop
    have hs : TaskBooks.Step config routing s.books _ :=
      .shuffle n.waiting n.openRequests hw hop
    unfold books at hs ⊢
    rw [ha, hu, hh]
    exact hs
  cases hs with
  | enqueue su a =>
    have hn : su.taskId ∉ acceptedIds s.history := fun ho =>
      (nodup_append.1 wired.distinct).2.2 _ (mem_map_of_mem a) _ ho rfl
    unfold enqueue
    dsimp only
    split
    · split
      · rename_i hpu
        refine .accept su _ hn ?_
        unfold books waiting
        dsimp only [observe]
        rw [contents_of_push hpu]
        refine List.Perm.trans ?_ (perm_append_comm.append_right _)
        exact .refl _
      · exact .reject su .NoSpace
    · exact .reject su (.Error "TaskManager is stopping")
  | publish b re ow an =>
    have hp : ∀ an d : List Request, (s.answered ++ s.discarded ++ b.map Prod.fst).Perm (an ++ d) →
        s.openRequests.Perm (s.worker.requests ++ re ++ an ++ d) := by
      intro an d hm
      refine perm_iff_count.2 fun r => ?_
      have hc := hm.count_eq r
      have how := ow.count_eq r
      simp only [openRequests, count_append] at hc how ⊢
      omega
    unfold publish
    dsimp only
    split
    · obtain ⟨c, _, _, he⟩ := foldl_deliver b { s with outstanding := re } (by
        rw [wired.capacity]
        exact room wired kept ow)
      rw [he]
      refine hsh _ rfl rfl rfl (.refl _) (hp _ _ ?_)
      rw [append_assoc, append_assoc]
      exact perm_append_comm.append_left _
    · refine hsh _ rfl rfl rfl (.refl _) (hp _ _ ?_)
      rw [append_assoc]
  | takeCompletion _ _ _ _ idle _ _ first =>
    refine hsh _ rfl rfl rfl ?_ ?_
    · unfold waiting
      rw [idle]
      exact .refl _
    refine perm_iff_count.2 fun o => ?_
    simp only [openRequests, Worker.requests, idle, first, count_append, count_cons, count_nil]
    omega
  | takeSubmission _ subm idle _ _ p =>
    refine hsh _ rfl rfl rfl ?_ ?_
    · unfold waiting
      rw [idle, (contents_of_pop p).1]
      exact (perm_append_singleton _ _).symm.trans (by simp [Worker.submissions])
    · unfold openRequests
      rw [idle]
      exact .refl _
  | complete _ e busy =>
    rw [(wired.inHand busy).taskId]
    refine complete_step kept e.status e.entryResults (by rw [busy]; rfl) ?_
    unfold openRequests
    rw [busy]
    exact .refl _
  | plan _ now busy => exact plan_step kept busy now
  | submit _ _ st busy =>
    unfold submit
    split
    · refine complete_step kept st [] (by rw [busy]; rfl) ?_
      unfold openRequests
      rw [busy]
      exact .refl _
    refine hsh _ rfl rfl rfl ?_ ?_
    · unfold waiting
      rw [busy]
      exact .refl _
    refine perm_iff_count.2 fun o => ?_
    simp only [openRequests, Worker.requests, busy, count_append, count_cons, count_nil]
    omega
  | done busy =>
    refine hsh _ rfl rfl rfl ?_ ?_
    · unfold waiting
      rw [busy]
      exact .refl _
    · unfold openRequests
      rw [busy]
      exact .refl _
  | _ => exact hsh _ rfl rfl rfl (.refl _) (.refl _)

theorem Wired.frame (h : Wired config answers s) (han : t.answered = s.answered)
    (hc : t.manager.completions = s.manager.completions)
    (hr : t.manager.accepting = true → t.discarded = []) (ha : t.arriving = s.arriving)
    (hd : acceptedIds t.history = acceptedIds s.history)
    (hn : t.manager.nextTaskId = s.manager.nextTaskId)
    (hw : ∀ {request event}, t.worker = .completing request event → Answers answers request event) :
    Wired config answers t where
  queued := by
    rw [han, hc]
    exact h.queued
  inHand := hw
  capacity := by
    rw [hc]
    exact h.capacity
  reliable := hr
  distinct := by
    rw [ha, hd]
    exact h.distinct
  below := by
    rw [ha, hd, hn]
    exact h.below

theorem completeRequest_frame (manager : TaskManager) (taskId : TaskId) (status : Status)
    (results : List EntryResult) :
    (manager.completeRequest taskId status results).1.completions = manager.completions ∧
    (manager.completeRequest taskId status results).1.accepting = manager.accepting ∧
    (manager.completeRequest taskId status results).1.nextTaskId = manager.nextTaskId := by
  unfold completeRequest
  split
  · exact ⟨rfl, rfl, rfl⟩
  · dsimp only
    split <;> exact ⟨rfl, rfl, rfl⟩

section
variable (h : Wired config answers s)
include h

theorem Wired.complete {worker : Worker} (request : Request) (taskId : TaskId) (status : Status)
    (results : List EntryResult) (hw : ∀ request e, worker ≠ .completing request e) :
    Wired config answers (({ s with worker := worker } : Service).complete request taskId status
    results) := by
  obtain ⟨hc, ha, hn⟩ :=
    completeRequest_frame s.manager taskId status results
  unfold Service.complete
  dsimp only
  split
  all_goals
    refine h.frame rfl hc ?_ rfl rfl hn fun hb => absurd hb (hw _ _)
    intro ho
    exact h.reliable (ha.symm.trans ho)

theorem Wired.enqueue {submission : Submission} (a : submission ∈ s.arriving) :
    Wired config answers (s.enqueue submission) := by
  have hp := perm_cons_erase a
  have hv : (s.arriving.map Submission.taskId ++ acceptedIds s.history).Perm
      ((s.arriving.erase submission).map Submission.taskId ++
        submission.taskId :: acceptedIds s.history) :=
    ((hp.map Submission.taskId).append_right _).trans perm_middle.symm
  have hs : ((s.arriving.erase submission).map Submission.taskId ++ acceptedIds s.history).Sublist
        ((s.arriving.erase submission).map Submission.taskId ++
          submission.taskId :: acceptedIds s.history) :=
    (sublist_cons_self _ _).append_left _
  have hd := hv.nodup_iff.1 h.distinct
  have hb : ∀ ta ∈ (s.arriving.erase submission).map Submission.taskId ++
      submission.taskId :: acceptedIds s.history, ta < s.manager.nextTaskId :=
    fun ta hm => h.below ta (hv.mem_iff.2 hm)
  unfold Service.enqueue
  dsimp only
  split
  · split
    · exact { h with distinct := hd, below := hb }
    · exact { h with distinct := hd.sublist hs, below := fun ta hm => hb ta (hs.subset hm) }
  · exact { h with distinct := hd.sublist hs, below := fun ta hm => hb ta (hs.subset hm) }

theorem Wired.publish (kept : TaskBooks.Kept config routing s.books)
    {batch : List (Request × RequestCompleted)} {rest : List Request}
    (owed : s.outstanding.Perm (batch.map Prod.fst ++ rest))
    (answered : ∀ an ∈ batch, Answers answers an.1 an.2) :
    Wired config answers (s.publish batch rest) := by
  unfold Service.publish
  dsimp only
  split
  · obtain ⟨c, hc, hs, he⟩ :=
      foldl_deliver batch { s with outstanding := rest } (by
        rw [h.capacity]
        exact room h kept owed)
    rw [he]
    refine { h with queued := ?_, capacity := hs.trans h.capacity }
    rw [hc]
    refine rel_append h.queued ?_
    rw [forall₂_map_left_iff, forall₂_map_right_iff, forall₂_same]
    exact answered
  · rename_i hp
    exact { h with reliable := fun ho => absurd ho hp }

theorem Wired.allocate (op : OpType) (input : TaskInput) (now : TimePoint) :
    Wired config answers (s.allocate config op input now) where
  queued := h.queued
  inHand := h.inHand
  capacity := h.capacity
  reliable := h.reliable
  distinct := nodup_cons.2 ⟨fun ho => Nat.lt_irrefl _ (h.below _ ho), h.distinct⟩
  below taskId hm := by
    obtain he | ho := mem_cons.1 hm
    · exact he ▸ Nat.lt_succ_self _
    · exact Nat.lt_succ_of_lt (h.below taskId ho)

theorem Wired.plan (kept : TaskBooks.Kept config routing s.books) (submission : Submission)
    (now : TimePoint) : Wired config answers (s.plan config routing submission now) := by
  unfold Service.plan
  rcases planSubmission_cases config routing submission now kept.counted.used_le with
    ⟨status, _, he⟩ | ⟨_, he⟩
  all_goals
    rw [show planSubmission config routing submission now s.manager = _ from he]
    exact h.frame rfl rfl h.reliable rfl rfl rfl fun hb => by cases hb

theorem Wired.step (k : TaskBooks.Kept config routing s.books)
    (hs : Step config routing answers s t) : Wired config answers t := by
  cases hs with
  | allocate op i now => exact h.allocate op i now
  | enqueue _ a => exact h.enqueue a
  | publish _ _ o an => exact h.publish k o an
  | shutdown => exact h.frame rfl rfl (fun ho => by cases ho) rfl rfl rfl h.inHand
  | takeCompletion _ _ _ _ _ _ p first =>
    obtain ⟨hc, hl⟩ := contents_of_pop p
    have hq := h.queued
    rw [first, hc] at hq
    obtain ⟨hf, hr⟩ := forall₂_cons.1 hq
    refine ⟨hr, ?_, hl.trans h.capacity, h.reliable, h.distinct, h.below⟩
    rintro _ _ ⟨⟩
    exact hf
  | takeSubmission =>
    exact h.frame rfl rfl h.reliable rfl rfl rfl fun hb => by cases hb
  | complete r e =>
    exact h.complete r e.taskId e.status e.entryResults (by simp)
  | plan su now => exact h.plan k su now
  | submit r _ st =>
    unfold Service.submit
    split
    · exact h.complete r r.taskId st [] (by simp)
    · exact h.frame rfl rfl h.reliable rfl rfl rfl fun hb => by cases hb
  | done b => exact h.frame rfl rfl h.reliable rfl rfl rfl fun hb => by cases hb

end

theorem reachable_kept (h : Transition.Reachable (system config routing answers) s) :
    Wired config answers s ∧ TaskBooks.Kept config routing s.books := by
  refine Transition.Reachable.invariant (I := fun s =>
    Wired config answers s ∧ TaskBooks.Kept config routing s.books) ?_ ?_ h
  · rintro _ rfl
    exact ⟨.start, .start⟩
  · intro s _ t _ hs ht
    exact ⟨hs.1.step hs.2 ht, hs.2.step (step_books hs.1 hs.2 ht)⟩

end Service
end UnifiedCache.Dram
