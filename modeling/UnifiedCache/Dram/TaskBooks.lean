import UnifiedCache.Dram.TaskManager
import UnifiedCache.Lib.Ledger

/-! What the task manager keeps books about, without its queues and threads:
tasks that wait, tasks that are active, requests that are open, and what has been
observed so far, newest first. -/
namespace UnifiedCache.Dram
open List TaskManager Table Submission

inductive TaskObservation where
  | rejected (submission : Submission) (status : Status)
  | accepted (submission : Submission)
  | admitted (submission : Submission) (requests : List Request)
  | completed (request : Request) (status : Status) (results : List EntryResult)
  | fulfilled (taskId : TaskId) (result : TaskResult)
  deriving DecidableEq

structure TaskBooks where
  waiting : List Submission := []
  active : Table TaskId ActiveTask := .empty
  used : Nat := 0
  openRequests : List Request := []
  history : List TaskObservation := []

namespace TaskBooks

def acceptedIds (history : List TaskObservation) : List TaskId :=
  history.filterMap fun
    | .accepted submission => some submission.taskId
    | _ => none

def fulfilledIds (history : List TaskObservation) : List TaskId :=
  history.filterMap fun
    | .fulfilled taskId _ => some taskId
    | _ => none

def issued (history : List TaskObservation) : List Request :=
  history.flatMap fun
    | .admitted _ requests => requests
    | _ => []

def completed (history : List TaskObservation) : List Request :=
  history.filterMap fun
    | .completed request _ _ => some request
    | _ => none

def ofTask (taskId : TaskId) (requests : List Request) : List Request :=
  requests.filter fun request => request.taskId = taskId

def outcomes (taskId : TaskId) (history : List TaskObservation) :
    List (Status × List EntryResult) :=
  history.reverse.filterMap fun
    | .completed request status results =>
      if request.taskId = taskId then some (status, results) else none
    | _ => none

def aggregate (task : ActiveTask) (outcomes : List (Status × List EntryResult)) : ActiveTask :=
  outcomes.foldl (fun task outcome => settleRequest outcome.1 outcome.2 task) task

variable (config : TaskManagerConfig) (routing : Routing)

def entryCount (submission : Submission) : Nat := (normalizeInput config submission.input).length

def requestsOf (submission : Submission) (first : RequestId) : List Request :=
  numberRequests submission first
    (buildRequests config routing submission.op (normalizeInput config submission.input)
      submission.deadline)

inductive Step (b : TaskBooks) : TaskBooks → Prop where
  /-- Something moves from one queue or thread to another. -/
  | shuffle (waiting : List Submission) (openRequests : List Request)
      (hwaiting : b.waiting.Perm waiting) (hopen : b.openRequests.Perm openRequests) :
      Step b { b with waiting := waiting, openRequests := openRequests }
  | reject (submission : Submission) (status : Status) :
      Step b { b with history := .rejected submission status :: b.history }
  | accept (submission : Submission) (waiting : List Submission)
      (new : submission.taskId ∉ acceptedIds b.history)
      (hwaiting : (submission :: b.waiting).Perm waiting) :
      Step b { b with waiting := waiting, history := .accepted submission :: b.history }
  | refuse (submission : Submission) (status : Status) (waiting : List Submission)
      (hwaiting : b.waiting.Perm (submission :: waiting)) (failed : status.failure = true) :
      Step b { b with
        waiting := waiting
        history := .fulfilled submission.taskId { status := status } :: b.history }
  | plan (submission : Submission) (first : RequestId) (waiting : List Submission)
      (openRequests : List Request) (hwaiting : b.waiting.Perm (submission :: waiting))
      (room : b.used + entryCount config submission ≤ config.maxIoEntries)
      (hopen : (requestsOf config routing submission first ++ b.openRequests).Perm openRequests) :
      Step b
        { waiting := waiting
          active := b.active.emplace submission.taskId (activeTask submission
            (entryCount config submission) (requestsOf config routing submission first).length)
          used := b.used + entryCount config submission
          openRequests := openRequests
          history := .admitted submission (requestsOf config routing submission first) ::
            b.history }
  | settle (request : Request) (status : Status) (results : List EntryResult) (task : ActiveTask)
      (openRequests : List Request) (hopen : b.openRequests.Perm (request :: openRequests))
      (found : (request.taskId, task) ∈ b.active.entries) (more : 1 < task.remainingRequests) :
      Step b { b with
        active := b.active.modify request.taskId (settleRequest status results)
        openRequests := openRequests
        history := .completed request status results :: b.history }
  | finish (request : Request) (status : Status) (results : List EntryResult) (task : ActiveTask)
      (openRequests : List Request) (hopen : b.openRequests.Perm (request :: openRequests))
      (found : (request.taskId, task) ∈ b.active.entries) (last : task.remainingRequests = 1) :
      Step b { b with
        active := b.active.erase request.taskId
        used := b.used - task.entryCount
        openRequests := openRequests
        history :=
          .fulfilled request.taskId (resultOf (settleRequest status results task)) ::
            .completed request status results :: b.history }

variable {config} {routing}

/-! Every accepted task waits, is active or has its promise fulfilled. -/

structure Placed (b : TaskBooks) : Prop where
  distinct : (acceptedIds b.history).Nodup
  partition : (b.waiting.map Submission.taskId ++ b.active.keys ++ fulfilledIds b.history).Perm
    (acceptedIds b.history)

namespace Placed
variable {b next : TaskBooks}

theorem nodup (h : Placed b) :
    (b.waiting.map taskId ++ b.active.keys ++ fulfilledIds b.history).Nodup :=
  h.partition.nodup_iff.2 h.distinct

theorem fresh (h : Placed b) {submission : Submission} (hm : submission ∈ b.waiting) :
    submission.taskId ∉ b.active.keys ∧ submission.taskId ∉ fulfilledIds b.history := by
  have hn := h.nodup
  rw [append_assoc, nodup_append] at hn
  have hid : submission.taskId ∈ b.waiting.map taskId := mem_map_of_mem hm
  refine ⟨fun ha => ?_, fun hd => ?_⟩
  · exact hn.2.2 _ hid _ (mem_append_left _ ha) rfl
  · exact hn.2.2 _ hid _ (mem_append_right _ hd) rfl

theorem not_fulfilled (h : Placed b) {taskId : TaskId} (ha : taskId ∈ b.active.keys) :
    taskId ∉ fulfilledIds b.history := by
  intro hd
  exact (nodup_append.1 h.nodup).2.2 _ (mem_append_right _ ha) _ hd rfl

theorem start : Placed {} where
  distinct := nodup_nil
  partition := .refl _

theorem step (h : Placed b) (hs : Step config routing b next) : Placed next := by
  cases hs with
  | shuffle _ _ hw =>
    refine ⟨h.distinct, List.Perm.trans ?_ h.partition⟩
    exact ((hw.symm.map _).append_right _).append_right _
  | reject => exact ⟨h.distinct, h.partition⟩
  | accept submission _ new hw =>
    refine ⟨nodup_cons.2 ⟨new, h.distinct⟩, ?_⟩
    refine List.Perm.trans ?_ (h.partition.cons submission.taskId)
    exact ((hw.symm.map taskId).append_right _).append_right _
  | refuse _ _ _ hw =>
    refine ⟨h.distinct, List.Perm.trans ?_ h.partition⟩
    refine perm_middle.trans ?_
    exact ((hw.symm.map taskId).append_right _).append_right _
  | plan _ _ _ _ hw =>
    have hf := (h.fresh (hw.mem_iff.2 mem_cons_self)).1
    refine ⟨h.distinct, List.Perm.trans ?_ h.partition⟩
    refine List.Perm.append_right _ ?_
    rw [keys_emplace _ hf, ← append_assoc]
    refine (perm_append_singleton _ _).trans ?_
    exact (hw.symm.map taskId).append_right _
  | settle =>
    refine ⟨h.distinct, ?_⟩
    rw [keys_modify]
    exact h.partition
  | finish req _ _ _ _ _ f =>
    refine ⟨h.distinct, List.Perm.trans ?_ h.partition⟩
    have hk : (b.waiting.map taskId ++ b.active.keys).Perm
        (req.taskId :: (b.waiting.map taskId ++ (b.active.erase req.taskId).keys)) :=
      ((keys_perm_erase f).append_left _).trans perm_middle
    exact perm_middle.trans (hk.symm.append_right (fulfilledIds b.history))

end Placed

/-! Requests: how many there are, and what became of them. -/

theorem batchLimit_pos (config : TaskManagerConfig) : 0 < batchLimit config :=
  Nat.lt_min.2 ⟨config.batching, by decide⟩

def placements (config : TaskManagerConfig) (routing : Routing) (entries : List IoEntry) :
    List (NodeId × List Nat) :=
  (routing.routeKeys (entries.map fun entry => entry.blockId.toList)).flatMap fun routed =>
    (Chunks.chunks (batchLimit config) routed.2).map fun batch => (routed.1, batch)

theorem buildRequests_eq (op : OpType) (entries : List IoEntry) (deadline : TimePoint) :
    buildRequests config routing op entries deadline =
      (placements config routing entries).map fun placed =>
        { nodeId := placed.1, op := op, entries := placed.2.filterMap (entries[·]?)
          deadline := deadline } := by
  unfold buildRequests placements
  rw [map_flatMap]
  simp only [map_map, Function.comp_def]

variable (config routing) in
theorem placements_perm (entries : List IoEntry) :
    ((placements config routing entries).flatMap Prod.snd).Perm (List.range entries.length) := by
  have hf : (placements config routing entries).flatMap Prod.snd =
      (routing.routeKeys (entries.map fun e => e.blockId.toList)).flatMap Prod.snd := by
    unfold placements
    rw [flatMap_assoc]
    refine flatMap_congr fun r _ => ?_
    rw [flatMap_map]
    exact flatMap_id'.trans (Chunks.flatten_chunks (batchLimit_pos config) r.2)
  rw [hf]
  simpa using routing.complete (entries.map fun e => e.blockId.toList)

variable {entries : List IoEntry} {placed : NodeId × List Nat}

theorem placements_ne_nil (h : placed ∈ placements config routing entries) : placed.2 ≠ [] := by
  obtain ⟨r, _, hm⟩ := mem_flatMap.1 h
  obtain ⟨ba, hb, rfl⟩ := mem_map.1 hm
  exact Chunks.chunks_ne_nil (batchLimit_pos config) hb

theorem filterMap_range (entries : List α) :
    (List.range entries.length).filterMap (entries[·]?) = entries := by
  induction entries using List.reverseRecOn with
  | nil => rfl
  | append_singleton entries e ih =>
    rw [length_append, length_singleton, range_succ, filterMap_append]
    have hs : (List.range entries.length).filterMap ((entries ++ [e])[·]?) =
        (List.range entries.length).filterMap (entries[·]?) := by
      apply filterMap_congr
      intro i hi
      exact List.getElem?_append_left (mem_range.1 hi)
    rw [hs, ih]
    simp

variable (config routing) in
theorem entries_buildRequests (op : OpType) (entries : List IoEntry) (d : TimePoint) :
    ((buildRequests config routing op entries d).flatMap Request.entries).Perm entries := by
  have he : (buildRequests config routing op entries d).map Request.entries =
      (placements config routing entries).map fun placed => placed.2.filterMap (entries[·]?) := by
    simp [buildRequests_eq]
  rw [flatMap_def, he, ← flatMap_def, ← filterMap_flatMap]
  have hp := (placements_perm config routing entries).filterMap (entries[·]?)
  rwa [filterMap_range] at hp

theorem routed_of_placed {i : Nat} (h : placed ∈ placements config routing entries)
    (hd : i ∈ placed.2) : ∃ indexes, (placed.1, indexes) ∈
        routing.routeKeys (entries.map fun e => e.blockId.toList) ∧ i ∈ indexes := by
  obtain ⟨r, hr, hm⟩ := mem_flatMap.1 h
  obtain ⟨ba, hb, rfl⟩ := mem_map.1 hm
  refine ⟨r.2, hr, ?_⟩
  rw [← Chunks.flatten_chunks (batchLimit_pos config) r.2]
  exact mem_flatten_of_mem hb hd

theorem length_le_flatMap {l : List (β × List α)} (h : ∀ i ∈ l, i.2 ≠ []) :
    l.length ≤ (l.flatMap Prod.snd).length := by
  induction l with
  | nil => exact Nat.zero_le _
  | cons i _ ih =>
    have ht := length_pos_iff.2 (h i mem_cons_self)
    have hr := ih fun other ho => h other (mem_cons_of_mem _ ho)
    rw [flatMap_cons, length_append, length_cons]
    omega

@[simp] theorem length_requestsOf (submission : Submission) (first : RequestId) :
    (requestsOf config routing submission first).length =
    (placements config routing (normalizeInput config submission.input)).length := by
  simp [requestsOf, numberRequests, buildRequests_eq]

variable (config routing) in
theorem requestsOf_sized (submission : Submission) (first : RequestId) :
    (requestsOf config routing submission first).length ≤ entryCount config submission ∧
      ((requestsOf config routing submission first).length = 0 →
        entryCount config submission = 0) := by
  have hp := (placements_perm config routing (normalizeInput config submission.input)).length_eq
  rw [length_range] at hp
  rw [length_requestsOf]
  unfold entryCount
  rw [← hp]
  refine ⟨length_le_flatMap fun placed h => placements_ne_nil h, fun hn => ?_⟩
  rw [length_eq_zero_iff.1 hn]
  rfl

theorem taskId_requestsOf {submission : Submission} {first : RequestId} {req : Request}
    (h : req ∈ requestsOf config routing submission first) : req.taskId = submission.taskId := by
  obtain ⟨i, _, rfl⟩ := mem_mapIdx.1 h
  rfl

@[simp] theorem entryCount_settleRequest (s : Status) (r : List EntryResult)
    (task : ActiveTask) : (settleRequest s r task).entryCount = task.entryCount := by
  unfold settleRequest
  dsimp only
  repeat' split
  all_goals rfl

@[simp] theorem remaining_settleRequest (s : Status) (r : List EntryResult) (task : ActiveTask) :
    (settleRequest s r task).remainingRequests = SizeT.sub task.remainingRequests 1 := by
  unfold settleRequest
  dsimp only
  repeat' split
  all_goals rfl

structure Counted (config : TaskManagerConfig) (b : TaskBooks) : Prop where
  ledger : Ledger.Balanced ActiveTask.remainingRequests b.active (b.openRequests.map Request.taskId)
  sized : ∀ {taskId task}, (taskId, task) ∈ b.active.entries →
    task.remainingRequests ≤ task.entryCount ∧ (task.remainingRequests = 0 → task.entryCount = 0)
  used : b.used = Ledger.total ActiveTask.entryCount b.active
  used_le : b.used ≤ config.maxIoEntries

namespace Counted
variable {b next : TaskBooks} {taskId : TaskId} {task : ActiveTask}

theorem start : Counted config {} where
  ledger := .empty
  sized h := absurd h not_mem_nil
  used := rfl
  used_le := Nat.zero_le _

theorem entryCount_le (h : Counted config b) (hm : (taskId, task) ∈ b.active.entries) :
    task.entryCount ≤ b.used := by
  rw [h.used, ← Ledger.total_erase hm]
  exact Nat.le_add_right _ _

theorem remaining_lt (h : Counted config b) (hm : (taskId, task) ∈ b.active.entries) :
    task.remainingRequests < SizeT.modulus := by
  have hs := (h.sized hm).1
  have hc := h.entryCount_le hm
  have hu := h.used_le
  have hf := config.fits
  omega

theorem remaining_settled (h : Counted config b) (hm : (taskId, task) ∈ b.active.entries)
    (hp : 0 < task.remainingRequests) (status : Status) (results : List EntryResult) :
    (settleRequest status results task).remainingRequests = task.remainingRequests - 1 := by
  rw [remaining_settleRequest, SizeT.sub_eq hp (h.remaining_lt hm)]

theorem length_open_le (h : Counted config b) : b.openRequests.length ≤ b.used := by
  have hl := h.ledger.length_eq
  rw [length_map] at hl
  rw [hl, h.used]
  exact Ledger.total_le fun e he => (h.sized he).1

theorem step (h : Counted config b) (placed : Placed b) (hs : Step config routing b next) :
    Counted config next := by
  cases hs with
  | shuffle _ _ _ hp =>
    exact { h with ledger := h.ledger.perm (hp.map _) }
  | plan submission first _ _ hw ro hp =>
    have hf := (placed.fresh (hw.mem_iff.2 mem_cons_self)).1
    refine ⟨?_, ?_, ?_, ro⟩
    · refine h.ledger.emplace hf ((hp.symm.map Request.taskId).trans ?_)
      rw [map_append]
      refine List.Perm.append_right _ (List.Perm.of_eq ?_)
      refine eq_replicate_iff.2 ⟨length_map _, ?_⟩
      intro other ht
      obtain ⟨req, hr, rfl⟩ := mem_map.1 ht
      exact taskId_requestsOf hr
    · intro taskId task hm
      rw [entries_emplace _ hf] at hm
      obtain ho | hn := mem_append.1 hm
      · exact h.sized ho
      · cases mem_singleton.1 hn
        exact requestsOf_sized config routing submission first
    · rw [Ledger.total_emplace _ hf, h.used]
      rfl
  | settle _ s r _ _ hp f =>
    have hl := h.remaining_settled f (by omega) s r
    refine ⟨?_, ?_, ?_, h.used_le⟩
    · exact h.ledger.modify f (hp.map Request.taskId) _ hl
    · intro taskId other hm
      obtain ht | he := mem_modify.1 hm
      · exact h.sized ht.2
      obtain ⟨rfl, old, ho, rfl⟩ := he
      cases eq_of_mem ho f
      rw [hl, entryCount_settleRequest]
      have hsi := h.sized f
      omega
    · rw [h.used, Ledger.total_modify]
      exact fun v => entryCount_settleRequest s r v
  | finish _ _ _ _ _ hp f l =>
    refine ⟨h.ledger.erase f (hp.map Request.taskId) l, ?_, ?_, ?_⟩
    · intro taskId other hm
      exact h.sized (mem_erase.1 hm).2
    · rw [h.used, ← Ledger.total_erase f, Nat.add_sub_cancel_left]
    · exact (Nat.sub_le _ _).trans h.used_le
  | _ => exact { h with }

end Counted

/-! The history accounts for every request and explains every task. -/

@[simp]
theorem outcomes_cons (taskId : TaskId) (o : TaskObservation) (history : List TaskObservation) :
    outcomes taskId (o :: history) = outcomes taskId history ++ match o with
      | .completed req status results =>
        if req.taskId = taskId then [(status, results)] else []
      | _ => [] := by
  unfold outcomes
  rw [reverse_cons, filterMap_append]
  congr 1
  cases o with
  | completed req => by_cases h : req.taskId = taskId <;> simp [h]
  | _ => rfl

variable {taskId : TaskId}

theorem outcomes_eq_nil {history : List TaskObservation} (h : ∀ req ∈ completed history,
    req.taskId ≠ taskId) : outcomes taskId history = [] := by
  refine filterMap_eq_nil_iff.2 fun o ho => ?_
  cases o with
  | completed req =>
    refine if_neg (h req ?_)
    exact mem_filterMap.2 ⟨_, mem_reverse.1 ho, rfl⟩
  | _ => rfl

@[simp] theorem aggregate_append (task : ActiveTask) (outcomes more : List
    (Status × List EntryResult)) :
    aggregate task (outcomes ++ more) = aggregate (aggregate task outcomes) more :=
  foldl_append

@[simp] theorem ofTask_append (taskId : TaskId) (requests more : List Request) :
    ofTask taskId (requests ++ more) = ofTask taskId requests ++ ofTask taskId more :=
  filter_append requests more

variable {requests : List Request}

theorem ofTask_eq_nil (h : ∀ req ∈ requests, req.taskId ≠ taskId) : ofTask taskId requests = [] :=
  filter_eq_nil_iff.2 fun req hm => by simpa using h req hm

theorem ofTask_eq_self (h : ∀ req ∈ requests, req.taskId = taskId) :
    ofTask taskId requests = requests :=
  filter_eq_self.2 fun req hm => by simpa using h req hm

/-- The task of `submission` as its requests have come out so far. -/
def progress (config : TaskManagerConfig) (submission : Submission) (requests : List Request)
    (history : List TaskObservation) : ActiveTask :=
  aggregate (activeTask submission (entryCount config submission) requests.length)
    (outcomes submission.taskId history)

structure Traced (config : TaskManagerConfig) (routing : Routing) (b : TaskBooks) : Prop where
  requests : (issued b.history).Perm (completed b.history ++ b.openRequests)
  planned : ∀ {submission requests}, .admitted submission requests ∈ b.history →
    (∃ first, requests = requestsOf config routing submission first) ∧
      ofTask submission.taskId (issued b.history) = requests ∧
      (submission.taskId ∈ b.active.keys ∨
        submission.taskId ∈ fulfilledIds b.history ∧ requests ≠ [])
  tasks : ∀ {taskId task}, (taskId, task) ∈ b.active.entries →
    ∃ submission requests, .admitted submission requests ∈ b.history ∧
      submission.taskId = taskId ∧ task = progress config submission requests b.history
  promises : ∀ {taskId result}, .fulfilled taskId result ∈ b.history →
    (result.status.failure = true ∧ ofTask taskId (issued b.history) = []) ∨
    ∃ submission requests, .admitted submission requests ∈ b.history ∧
      submission.taskId = taskId ∧ ofTask taskId b.openRequests = [] ∧
      result = resultOf (progress config submission requests b.history)

namespace Traced
variable {b next : TaskBooks}

theorem start : Traced config routing {} where
  requests := .refl _
  planned h := absurd h not_mem_nil
  tasks h := absurd h not_mem_nil
  promises h := absurd h not_mem_nil

variable {req : Request}

theorem origin (h : Traced config routing b) (hm : req ∈ issued b.history) :
    req.taskId ∈ b.active.keys ∨ req.taskId ∈ fulfilledIds b.history := by
  obtain ⟨o, ho, hr⟩ := mem_flatMap.1 hm
  cases o with
  | admitted =>
    obtain ⟨⟨first, rfl⟩, _, hp⟩ := h.planned ho
    rw [taskId_requestsOf hr]
    exact hp.imp_right And.left
  | _ => exact absurd hr not_mem_nil

variable {sub : Submission}

theorem unknown (h : Traced config routing b) (placed : Placed b) (hm : sub ∈ b.waiting)
    (hs : req ∈ issued b.history) : req.taskId ≠ sub.taskId := by
  intro hsa
  obtain ⟨ha, hd⟩ := placed.fresh hm
  rw [← hsa] at ha hd
  exact (h.origin hs).elim ha hd

variable {o : TaskObservation}

theorem progress_cons (sub : Submission) (requests : List Request) (history : List TaskObservation)
    (h : ∀ req s r, o = .completed req s r → req.taskId ≠ sub.taskId) : progress config sub requests
    (o :: history) = progress config sub requests history := by
  unfold progress
  rw [outcomes_cons]
  cases o with
  | completed req s r =>
    dsimp only
    rw [if_neg (h req s r rfl), append_nil]
  | _ => rw [append_nil]

theorem progress_completed (status : Status) (results : List EntryResult) (requests : List Request)
    (history : List TaskObservation) (h : sub.taskId = req.taskId) : progress config sub requests
    (.completed req status results :: history) = settleRequest status results
    (progress config sub requests history) := by
  unfold progress
  rw [outcomes_cons]
  dsimp only
  rw [if_pos h.symm, aggregate_append]
  rfl

theorem later {P : ActiveTask → Prop} {history : List TaskObservation}
    (h : ∃ sub requests, .admitted sub requests ∈ history ∧ sub.taskId = taskId ∧
      P (progress config sub requests history))
    (hn : ∀ req s r, o = .completed req s r → req.taskId ≠ taskId) :
    ∃ sub requests, .admitted sub requests ∈ o :: history ∧ sub.taskId = taskId ∧
      P (progress config sub requests (o :: history)) := by
  obtain ⟨sub, requests, ha, rfl, hp⟩ := h
  refine ⟨sub, requests, mem_cons_of_mem _ ha, rfl, ?_⟩
  rwa [progress_cons sub requests _ hn]

variable {waiting : List Submission} {openRequests : List Request}

theorem step_shuffle (h : Traced config routing b) (ho : b.openRequests.Perm openRequests) :
    Traced config routing { b with waiting := waiting, openRequests := openRequests } where
  requests := h.requests.trans (ho.append_left _)
  planned := h.planned
  tasks := h.tasks
  promises hm := by
    refine (h.promises hm).imp_right ?_
    rintro ⟨sub, requests, ha, hd, hn, hr⟩
    refine ⟨sub, requests, ha, hd, ?_, hr⟩
    exact perm_nil.1 (hn ▸ (ho.filter _).symm)

theorem step_silent (h : Traced config routing b) (s : (∃ sub, o = .accepted sub) ∨
      ∃ sub st, o = .rejected sub st) :
    Traced config routing { b with waiting := waiting, history := o :: b.history } := by
  have hn : ∀ {taskId} req st r, o = .completed req st r → req.taskId ≠ taskId := by
    rintro _ req st r rfl
    simp at s
  have hs : issued (o :: b.history) = issued b.history := by
    rcases s with ⟨_, rfl⟩ | ⟨_, _, rfl⟩ <;> rfl
  have hc : completed (o :: b.history) = completed b.history := by
    rcases s with ⟨_, rfl⟩ | ⟨_, _, rfl⟩ <;> rfl
  have hf : fulfilledIds (o :: b.history) = fulfilledIds b.history := by
    rcases s with ⟨_, rfl⟩ | ⟨_, _, rfl⟩ <;> rfl
  refine ⟨?_, ?_, ?_, ?_⟩
  · rw [hs, hc]
    exact h.requests
  · intro sub requests hm
    rw [hs, hf]
    obtain he | ho := mem_cons.1 hm
    · simp [← he] at s
    · exact h.planned ho
  · intro taskId task hm
    exact later (P := (task = ·)) (h.tasks hm) hn
  intro taskId re hm
  rw [hs]
  obtain he | ho := mem_cons.1 hm
  · simp [← he] at s
  · exact (h.promises ho).imp_right fun hp => later (P := fun t => _ ∧ re = resultOf t) hp hn

theorem step_refuse (h : Traced config routing b) (placed : Placed b) {status : Status}
    (hm : sub ∈ b.waiting) (f : status.failure = true) : Traced config routing { b with
      waiting := waiting
      history := .fulfilled sub.taskId { status := status } :: b.history } where
  requests := h.requests
  planned ha := by
    obtain ⟨hf, hw, hp⟩ :=
      h.planned ((mem_cons.1 ha).resolve_left (by simp))
    exact ⟨hf, hw, hp.imp_right (And.imp_left (mem_cons_of_mem _))⟩
  tasks {_ task} hc := later (P := (task = ·)) (h.tasks hc) nofun
  promises {_ re} hd := by
    obtain he | ho := mem_cons.1 hd
    · cases he
      exact .inl ⟨f, ofTask_eq_nil fun _ hs => h.unknown placed hm hs⟩
    · exact (h.promises ho).imp_right fun hp => later (P := fun t => _ ∧ re = resultOf t) hp nofun

theorem step_plan (h : Traced config routing b) (placed : Placed b) (first : RequestId) {used : Nat}
    (hm : sub ∈ b.waiting)
    (hop : (requestsOf config routing sub first ++ b.openRequests).Perm openRequests) :
    Traced config routing
      { waiting := waiting
        active := b.active.emplace sub.taskId (activeTask sub
          (entryCount config sub) (requestsOf config routing sub first).length)
        used := used
        openRequests := openRequests
        history := .admitted sub (requestsOf config routing sub first) ::
          b.history } := by
  obtain ⟨hf, hu⟩ := placed.fresh hm
  have hn : ∀ req ∈ requestsOf config routing sub first,
      req.taskId = sub.taskId := fun _ hr => taskId_requestsOf hr
  have ho : ∀ req ∈ issued b.history, req.taskId ≠ sub.taskId :=
    fun _ his => h.unknown placed hm his
  have hot : ∀ {taskId}, taskId ≠ sub.taskId →
      ofTask taskId (requestsOf config routing sub first ++ issued b.history) =
        ofTask taskId (issued b.history) := by
    intro taskId hne
    rw [ofTask_append, ofTask_eq_nil fun req hr =>
      (hn req hr).trans_ne hne.symm, nil_append]
  refine ⟨?_, ?_, ?_, ?_⟩
  · refine (h.requests.append_left _).trans ?_
    rw [← append_assoc]
    refine (perm_append_comm.append_right _).trans ?_
    rw [append_assoc]
    exact hop.append_left _
  · intro other requests ha
    rw [keys_emplace _ hf]
    obtain he | hb := mem_cons.1 ha
    · cases he
      refine ⟨⟨first, rfl⟩, ?_, .inl (mem_append_right _ mem_cons_self)⟩
      refine (ofTask_append _ _ _).trans ?_
      rw [ofTask_eq_self hn]
      exact (congrArg _ (ofTask_eq_nil ho)).trans (append_nil _)
    obtain ⟨hfs, hw, hl⟩ := h.planned hb
    refine ⟨hfs, (hot ?_).trans hw, hl.imp_left (mem_append_left _)⟩
    intro hsa
    rw [hsa] at hl
    exact hl.elim hf fun hd => hu hd.1
  · intro taskId task hc
    rw [entries_emplace _ hf] at hc
    obtain hb | he := mem_append.1 hc
    · exact later (P := (task = ·)) (h.tasks hb) nofun
    cases mem_singleton.1 he
    refine ⟨sub, _, mem_cons_self, rfl, ?_⟩
    rw [progress_cons (o := .admitted _ _) _ _ _ nofun]
    unfold progress
    rw [outcomes_eq_nil]
    · rfl
    · exact fun req hd =>
        ho req (h.requests.mem_iff.2 (mem_append_left _ hd))
  · intro taskId r hd
    have hb := (mem_cons.1 hd).resolve_left (by simp)
    have hne : taskId ≠ sub.taskId := by
      rintro rfl
      exact hu (mem_filterMap.2 ⟨_, hb, rfl⟩)
    refine (h.promises hb).imp ?_ fun hp => ?_
    · exact fun hre => ⟨hre.1, (hot hne).trans hre.2⟩
    obtain ⟨other, requests, ha, hid, hno, hs⟩ :=
      later (o := .admitted _ _)
        (P := fun t => ofTask taskId b.openRequests = [] ∧ r = resultOf t) hp nofun
    refine ⟨other, requests, ha, hid, ?_, hs⟩
    refine perm_nil.1 ((hop.symm.filter _).trans (List.Perm.of_eq ?_))
    refine (ofTask_append _ _ _).trans ?_
    rw [hno, append_nil]
    exact ofTask_eq_nil fun req hr => (hn req hr).trans_ne hne.symm

theorem step_completed (h : Traced config routing b) (placed : Placed b) (status : Status)
    (results : List EntryResult) (ho : b.openRequests.Perm (req :: openRequests))
    (ha : req.taskId ∈ b.active.keys) : (issued b.history).Perm
    ((req :: completed b.history) ++ openRequests) ∧ ∀ {taskId re},
    .fulfilled taskId re ∈ b.history →
    (re.status.failure = true ∧ ofTask taskId (issued b.history) = []) ∨ ∃ sub requests,
    .admitted sub requests ∈ .completed req status results :: b.history ∧ sub.taskId = taskId ∧
    ofTask taskId openRequests = [] ∧
    re = resultOf (progress config sub requests (.completed req status results :: b.history)) := by
  refine ⟨(h.requests.trans (ho.append_left _)).trans perm_middle, ?_⟩
  intro taskId re hd
  refine (h.promises hd).imp_right fun hp => ?_
  obtain ⟨sub, requests, had, rfl, hn, hr⟩ :=
    later (o := .completed req status results) (P := fun t => _ ∧ re = resultOf t) hp <| by
      rintro _ _ _ ⟨⟩ rfl
      exact placed.not_fulfilled ha (mem_filterMap.2 ⟨_, hd, rfl⟩)
  refine ⟨sub, requests, had, rfl, ?_, hr⟩
  have hf := ho.filter fun other => other.taskId = sub.taskId
  rw [show b.openRequests.filter _ = [] from hn, nil_perm] at hf
  exact filter_eq_nil_iff.2 fun other ht => filter_eq_nil_iff.1 hf other (mem_cons_of_mem _ ht)

variable {task : ActiveTask}

theorem step_settle (h : Traced config routing b) (placed : Placed b) (status : Status)
    (results : List EntryResult) (hp : b.openRequests.Perm (req :: openRequests))
    (found : (req.taskId, task) ∈ b.active.entries) : Traced config routing { b with
      active := b.active.modify req.taskId (settleRequest status results)
      openRequests := openRequests
      history := .completed req status results :: b.history } := by
  obtain ⟨hr, hpr⟩ :=
    h.step_completed placed status results hp (mem_keys_of_mem found)
  refine ⟨hr, ?_, ?_, ?_⟩
  · intro sub requests ha
    rw [keys_modify]
    exact h.planned ((mem_cons.1 ha).resolve_left (by simp))
  · intro taskId other hm
    obtain hot | he := mem_modify.1 hm
    · refine later (P := (other = ·)) (h.tasks hot.2) ?_
      rintro _ _ _ ⟨⟩
      exact hot.1.symm
    obtain ⟨rfl, old, ho, rfl⟩ := he
    obtain ⟨sub, requests, ha, hid, ht⟩ := h.tasks ho
    refine ⟨sub, requests, mem_cons_of_mem _ ha, hid, ?_⟩
    rw [progress_completed status results requests _ hid, ← ht]
  intro taskId re hd
  exact hpr ((mem_cons.1 hd).resolve_left (by simp))

theorem step_finish (h : Traced config routing b) (placed : Placed b) (counted : Counted config b)
    (status : Status) (results : List EntryResult) {used : Nat}
    (hop : b.openRequests.Perm (req :: openRequests))
    (found : (req.taskId, task) ∈ b.active.entries) (last : task.remainingRequests = 1) :
    Traced config routing { b with
      active := b.active.erase req.taskId
      used := used
      openRequests := openRequests
      history :=
        .fulfilled req.taskId (resultOf (settleRequest status results task)) ::
          .completed req status results :: b.history } := by
  obtain ⟨hr, hp⟩ :=
    h.step_completed placed status results hop (mem_keys_of_mem found)
  refine ⟨hr, ?_, ?_, ?_⟩
  · intro sub requests ha
    have hb := (mem_cons.1 ((mem_cons.1 ha).resolve_left (by simp))).resolve_left (by simp)
    obtain ⟨hf, hw, hl⟩ := h.planned hb
    refine ⟨hf, hw, ?_⟩
    by_cases hs : sub.taskId = req.taskId
    · refine .inr ⟨hs ▸ mem_cons_self, ?_⟩
      rw [← hw]
      refine ne_nil_of_mem (mem_filter.2 ⟨?_, decide_eq_true hs.symm⟩)
      exact hr.mem_iff.2 (mem_append_left _ mem_cons_self)
    refine hl.imp ?_ (And.imp_left (mem_cons_of_mem _))
    intro hk
    obtain ⟨other, ho⟩ := mem_keys_iff.1 hk
    exact mem_keys_iff.2 ⟨other, mem_erase.2 ⟨hs, ho⟩⟩
  · intro taskId other hm
    obtain ⟨hne, hm⟩ := mem_erase.1 hm
    refine later (P := (other = ·)) (later (P := (other = ·)) (h.tasks hm) ?_) nofun
    rintro _ _ _ ⟨⟩
    exact hne.symm
  intro taskId re hd
  obtain he | hrs := mem_cons.1 hd
  · cases he
    obtain ⟨sub, requests, ha, hid, ht⟩ := h.tasks found
    refine .inr ⟨sub, requests, mem_cons_of_mem _ (mem_cons_of_mem _ ha), hid, ?_, ?_⟩
    · -- The counter was one, and the open request it stood for is the one that came out.
      have hc := counted.ledger.count_of_mem found
      rw [(hop.map Request.taskId).count_eq, map_cons, count_cons_self, last] at hc
      refine ofTask_eq_nil fun other ho hs => ?_
      have hn : (openRequests.map Request.taskId).count req.taskId = 0 := by omega
      exact List.count_eq_zero.1 hn (hs ▸ mem_map_of_mem ho)
    · rw [progress_cons (o := .fulfilled _ _) _ _ _ nofun, progress_completed status results requests _ hid, ← ht]
  refine (hp ((mem_cons.1 hrs).resolve_left (by simp))).imp_right fun hx => ?_
  exact later (P := fun t => _ ∧ re = resultOf t) hx nofun

theorem step (h : Traced config routing b) (placed : Placed b) (c : Counted config b)
    (hs : TaskBooks.Step config routing b next) : Traced config routing next := by
  cases hs with
  | shuffle _ _ _ ho => exact h.step_shuffle ho
  | reject sub status => exact h.step_silent (.inr ⟨sub, status, rfl⟩)
  | accept sub => exact h.step_silent (.inl ⟨sub, rfl⟩)
  | refuse _ _ _ hw f =>
    exact h.step_refuse placed (hw.mem_iff.2 mem_cons_self) f
  | plan _ first _ _ hw _ ho =>
    exact h.step_plan placed first (hw.mem_iff.2 mem_cons_self) ho
  | settle _ status r _ _ ho fo =>
    exact h.step_settle placed status r ho fo
  | finish _ status r _ _ ho fo l =>
    exact h.step_finish placed c status r ho fo l

end Traced

def AdmittedOnce (history : List TaskObservation) : Prop :=
  ∀ ⦃submission requests other more⦄, .admitted submission requests ∈ history →
    .admitted other more ∈ history → submission.taskId = other.taskId →
      submission = other ∧ requests = more

variable {b next : TaskBooks}

theorem AdmittedOnce.step (h : AdmittedOnce b.history) (placed : Placed b)
    (t : Traced config routing b) (hs : Step config routing b next) :
    AdmittedOnce next.history := by
  have silent : ∀ o : TaskObservation, (∀ submission requests, o ≠ .admitted submission requests) →
      ∀ history, AdmittedOnce history → AdmittedOnce (o :: history) := by
    intro o ho history hl submission requests other m hn ht
    exact hl ((mem_cons.1 hn).resolve_left (Ne.symm (ho _ _)))
      ((mem_cons.1 ht).resolve_left (Ne.symm (ho _ _)))
  cases hs with
  | shuffle => exact h
  | finish => exact silent _ (by simp) _ (silent _ (by simp) _ h)
  | plan submission _ waiting _ hw =>
    -- the tasks admitted before are active or answered, this one was still waiting
    obtain ⟨hc, hd⟩ := placed.fresh (hw.mem_iff.2 mem_cons_self)
    have hne : ∀ other m, .admitted other m ∈ b.history → other.taskId ≠ submission.taskId := by
      intro other m hm ha
      rcases (t.planned hm).2.2 with hp | ⟨hp, _⟩
      · exact hc (ha ▸ hp)
      · exact hd (ha ▸ hp)
    intro one requests other m hn ht ha
    rcases mem_cons.1 hn with hq | hn <;> rcases mem_cons.1 ht with he | ht
    · cases hq
      cases he
      exact ⟨rfl, rfl⟩
    · cases hq
      exact absurd ha.symm (hne _ _ ht)
    · cases he
      exact absurd ha (hne _ _ hn)
    · exact h hn ht ha
  | _ => exact silent _ (by simp) _ h

structure Kept (config : TaskManagerConfig) (routing : Routing) (b : TaskBooks) : Prop where
  placed : Placed b
  counted : Counted config b
  traced : Traced config routing b
  once : AdmittedOnce b.history

theorem Kept.start : Kept config routing {} :=
  ⟨.start, .start, .start, fun _ _ _ _ h => absurd h not_mem_nil⟩

theorem Kept.step (h : Kept config routing b) (hs : Step config routing b next) :
    Kept config routing next :=
  ⟨h.placed.step hs, h.counted.step h.placed hs, h.traced.step h.placed h.counted hs,
    h.once.step h.placed h.traced hs⟩

end TaskBooks
end UnifiedCache.Dram
