import UnifiedCache.Dram.BoundedQueue
import UnifiedCache.Dram.Types
import UnifiedCache.Lib.Shares
import UnifiedCache.Lib.SizeT

/-! The executor that all actors of a client post their commands to: a queue and a
thread for each worker, and two counters under one lock that bound what is queued. -/
namespace UnifiedCache.Dram
open List Function

namespace TransportCommand

/-- `CommandNode`. -/
def node : TransportCommand → NodeId
  | .transmit token _ _ => token.nodeId
  | .connect nodeId _ _ _ => nodeId
  | .fenceEpoch nodeId _ _ => nodeId

def isFence : TransportCommand → Bool
  | .fenceEpoch _ _ _ => true
  | _ => false

def isConnect : TransportCommand → Bool
  | .connect _ _ _ _ => true
  | _ => false

def token? : TransportCommand → Option RequestToken
  | .transmit token _ _ => some token
  | _ => none

end TransportCommand

/-- Where the loop of `Run` stands: `popped` has taken a command from the queue and
not yet uncounted it. -/
inductive WorkerState where
  | waiting
  | popped (command : TransportCommand)
  | executing (command : TransportCommand)
  | exited

structure TransportWorker where
  queue : BoundedQueue TransportCommand
  state : WorkerState := .waiting

namespace TransportWorker

def backlog (worker : TransportWorker) : List TransportCommand :=
  match worker.state with
  | .popped command => command :: worker.queue.contents
  | _ => worker.queue.contents

def running (worker : TransportWorker) : Option TransportCommand :=
  match worker.state with
  | .executing command => some command
  | _ => none

end TransportWorker

/-- `admission` is the command that `TryPost` has pushed and not yet counted; it
holds `admissionMutex_` meanwhile. -/
structure TransportExecutor where
  workerCount : Nat
  commandQueueCapacity : Nat
  fenceQueueCapacity : Nat
  workers : Nat → TransportWorker
  queuedCommands : Nat := 0
  queuedFences : Nat := 0
  acceptingCommands : Bool := true
  admission : Option TransportCommand := none

namespace TransportExecutor

structure Options where
  workerCount : Nat := 1
  nodeCount : Nat := 0
  maxInflightRequestsPerNode : Nat := 0

/-- `numeric_limits<size_t>::max()`. -/
def maxSize : Nat := SizeT.modulus - 1

/-- `Start`; the threads come up. -/
def start (options : Options) : Expected TransportExecutor :=
  if options.workerCount = 0 ∨ options.nodeCount = 0 ∨ options.maxInflightRequestsPerNode = 0 ∨
      maxSize - 2 < options.maxInflightRequestsPerNode ∨
      maxSize / (options.maxInflightRequestsPerNode + 2) < options.nodeCount then
    .error (.InvalidParam "invalid TransportExecutor options")
  else
    let commandQueueCapacity := options.nodeCount * (options.maxInflightRequestsPerNode + 1)
    let fenceQueueCapacity := options.nodeCount
    .ok {
      workerCount := options.workerCount, commandQueueCapacity, fenceQueueCapacity
      workers := fun _ => { queue := .ofCapacity (commandQueueCapacity + fenceQueueCapacity) } }

variable (hash : NodeId → Nat)

def workerIndex (nodeId : NodeId) (executor : TransportExecutor) : Nat :=
  hash nodeId % executor.workerCount

/-- `TryPost` up to the push. -/
def admitCommand (command : TransportCommand) (executor : TransportExecutor) :
    Expected TransportExecutor :=
  let index := executor.workerIndex hash command.node
  if executor.acceptingCommands = false then .error (.Error "TransportExecutor is stopping")
  else if command.isFence = true ∧ executor.fenceQueueCapacity ≤ executor.queuedFences ∨
      command.isFence = false ∧ executor.commandQueueCapacity ≤ executor.queuedCommands then
    .error (.Error "TransportExecutor queue full")
  else
    match (executor.workers index).queue.push command with
    | (_, false) => .error (.Error "TransportExecutor worker queue invariant violated")
    | (queue, true) => .ok { executor with
        workers := update executor.workers index { executor.workers index with queue }
        admission := some command }

/-- The rest of `TryPost`. -/
def countCommand (command : TransportCommand) (executor : TransportExecutor) : TransportExecutor :=
  if command.isFence then
    { executor with queuedFences := SizeT.add executor.queuedFences 1, admission := none }
  else
    { executor with queuedCommands := SizeT.add executor.queuedCommands 1, admission := none }

/-- A worker takes the counters' lock and takes its command off them. -/
def uncountCommand (index : Nat) (command : TransportCommand) (executor : TransportExecutor) :
    TransportExecutor :=
  let executor := { executor with
    workers := update executor.workers index
      { executor.workers index with state := .executing command } }
  if command.isFence then
    { executor with queuedFences := SizeT.sub executor.queuedFences 1 }
  else
    { executor with queuedCommands := SizeT.sub executor.queuedCommands 1 }

def setState (index : Nat) (state : WorkerState) (executor : TransportExecutor) :
    TransportExecutor :=
  { executor with
    workers := update executor.workers index { executor.workers index with state } }

def setQueue (index : Nat) (queue : BoundedQueue TransportCommand) (state : WorkerState)
    (executor : TransportExecutor) : TransportExecutor :=
  { executor with workers := update executor.workers index { queue, state } }

def completionOf (status : Status) : TransportCommand → NodeEvent
  | .transmit token _ _ => .transmitCompleted token status
  | .connect nodeId laneId epoch _ => .connectCompleted nodeId laneId epoch status
  | .fenceEpoch nodeId laneId epoch => .fenceCompleted nodeId laneId epoch status

def backlog (executor : TransportExecutor) : List TransportCommand :=
  (List.range executor.workerCount).flatMap fun index => (executor.workers index).backlog

/-! The counters against the backlog. Fences and other commands are counted in the
same way, so the results are about either kind. -/

def queued (fence : Bool) (executor : TransportExecutor) : Nat :=
  if fence then executor.queuedFences else executor.queuedCommands

def capacity (fence : Bool) (executor : TransportExecutor) : Nat :=
  if fence then executor.fenceQueueCapacity else executor.commandQueueCapacity

def ofKind (fence : Bool) (commands : List TransportCommand) : Nat :=
  commands.countP fun command => command.isFence == fence

@[simp] theorem ofKind_cons (f : Bool) (cmd : TransportCommand) (c : List TransportCommand) :
    ofKind f (cmd :: c) = ofKind f c + if cmd.isFence = f then 1 else 0 := by
  simp [ofKind, countP_cons]

theorem ofKind_perm {c others : List TransportCommand} (h : c.Perm others)
    (f : Bool) : ofKind f c = ofKind f others :=
  h.countP_eq _

theorem length_eq_ofKind (commands : List TransportCommand) :
    commands.length = ofKind false commands + ofKind true commands := by
  induction commands with
  | nil => rfl
  | cons cmd _ ih =>
    rw [length_cons, ofKind_cons, ofKind_cons, ih]
    cases cmd.isFence <;> simp <;> omega

theorem countCommand_frame (cmd : TransportCommand) (executor : TransportExecutor) :
    (executor.countCommand cmd).workers = executor.workers ∧
    (executor.countCommand cmd).workerCount = executor.workerCount ∧
    (executor.countCommand cmd).admission = none ∧ ∀ fence,
    (executor.countCommand cmd).capacity fence = executor.capacity fence := by
  unfold countCommand
  split <;> exact ⟨rfl, rfl, rfl, fun _ => rfl⟩

theorem uncountCommand_frame (idx : Nat) (cmd : TransportCommand) (executor : TransportExecutor) :
    (executor.uncountCommand idx cmd).workers = update executor.workers idx
        { executor.workers idx with state := .executing cmd } ∧
      (executor.uncountCommand idx cmd).workerCount = executor.workerCount ∧
      (executor.uncountCommand idx cmd).admission = executor.admission ∧
      ∀ fence, (executor.uncountCommand idx cmd).capacity fence =
        executor.capacity fence := by
  unfold uncountCommand
  split <;> exact ⟨rfl, rfl, rfl, fun _ => rfl⟩

def Counted (executor : TransportExecutor) : Prop :=
  ∀ fence, executor.queued fence + ofKind fence executor.admission.toList =
    ofKind fence executor.backlog

variable {hash} {exec next : TransportExecutor} {cmd : TransportCommand} {idx : Nat}

theorem admitCommand_eq_ok (h : exec.admitCommand hash cmd = .ok next) :
    ∃ queue, (exec.workers (exec.workerIndex hash cmd.node)).queue.push cmd = (queue, true) ∧
      next = { exec with
        workers := update exec.workers (exec.workerIndex hash cmd.node)
          { exec.workers (exec.workerIndex hash cmd.node) with queue }
        admission := some cmd } := by
  unfold admitCommand at h
  dsimp only at h
  split_ifs at h
  split at h
  · cases h
  · rename_i queue hp
    cases h
    exact ⟨queue, hp, rfl⟩

theorem backlog_push {w : TransportWorker} {queue : BoundedQueue TransportCommand}
    (h : w.queue.push cmd = (queue, true)) :
    TransportWorker.backlog { w with queue } = w.backlog ++ [cmd] := by
  unfold TransportWorker.backlog
  rw [BoundedQueue.contents_of_push h]
  cases w.state <;> simp

theorem shares_update (workers : Nat → TransportWorker) (idx : Nat) (worker : TransportWorker) :
    (fun i => (update workers idx worker i).backlog) = update (fun i => (workers i).backlog) idx
    worker.backlog := by
  funext i
  by_cases hi : i = idx
  · subst hi
    rw [update_self, update_self]
  · rw [update_of_ne hi, update_of_ne hi]

theorem backlog_admitted (h : exec.admitCommand hash cmd = .ok next)
    (hw : 0 < exec.workerCount) : next.backlog.Perm (cmd :: exec.backlog) := by
  obtain ⟨q, hp, rfl⟩ := admitCommand_eq_ok h
  have hindex : exec.workerIndex hash cmd.node ∈ List.range exec.workerCount :=
    mem_range.2 (Nat.mod_lt _ hw)
  unfold backlog
  rw [shares_update, backlog_push hp]
  exact Shares.flatMap_update nodup_range hindex (perm_append_singleton _ _)

theorem Counted.admitted (h : Counted exec) (hfree : exec.admission = none)
    (hw : 0 < exec.workerCount) (ha : exec.admitCommand hash cmd = .ok next) : Counted next := by
  intro f
  have ho := h f
  rw [hfree] at ho
  rw [ofKind_perm (backlog_admitted ha hw), ofKind_cons, ← ho]
  obtain ⟨q, -, rfl⟩ := admitCommand_eq_ok ha
  exact (congrArg _ (ofKind_cons f cmd [])).trans (Nat.add_assoc _ _ _).symm

@[simp] theorem queued_count (fence : Bool) (cmd : TransportCommand) (exec : TransportExecutor) :
    (exec.countCommand cmd).queued fence =
      if cmd.isFence = fence then SizeT.add (exec.queued fence) 1
      else exec.queued fence := by
  unfold countCommand queued
  cases cmd.isFence <;> cases fence <;> simp

@[simp] theorem queued_uncount (fence : Bool) (idx : Nat) (cmd : TransportCommand)
    (exec : TransportExecutor) : (exec.uncountCommand idx cmd).queued fence =
      if cmd.isFence = fence then SizeT.sub (exec.queued fence) 1
      else exec.queued fence := by
  unfold uncountCommand queued
  cases cmd.isFence <;> cases fence <;> simp

@[simp] theorem ofKind_none (f : Bool) : ofKind f (Option.toList none) = 0 := rfl

theorem Counted.count (h : Counted exec) (hd : exec.admission = some cmd) (hf : ∀ f,
    ofKind f exec.backlog < SizeT.modulus) : Counted (exec.countCommand cmd) := by
  intro f
  have ho := h f
  have hl := hf f
  rw [hd, Option.toList_some, ofKind_cons] at ho
  obtain ⟨hw, hc, ha, -⟩ := countCommand_frame cmd exec
  have hb : (exec.countCommand cmd).backlog = exec.backlog := by
    unfold backlog
    rw [hw, hc]
  rw [hb, ha, queued_count, ofKind_none, Nat.add_zero, ← ho]
  by_cases hs : cmd.isFence = f
  · rw [if_pos hs] at ho
    rw [if_pos hs, if_pos hs, SizeT.add_eq (by omega)]
    exact congrArg _ (Nat.zero_add 1).symm
  · rw [if_neg hs, if_neg hs]
    rfl

theorem backlog_uncount (hindex : idx < exec.workerCount)
    (hs : (exec.workers idx).state = .popped cmd) : exec.backlog.Perm
    (cmd :: (exec.uncountCommand idx cmd).backlog) := by
  obtain ⟨hw, hc, -⟩ := uncountCommand_frame idx cmd exec
  have he : (exec.workers idx).backlog = cmd :: (exec.workers idx).queue.contents := by
    unfold TransportWorker.backlog
    rw [hs]
  unfold backlog
  rw [hw, hc]
  rw [shares_update]
  apply Shares.flatMap_take nodup_range (mem_range.2 hindex)
  rw [he]
  exact .refl _

section
variable (h : Counted exec) (hfree : exec.admission = none)
  (hindex : idx < exec.workerCount)
include h hfree hindex

theorem Counted.queued_pos (hs : (exec.workers idx).state = .popped cmd) :
    0 < exec.queued cmd.isFence := by
  have ho := h cmd.isFence
  rw [hfree, ofKind_perm (backlog_uncount hindex hs), ofKind_cons, if_pos rfl] at ho
  rw [ofKind_none] at ho
  omega

theorem Counted.uncount (ht : (exec.workers idx).state = .popped cmd) (hf : ∀ f,
    ofKind f exec.backlog < SizeT.modulus) : Counted (exec.uncountCommand idx cmd) := by
  intro f
  have ho := h f
  have hl := hf f
  have hp := h.queued_pos hfree hindex ht
  rw [(uncountCommand_frame idx cmd exec).2.2.1, hfree, ofKind_none, Nat.add_zero, queued_uncount]
  rw [hfree, ofKind_none, Nat.add_zero] at ho
  rw [ofKind_perm (backlog_uncount hindex ht), ofKind_cons] at ho hl
  by_cases hs : cmd.isFence = f
  · subst hs
    rw [if_pos rfl] at ho hl ⊢
    rw [SizeT.sub_eq hp (by omega)]
    omega
  · rw [if_neg hs]
    rwa [if_neg hs, Nat.add_zero] at ho

end

theorem length_contents_le_backlog (hindex : idx < exec.workerCount) :
    (exec.workers idx).queue.contents.length ≤ exec.backlog.length := by
  have hw : (exec.workers idx).queue.contents.length ≤ (exec.workers idx).backlog.length := by
    unfold TransportWorker.backlog
    split
    · exact Nat.le_succ _
    · exact Nat.le_refl _
  refine hw.trans (List.Sublist.length_le ?_)
  apply sublist_flatten_of_mem
  exact mem_map_of_mem (mem_range.2 hindex)

theorem Counted.congr (h : Counted exec) (hq : ∀ f, next.queued f = exec.queued f)
    (ha : next.admission = exec.admission) (hb : next.backlog = exec.backlog) : Counted next := by
  intro f
  rw [hq, ha, hb]
  exact h f

end TransportExecutor
end UnifiedCache.Dram
