import Mathlib.Data.List.Perm.Subperm
import UnifiedCache.Cache.QuietDumps
import UnifiedCache.Cache.QuietLoads

/-! What the holders of handles have at stake in their nodes: they write to the memory of the
node, have filled it, or rely on it being ready. -/
namespace UnifiedCache.Cache
open List Store

inductive Role where
  | idle | writing | filled | ready
  deriving DecidableEq

structure Stake where
  key : Key
  handle : Handle
  role : Role

def ShardTask.stake (item : ShardTask) : Stake :=
  ⟨item.key, item.handle, if item.backend.isSome then .writing else .idle⟩

def Dispatcher.stakes : Dispatcher → List Stake
  | .holding _ _ _ key got => [⟨key, got, .idle⟩]
  | .pushing item _ _ => [item.stake]
  | _ => []

def LoadQueue.stakes (queue : LoadQueue) : List Stake :=
  queue.dispatcher.stakes ++
    (queue.transfer.toList.flatMap Transfer.unwaited ++ queue.running).map ShardTask.stake

/-- A dump that is still at its copies has each shard under way or has found it ready; once
the stream is synchronised all of them are filled. -/
def DumpPhase.role (copies : List Nat) (got : Handle) : DumpPhase → Role
  | .looking => if got.node ∈ copies then .writing else .ready
  | .holding _ _ => if got.node ∈ copies then .writing else .ready
  | .syncing => if got.node ∈ copies then .writing else .ready
  | .marking _ => .filled
  | .submitting => .filled
  | _ => .idle

def DumpPhase.stakes : DumpPhase → List Stake
  | .holding key got => [⟨key, got, .idle⟩]
  | _ => []

def DumpPhase.stake (copies : List Nat) (phase : DumpPhase) (entry : Key × Handle) : Stake :=
  ⟨entry.1, entry.2, phase.role copies entry.2⟩

def Dumper.stakes (copies : List Nat) (dumper : Dumper) : List Stake :=
  dumper.phase.stakes ++ dumper.ctx.map (dumper.phase.stake copies)

def DumpCtx.stakes (ctx : DumpCtx) : List Stake :=
  ctx.handles.map fun entry => ⟨entry.1, entry.2, .filled⟩

def DumpQueue.stakes (queue : DumpQueue) : List Stake :=
  queue.dumper.toList.flatMap (Dumper.stakes queue.copies) ++ queue.unwaited.flatMap DumpCtx.stakes

def Process.stakes (process : Process) : List Stake := process.load.stakes ++ process.dump.stakes

theorem Transfer.unwaited_sublist (transfer : Transfer) : transfer.unwaited <+ [transfer.item] := by
  unfold unwaited
  split
  · exact Sublist.refl _
  · exact Sublist.refl _
  · exact nil_sublist _

@[simp] theorem Dispatcher.stakes_go (task : TaskHandle) (position : Nat) (upcoming : List Key)
    (rest : List Nat) : (Dispatcher.go task position upcoming rest).stakes = [] := by
  cases rest <;> rfl

theorem Dispatcher.stakes_sublist (dispatcher : Dispatcher) :
    dispatcher.stakes.map Stake.handle <+ dispatcher.handles := by
  cases dispatcher with
  | holding | pushing => exact Sublist.refl _
  | _ => exact nil_sublist _

theorem LoadQueue.stakes_sublist (queue : LoadQueue) :
    queue.stakes.map Stake.handle <+ queue.handles := by
  have ht : queue.transfer.toList.flatMap Transfer.unwaited <+
      queue.transfer.toList.map Transfer.item := by
    cases queue.transfer with
    | none => exact Sublist.refl _
    | some transfer => simpa using transfer.unwaited_sublist
  rw [stakes, map_append, map_map]
  refine queue.dispatcher.stakes_sublist.append (Sublist.map ShardTask.handle ?_)
  exact (ht.append (Sublist.refl _)).trans (sublist_append_right _ _)

theorem LoadQueue.stake_of_unwaited {queue : LoadQueue} {item : ShardTask}
    (h : item ∈ queue.unwaited) : item.stake ∈ queue.stakes := by
  obtain h | h := mem_append.1 h
  · apply mem_append_left
    unfold Dispatcher.items at h
    split at h
    · rename_i hd
      rw [hd, mem_singleton.1 h]
      exact mem_singleton_self _
    · cases h
  · exact mem_append_right _ (mem_map_of_mem h)

theorem Dumper.stakes_sublist (copies : List Nat) (dumper : Dumper) :
    (dumper.stakes copies).map Stake.handle <+ dumper.pins := by
  have hp : dumper.phase.stakes.map Stake.handle <+ dumper.phase.handles := by
    cases dumper.phase with
    | holding => exact Sublist.refl _
    | _ => exact nil_sublist _
  rw [stakes, map_append, map_map]
  exact hp.append (Sublist.refl _)

theorem DumpQueue.stakes_subperm (queue : DumpQueue) :
    queue.stakes.map Stake.handle <+~ queue.handles := by
  have hc : ∀ ctx : DumpCtx, ctx.stakes.map Stake.handle = ctx.pins := by
    simp [DumpCtx.stakes, DumpCtx.pins]
  have hd : (queue.dumper.toList.flatMap (Dumper.stakes queue.copies)).map Stake.handle <+
      queue.dumper.toList.flatMap Dumper.pins := by
    cases queue.dumper with
    | none => exact Sublist.refl _
    | some dumper => simpa using dumper.stakes_sublist queue.copies
  have hs : (((queue.stage.toList.filter fun stage => stage.2).map Prod.fst).flatMap
      DumpCtx.stakes).map Stake.handle <+ queue.stage.toList.flatMap fun stage => stage.1.pins := by
    obtain _ | ⟨ctx, _ | _⟩ := queue.stage <;> simp [hc]
  have hu : (queue.dumping.flatMap DumpCtx.stakes).map Stake.handle =
      queue.dumping.flatMap DumpCtx.pins := by
    simp [map_flatMap, hc]
  rw [stakes, unwaited, flatMap_append, map_append, map_append, hu]
  refine hd.subperm.append ?_
  exact (hs.subperm.append (Subperm.refl _)).trans perm_append_comm.subperm

variable {queue : DumpQueue}

theorem DumpQueue.mem_stakes {dumper : Dumper} {stake : Stake}
    (h : queue.dumper = some dumper) : stake ∈ queue.stakes ↔
      (stake ∈ dumper.phase.stakes ∨
        ∃ entry ∈ dumper.ctx, dumper.phase.stake queue.copies entry = stake) ∨
      ∃ ctx ∈ queue.unwaited, stake ∈ ctx.stakes := by
  simp [stakes, Dumper.stakes, h, or_assoc]

theorem DumpQueue.stake_of_ctx {dumper : Dumper}
    (h : queue.dumper = some dumper) {entry : Key × Handle} (he : entry ∈ dumper.ctx) :
    dumper.phase.stake queue.copies entry ∈ queue.stakes :=
  (mem_stakes h).2 (.inl (.inr ⟨entry, he, rfl⟩))

theorem DumpQueue.stake_of_unwaited {ctx : DumpCtx} (h : ctx ∈ queue.unwaited)
    {entry : Key × Handle} (he : entry ∈ ctx.handles) :
    ⟨entry.1, entry.2, .filled⟩ ∈ queue.stakes :=
  mem_append_right _ (mem_flatMap.2 ⟨ctx, h, mem_map_of_mem he⟩)

theorem Process.stakes_subperm (proc : Process) : proc.stakes.map Stake.handle <+~ proc.handles
    := by
  rw [stakes, map_append]
  exact proc.load.stakes_sublist.subperm.append proc.dump.stakes_subperm

theorem Process.handles_of_stakes {proc : Process} {stake : Stake} (h : stake ∈ proc.stakes) :
    stake.handle ∈ proc.handles :=
  proc.stakes_subperm.subset (mem_map_of_mem h)

end UnifiedCache.Cache
