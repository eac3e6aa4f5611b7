import UnifiedCache.Lib.Transition
import UnifiedCache.Store.TaskWrapper

/-! The compress store: its workers hand a task to the backend and code its shards on
the way, and its task wrapper reports the end. What the backend and the codec answer is
an input of each piece of work. -/
namespace UnifiedCache.Compress
open Store

inductive FixedRatio where
  | R1 | R133 | R139 | R145 | R152 | R160 | R200
  deriving DecidableEq

inductive TaskType where
  | LOAD | DUMP
  deriving DecidableEq

structure TransTask where
  type : TaskType
  desc : List Shard

/-- What the backend, the codec and the allocator answer to one piece of work. -/
structure Answers where
  load : List Shard → Expected TaskHandle
  dump : List Shard → Expected TaskHandle
  wait : TaskHandle → Status
  /-- The error of coding the shard at a position. -/
  code : Nat → Int
  /-- The base of the pool for the compressed shards. -/
  memalign : Option Address

inductive Effect where
  | submit (shards : List Shard) (result : Expected TaskHandle)
  | wait (handle : TaskHandle) (status : Status)
  | decompress (position : Nat) (shard : Shard) (error : Int)
  | compress (position : Nat) (shard : Shard) (buffer : Address) (error : Int)

inductive Ending where
  /-- `Done` was called on the waiter. -/
  | done
  /-- An exception left the worker thread. -/
  | terminated
  deriving DecidableEq

structure Work where
  effects : List Effect
  ending : Ending

/-- A block holds a shard and 4096 bytes, rounded up to pages. -/
def poolBlockSize (shardSize : UInt64) : UInt64 := (shardSize + 4096 + 4095) &&& ~~~4095

def poolBlocks (base : Address) (blockSize : UInt64) (poolSize : Nat) : List Address :=
  (List.range poolSize).map fun position => base + UInt64.ofNat position * blockSize

variable (ratio : FixedRatio) (shardSize : UInt64) (answers : Answers)

/-- `Value()` throws if the backend has rejected the task. -/
def compressLoad (desc : List Shard) : Work :=
  match answers.load desc with
  | .error status => ⟨[.submit desc (.error status)], .terminated⟩
  | .ok handle =>
    if ratio = .R1 then ⟨[.submit desc (.ok handle), .wait handle (answers.wait handle)], .done⟩
    else
      let waited := if 0 < handle then [.wait handle (answers.wait handle)] else []
      let coded := if ratio = .R200 then
        desc.zipIdx.map fun (shard, position) => .decompress position shard (answers.code position)
      else []
      ⟨[.submit desc (.ok handle)] ++ waited ++ coded, .done⟩

structure Dumping where
  freeBlocks : List Address
  backendDesc : List Shard := []
  effects : List Effect := []

/-- `allocate` takes the last block; a shard that could not be coded gives it back. -/
def compressShard (dumping : Dumping) (shard : Shard × Nat) : Option Dumping :=
  match dumping.freeBlocks.getLast? with
  | none => none
  | some buffer =>
    if ratio = .R200 then
      let effects := dumping.effects ++ [.compress shard.2 shard.1 buffer (answers.code shard.2)]
      if answers.code shard.2 = 0 then
        some {
          freeBlocks := dumping.freeBlocks.dropLast
          backendDesc := dumping.backendDesc ++ [⟨shard.1.owner, shard.1.index, [buffer]⟩]
          effects }
      else some { dumping with effects }
    else some dumping

def compressDump (desc : List Shard) : Work :=
  if ratio = .R1 then
    if desc = [] then ⟨[], .done⟩ else ⟨[.submit desc (answers.dump desc)], .done⟩
  else if desc = [] then ⟨[], .done⟩
  else
    match answers.memalign with
    | none => ⟨[], .terminated⟩
    | some base =>
      match desc.zipIdx.foldlM (compressShard ratio answers)
          ⟨poolBlocks base (poolBlockSize shardSize) desc.length, [], []⟩ with
      | none => ⟨[], .terminated⟩
      | some dumping =>
        let effects := dumping.effects ++
          [.submit dumping.backendDesc (answers.dump dumping.backendDesc)]
        -- nothing is asked of the handle if there is no block to give back
        if dumping.backendDesc = [] then ⟨effects, .done⟩
        else
          match answers.dump dumping.backendDesc with
          | .error _ => ⟨effects, .terminated⟩
          | .ok handle =>
            if 0 < handle then ⟨effects ++ [.wait handle (answers.wait handle)], .done⟩
            else ⟨effects, .done⟩

def execute (task : TransTask) : Work :=
  match task.type with
  | .LOAD => compressLoad ratio answers task.desc
  | .DUMP => compressDump ratio shardSize answers task.desc

structure Config where
  ratio : FixedRatio
  shardSize : UInt64
  timeoutMs : Nat

def Config.policy (config : Config) : WaitPolicy TransTask := { timeoutMs := config.timeoutMs }

structure Compressor where
  wrapper : TaskWrapper TransTask := {}
  nextId : TaskHandle := 1
  dumpPool : List TaskHandle := []
  loadPool : List TaskHandle := []
  running : List TaskHandle := []
  terminated : Bool := false
  /-- What the worker of a task did; no code reads it. -/
  work : TaskHandle → Option Work := fun _ => none

namespace Compressor

/-- `Submit` with the `Push` of the action. -/
def submit (task : TransTask) (compressor : Compressor) : Compressor :=
  { compressor with
    wrapper := compressor.wrapper.register compressor.nextId { task, counter := 1 }
    nextId := compressor.nextId + 1
    dumpPool := match task.type with
      | .DUMP => compressor.dumpPool ++ [compressor.nextId]
      | .LOAD => compressor.dumpPool
    loadPool := match task.type with
      | .DUMP => compressor.loadPool
      | .LOAD => compressor.loadPool ++ [compressor.nextId] }

def conclude (handle : TaskHandle) (work : Work) (compressor : Compressor) : Compressor :=
  { compressor with
    running := compressor.running.erase handle
    work := Function.update compressor.work handle (some work)
    wrapper := match work.ending with
      | .done => compressor.wrapper.done handle
      | .terminated => compressor.wrapper
    terminated := match work.ending with
      | .done => compressor.terminated
      | .terminated => true }

inductive Label where
  | submit (task : TransTask)
  | takeDump
  | takeLoad
  | execute (handle : TaskHandle) (task : TransTask) (answers : Answers)
  | wait (handle : TaskHandle)

inductive Step (config : Config) (compressor : Compressor) : Label → Compressor → Prop where
  | submit (task : TransTask) : compressor.terminated = false →
    Step config compressor (.submit task) (compressor.submit task)
  | takeDump : compressor.terminated = false → compressor.dumpPool = handle :: rest →
    Step config compressor .takeDump
      { compressor with dumpPool := rest, running := handle :: compressor.running }
  | takeLoad : compressor.terminated = false → compressor.loadPool = handle :: rest →
    Step config compressor .takeLoad
      { compressor with loadPool := rest, running := handle :: compressor.running }
  | execute (answers : Answers) : compressor.terminated = false → handle ∈ compressor.running →
    compressor.wrapper.task? handle = some task →
    Step config compressor (.execute handle task answers) (compressor.conclude handle
        (Compress.execute config.ratio config.shardSize answers task))
  | wait : compressor.terminated = false → compressor.wrapper.WaitStep config.policy handle next →
    Step config compressor (.wait handle) { compressor with wrapper := next }

def system (config : Config) : Transition.System Compressor Label where
  init compressor := compressor = {}
  step := Step config

end Compressor
end UnifiedCache.Compress
