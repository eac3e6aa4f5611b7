import UnifiedCache.Cache.LoadQueue

/-! The dump queue of a cache store, in both cores. The dispatcher gathers the shards that
it owns into their nodes and hands them to the backend together; another thread waits for
the backend and then gives the handles up. -/
namespace UnifiedCache.Cache
open Store

structure DumpCtx where
  backend : TaskHandle
  handles : List (Key × Handle)
  deriving DecidableEq

inductive DumpPhase where
  | event
  | looking
  | holding (key : Key) (handle : Handle)
  | syncing
  | marking (left : List Handle)
  | submitting
  /-- `FailOwnedHandles` -/
  | condemning (left : List Handle)
  | dropping (failed : Bool)
  | finishing (failed : Bool)
  deriving DecidableEq

structure Dumper where
  task : TaskHandle
  /-- The shards that were not looked up yet. -/
  rest : List Key
  ctx : List (Key × Handle) := []
  copiedShards : Nat := 0
  phase : DumpPhase := .event
  deriving DecidableEq

def Dumper.handles (dumper : Dumper) : List Handle := dumper.ctx.map Prod.snd

structure DumpQueue where
  waiting : List TaskHandle := []
  dumper : Option Dumper := none
  /-- The nodes that were copied into since the last `Synchronize`. -/
  copies : List Nat := []
  dumping : List DumpCtx := []
  /-- What the backend stage has taken, and whether it still waits for the backend. -/
  stage : Option (DumpCtx × Bool) := none
  /-- The backend dumps that were not waited for, with the nodes each reads. -/
  dumps : List (TaskHandle × List Nat) := []
  finishedBackendTaskHandle : TaskHandle := 0
  stop : Bool := false

structure DumpState where
  shared : Shared
  wrapper : TaskWrapper TransTask
  queue : DumpQueue

inductive DumpMove where
  | take
  | event (ok : Bool)
  | get (victim : Nat)
  | skip
  | keep
  | copy (ok issued : Bool)
  | gathered
  | sync (ok : Bool)
  | mark
  | submit (accepted : Bool)
  | condemn
  | drop
  | finish
  | pop
  | wait
  | release
  | close
  | drainWaiting

def Config.backendDesc (config : Config) (ctx : List (Key × Handle)) : List (Key × Handle) :=
  ctx.filter fun entry => config.reaches entry.2.node

def Core.giveUp (core : Core) (ctx : List (Key × Handle)) : DumpPhase :=
  match core with
  | .cc => .dropping true
  | .v2 => .condemning (ctx.map Prod.snd)

namespace DumpState
variable (config : Config) (state : DumpState)

def turnTo (dumper : Option Dumper) : DumpState :=
  { state with queue := { state.queue with dumper } }

def setBuffer (buffer : Buffer) : DumpState :=
  { state with shared := state.shared.setBuffer buffer }

def take : Option DumpState :=
  match state.queue.dumper, state.queue.waiting with
  | none, handle :: rest =>
    if state.queue.stop then none
    else
      match state.wrapper.task? handle with
      | none => none
      | some task =>
        let taken : DumpState := { state with queue := { state.queue with waiting := rest } }
        if state.wrapper.failureSet handle then
          some { taken with wrapper := state.wrapper.done handle }
        else some (taken.turnTo (some { task := handle, rest := task.desc }))
  | _, _ => none

def event (ok : Bool) : Option DumpState :=
  match state.queue.dumper with
  | some ⟨handle, rest, ctx, copied, .event⟩ =>
    if ok then some (state.turnTo (some ⟨handle, rest, ctx, copied, .looking⟩))
    else if (state.wrapper.task? handle).any (·.prerequisite) then
      some (state.turnTo (some ⟨handle, rest, ctx, copied, .finishing true⟩))
    else none
  | _ => none

def get (victim : Nat) : Option DumpState :=
  match state.queue.dumper with
  | some ⟨handle, key :: rest, ctx, copied, .looking⟩ =>
    (state.shared.buffer.get config.core ⟨key, false, true⟩ victim).map fun (got, buffer) =>
      (state.setBuffer buffer).turnTo (some ⟨handle, rest, ctx, copied, .holding key got⟩)
  | _ => none

def skip : Option DumpState :=
  match state.queue.dumper with
  | some ⟨handle, rest, ctx, copied, .holding _ got⟩ =>
    if got.owner then none
    else some ((state.setBuffer (state.shared.buffer.release config.core got)).turnTo
      (some ⟨handle, rest, ctx, copied, .looking⟩))
  | _ => none

def keep : Option DumpState :=
  match state.queue.dumper with
  | some ⟨handle, rest, ctx, copied, .holding key got⟩ =>
    if got.owner && state.shared.state got = .READY then
      some (state.turnTo (some ⟨handle, rest, ctx ++ [(key, got)], copied, .looking⟩))
    else none
  | _ => none

def copy (ok issued : Bool) : Option DumpState :=
  match state.queue.dumper with
  | some ⟨handle, rest, ctx, copied, .holding key got⟩ =>
    if got.owner && state.shared.state got ≠ .READY then
      let held := ctx ++ [(key, got)]
      let copies := state.queue.copies ++ [got.node]
      if ok then
        some { state with queue := { state.queue with
          copies
          dumper := some ⟨handle, rest, held, copied + 1, .looking⟩ } }
      else
        some { state with queue := { state.queue with
          copies := if issued && config.core = .cc then copies else state.queue.copies
          dumper := some ⟨handle, rest, held, copied, config.core.giveUp held⟩ } }
    else none
  | _ => none

/-- `v2` synchronises only if there is something to wait for. -/
def gathered : Option DumpState :=
  match state.queue.dumper with
  | some ⟨handle, [], ctx, copied, .looking⟩ =>
    if ctx = [] then some (state.turnTo (some ⟨handle, [], ctx, copied, .finishing false⟩))
    else if config.core = .cc ∨ 0 < copied then
      some (state.turnTo (some ⟨handle, [], ctx, copied, .syncing⟩))
    else some (state.turnTo (some ⟨handle, [], ctx, copied, .marking (ctx.map Prod.snd)⟩))
  | _ => none

def sync (ok : Bool) : Option DumpState :=
  match state.queue.dumper with
  | some ⟨handle, rest, ctx, copied, .syncing⟩ => some { state with queue := { state.queue with
      copies := []
      dumper := some ⟨handle, rest, ctx, copied,
        if ok then .marking (ctx.map Prod.snd) else config.core.giveUp ctx⟩ } }
  | _ => none

def mark : Option DumpState :=
  match state.queue.dumper with
  | some ⟨handle, rest, ctx, copied, .marking (got :: left)⟩ =>
    some ((state.setBuffer (state.shared.buffer.markBy config.core got .READY)).turnTo
      (some ⟨handle, rest, ctx, copied, .marking left⟩))
  | some ⟨handle, rest, ctx, copied, .marking []⟩ =>
    some (state.turnTo (some ⟨handle, rest, ctx, copied,
      if config.backendDesc ctx = [] then .dropping false else .submitting⟩))
  | _ => none

/-- The backend's `Dump`, and `dumping_.Push` if it was accepted. -/
def submit (accepted : Bool) : Option DumpState :=
  match state.queue.dumper with
  | some ⟨handle, rest, ctx, copied, .submitting⟩ =>
    if accepted then
      let backend := state.shared.nextBackend
      let desc := config.backendDesc ctx
      some {
        shared := { state.shared with
          nextBackend := backend + 1
          accepted := state.shared.accepted ++ desc.map Prod.fst }
        wrapper := state.wrapper
        queue := { state.queue with
          dumps := state.queue.dumps ++ [(backend, desc.map (·.2.node))]
          dumping := state.queue.dumping ++ [⟨backend, ctx⟩]
          dumper := some ⟨handle, rest, [], copied, .finishing false⟩ } }
    else some (state.turnTo (some ⟨handle, rest, ctx, copied, .dropping true⟩))
  | _ => none

def condemn : Option DumpState :=
  match state.queue.dumper with
  | some ⟨handle, rest, ctx, copied, .condemning (got :: left)⟩ =>
    some ((state.setBuffer (state.shared.buffer.markBy config.core got .FAILED)).turnTo
      (some ⟨handle, rest, ctx, copied, .condemning left⟩))
  | some ⟨handle, rest, ctx, copied, .condemning []⟩ =>
    some (state.turnTo (some ⟨handle, rest, ctx, copied, .dropping true⟩))
  | _ => none

def drop : Option DumpState :=
  match state.queue.dumper with
  | some ⟨handle, rest, held :: ctx, copied, .dropping failed⟩ =>
    some ((state.setBuffer (state.shared.buffer.release config.core held.2)).turnTo
      (some ⟨handle, rest, ctx, copied, .dropping failed⟩))
  | some ⟨handle, rest, [], copied, .dropping failed⟩ =>
    some (state.turnTo (some ⟨handle, rest, [], copied, .finishing failed⟩))
  | _ => none

def finish : Option DumpState :=
  match state.queue.dumper with
  | some ⟨handle, _, _, _, .finishing failed⟩ =>
    let wrapper := if failed then state.wrapper.fail handle else state.wrapper
    some { state with
      wrapper := wrapper.done handle
      queue := { state.queue with dumper := none } }
  | _ => none

/-! The backend stage, and `DrainDumping` after it has ended. -/

def pop : Option DumpState :=
  match state.queue.stage, state.queue.dumping with
  | none, ctx :: rest =>
    if state.queue.stop ∧ (state.queue.dumper ≠ none ∨ state.queue.waiting ≠ []) then none
    else some { state with queue := { state.queue with
      dumping := rest
      stage := some (ctx, true) } }
  | _, _ => none

/-- `cc` does not wait for a handle up to the last one it has waited for. -/
def wait : Option DumpState :=
  match state.queue.stage with
  | some (ctx, true) =>
    if config.core = .v2 ∨ state.queue.finishedBackendTaskHandle < ctx.backend then
      some { state with queue := { state.queue with
        dumps := state.queue.dumps.filter fun dump => dump.1 ≠ ctx.backend
        finishedBackendTaskHandle := ctx.backend
        stage := some (ctx, false) } }
    else some { state with queue := { state.queue with stage := some (ctx, false) } }
  | _ => none

def release : Option DumpState :=
  match state.queue.stage with
  | some (⟨backend, held :: handles⟩, false) => some {
      shared := state.shared.setBuffer (state.shared.buffer.release config.core held.2)
      wrapper := state.wrapper
      queue := { state.queue with stage := some (⟨backend, handles⟩, false) } }
  | some (⟨_, []⟩, false) => some { state with queue := { state.queue with stage := none } }
  | _ => none

def close : Option DumpState :=
  match config.core with
  | .cc => none
  | .v2 => some { state with queue := { state.queue with stop := true } }

def drainWaiting : Option DumpState :=
  match state.queue.dumper, state.queue.waiting with
  | none, handle :: rest =>
    if state.queue.stop then some {
      shared := state.shared
      wrapper := (state.wrapper.fail handle).done handle
      queue := { state.queue with waiting := rest } }
    else none
  | _, _ => none

def step : DumpMove → Option DumpState
  | .take => state.take
  | .event ok => state.event ok
  | .get victim => state.get config victim
  | .skip => state.skip config
  | .keep => state.keep
  | .copy ok issued => state.copy config ok issued
  | .gathered => state.gathered config
  | .sync ok => state.sync config ok
  | .mark => state.mark config
  | .submit accepted => state.submit config accepted
  | .condemn => state.condemn config
  | .drop => state.drop config
  | .finish => state.finish
  | .pop => state.pop
  | .wait => state.wait config
  | .release => state.release config
  | .close => state.close config
  | .drainWaiting => state.drainWaiting

end DumpState
end UnifiedCache.Cache
