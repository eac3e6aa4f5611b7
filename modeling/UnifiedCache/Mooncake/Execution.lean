import UnifiedCache.Mooncake.ShareLoadQueue

/-! Runs of a host that can be evaluated: the steps as a partial function of the choices
that are made in them. -/
namespace UnifiedCache.Mooncake
open Store

/-- The next step of a `Wait` that does not run out of time. -/
def TaskWrapper.waitNext (policy : WaitPolicy TransTask) (handle : TaskHandle)
    (wrapper : TaskWrapper TransTask) : Option (TaskWrapper TransTask) :=
  match wrapper.tasks handle with
  | none => none
  | some entry =>
    match entry.phase with
    | .registered => some (wrapper.setPhase handle .waiting)
    | .waiting => if entry.counter = 0 then some (wrapper.setPhase handle .finished) else none
    | .finished =>
      if wrapper.failureSet handle then
        some ((wrapper.forget policy handle).setPhase handle
          (.returned (policy.failureStatus entry.task)))
      else some (wrapper.setPhase handle (.returned .OK))
    | _ => none

namespace Host

/-- A step with the choices that are open in it; tasks are given by their place. -/
inductive Move where
  | act (index : Nat) (act : Act)
  | makeReader (index : Nat)
  | splice (index : Nat)
  | takeQueued (place : Nat)
  | takeListed (place : Nat)
  | poll (place : Nat)
  | advance (place : Nat) (answer : Answer)
  | release (place : Nat)
  | writeLate (pos : Nat) (slice : Slice)
  | wait (index : Nat) (handle : TaskHandle)

def around (place : Nat) (host : Host) : Option (List BlockTask × BlockTask × List BlockTask) :=
  match host.tasks.drop place with
  | task :: after => some (host.tasks.take place, task, after)
  | [] => none

variable {hash : Key → UInt64} {cfg : Config} {host next : Host}

def label (host : Host) : Move → Option Label
  | .act index act => some (.act index act)
  | .makeReader index => some (.makeReader index true)
  | .splice index => some (.splice index)
  | .takeQueued place => (host.around place).map fun around => .takeQueued around.2.1
  | .takeListed place => (host.around place).map fun around => .takeListed around.2.1
  | .poll place => (host.around place).map fun around => .poll around.2.1
  | .advance place answer => (host.around place).map fun around => .advance around.2.1 answer
  | .release place => (host.around place).map fun around => .release around.2.1
  | .writeLate pos slice => some (.write pos slice)
  | .wait index handle => some (.wait index handle)

def perform (hash : Key → UInt64) (config : Config) (host : Host) : Move → Option Host
  | .act index act => ((host.processes index).act config act).map (host.setProcess index)
  | .makeReader index =>
    match (host.processes index).dispatcher with
    | .making handle (position :: rest) =>
      match ((host.processes index).shards handle)[position]? with
      | some shard =>
        let result := host.acquired hash config shard.key
        some ((result.1.push [made index handle shard result.2]).setProcess index
          { host.processes index with dispatcher := .making handle rest })
      | none => none
    | _ => none
  | .splice index =>
    match (host.processes index).dispatcher with
    | .making handle [] => some ((host.restage index handle .queued).setProcess index
        { host.processes index with dispatcher := .idle })
    | _ => none
  | .takeQueued place =>
    match host.around place with
    | some (before, task, after) =>
      if task.stage = .queued ∧
          (∀ earlier ∈ before, earlier.process = task.process → earlier.stage ≠ .queued) ∧
          host.listedCount task.process < config.streamNumber ∧
          (host.processes task.process).shareStop = false then
        some (host.moved before after task .handling)
      else none
    | none => none
  | .takeListed place =>
    match host.around place with
    | some (before, task, after) =>
      if task.stage = .listed ∧ task.backendTaskHandle ≠ 0 ∧
          (host.processes task.process).shareStop = false then
        some (host.moved before after task .completing)
      else none
    | none => none
  | .poll place =>
    match host.around place with
    | some (before, task, after) =>
      if task.stage = .listed ∧ task.backendTaskHandle = 0 ∧
          (host.processes task.process).shareStop = false ∧ host.poll task ≠ .Retry then
        some { host.moved before after task (.ready (host.poll task)) with
          headers := if host.poll task = .DuplicateKey then host.headers.mark task.reader .LOADING
            else host.headers }
      else none
    | none => none
  | .advance place answer =>
    match host.around place with
    | some (before, task, after) =>
      if answer.submit = some 0 then none
      else
        (task.advance config.backend ((host.processes task.process).failed task.taskHandle)
          (host.status task) answer).map (host.advanced before after task)
    | none => none
  | .release place =>
    match host.around place with
    | some (before, task, after) =>
      if task.stage = .finished then
        some (host.without before after task)
      else none
    | none => none
  | .writeLate pos slice =>
    if (pos, slice) ∈ host.abandoned then
      some { host with mem := Function.update host.mem pos (some slice) }
    else none
  | .wait index handle =>
    (TaskWrapper.waitNext config.policy handle (host.processes index).wrapper).map fun wrapper =>
      host.setProcess index { host.processes index with wrapper }

variable {moves : List Move}

end Host
end UnifiedCache.Mooncake
