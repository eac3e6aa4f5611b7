import UnifiedCache.Cache.DumpQueue
import UnifiedCache.Lib.Replay

/-! Processes whose cache stores share one buffer. -/
namespace UnifiedCache.Cache
open Store

structure Process where
  wrapper : TaskWrapper TransTask := {}
  nextId : TaskHandle := 1
  load : LoadQueue := {}
  dump : DumpQueue := {}

/-- `Submit`; a queue that is full fails the task at once. -/
def Process.submit (task : TransTask) (full : Bool) (process : Process) : Process :=
  let handle := process.nextId
  let registered := process.wrapper.register handle { task, counter := 1 }
  if full then
    { process with
      wrapper := (registered.fail handle).done handle
      nextId := handle + 1 }
  else
    match task.type with
    | .LOAD => { process with
        wrapper := registered
        nextId := handle + 1
        load := { process.load with waiting := process.load.waiting ++ [handle] } }
    | .DUMP => { process with
        wrapper := registered
        nextId := handle + 1
        dump := { process.dump with waiting := process.dump.waiting ++ [handle] } }

structure Host where
  shared : Shared
  processes : List Process

inductive Move where
  | submit (task : TransTask) (full : Bool)
  | load (move : LoadMove)
  | dump (move : DumpMove)
  | wait (handle : TaskHandle) (expired : Bool)

structure Label where
  index : Nat
  move : Move

def Process.step (config : Config) (shared : Shared) (process : Process) :
    Move → Option (Shared × Process)
  | .submit task full => some (shared, process.submit task full)
  | .load move =>
    (LoadState.step config ⟨shared, process.wrapper, process.load⟩ move).map fun next =>
      (next.shared, { process with wrapper := next.wrapper, load := next.queue })
  | .dump move =>
    (DumpState.step config ⟨shared, process.wrapper, process.dump⟩ move).map fun next =>
      (next.shared, { process with wrapper := next.wrapper, dump := next.queue })
  | .wait handle expired =>
    (process.wrapper.advance config.policy handle expired).map fun wrapper =>
      (shared, { process with wrapper })

namespace Host

def step (configs : Nat → Config) (host : Host) (label : Label) : Option Host :=
  match host.processes[label.index]? with
  | none => none
  | some process =>
    (process.step (configs label.index) host.shared label.move).map fun (shared, process) =>
      ⟨shared, host.processes.set label.index process⟩

def start (size count : Nat) : Host where
  shared := { buffer := { size } }
  processes := List.replicate count {}

/-- Any number of processes over a buffer of any size; the process at an index has the
configuration of that index. -/
def system (configs : Nat → Config) : Transition.System Host Label where
  init host := ∃ size count, host = start size count
  step host label next := host.step configs label = some next

variable {cfgs : Nat → Config} {size count : Nat} {labels : List Label} {out : β}

theorem exists_of_replay {check : Host → Label → Bool} {o : Host → Option β}
    (h : (Transition.replay (step cfgs) check (start size count) labels).bind o = some out) :
    ∃ host, Transition.Reachable ((system cfgs).restrict fun host l _ => check host l = true) host ∧
    o host = some out := by
  obtain ⟨host, hh, ho⟩ := Option.bind_eq_some_iff.1 h
  exact ⟨host, Transition.reachable_of_replay (fun _ _ _ => id) (fun _ _ _ => id)
    (.start ⟨size, count, rfl⟩) hh, ho⟩

theorem exists_of_replay_free {o : Host → Option β}
    (h : (Transition.replay (step cfgs) (fun _ _ => true) (start size count) labels).bind
      o = some out) : ∃ host, Transition.Reachable (system cfgs) host ∧ o host = some out := by
  obtain ⟨host, hr, ho⟩ := exists_of_replay h
  exact ⟨host, hr.of_restrict, ho⟩

def loading (index : Nat) (moves : List LoadMove) : List Label :=
  moves.map fun move => ⟨index, .load move⟩

def dumping (index : Nat) (moves : List DumpMove) : List Label :=
  moves.map fun move => ⟨index, .dump move⟩

def waiting (index : Nat) (handle : TaskHandle) : List Label :=
  List.replicate 3 ⟨index, .wait handle false⟩

end Host
end UnifiedCache.Cache
