import UnifiedCache.Cache.Tasks

/-! The handles that are alive, and that the reference count of a node is their number. -/
namespace UnifiedCache.Cache
open List Dumper LoadState
open Store

namespace Dispatcher

def handles : Dispatcher → List Handle
  | .holding _ _ _ _ handle => [handle]
  | .pushing item _ _ => [item.handle]
  | .refused _ handle => [handle]
  | .dropping handle => [handle]
  | _ => []

variable {task : TaskHandle} {pos idx : Nat} {rest : List Nat} {key : Key} {got : Handle}
  {item : ShardTask} {keys : List Key}

@[simp] theorem handles_idle : idle.handles = [] := rfl
@[simp] theorem handles_shards : (shards task pos idx rest).handles = [] := rfl
@[simp] theorem handles_holding : (holding task pos rest key got).handles = [got] := rfl
@[simp] theorem handles_pushing : (pushing item pos rest).handles = [item.handle] := rfl
@[simp] theorem handles_refused : (refused task got).handles = [got] := rfl
@[simp] theorem handles_dropping : (dropping got).handles = [got] := rfl
@[simp] theorem handles_preallocating : (preallocating keys).handles = [] := rfl

@[simp] theorem handles_go (u : List Key) (rest : List Nat) :
    (go task pos u rest).handles = [] := by
  cases rest <;> rfl

end Dispatcher

def LoadQueue.handles (queue : LoadQueue) : List Handle :=
  queue.dispatcher.handles ++ queue.items.map ShardTask.handle

def DumpPhase.handles : DumpPhase → List Handle
  | .holding _ handle => [handle]
  | _ => []

def DumpCtx.pins (ctx : DumpCtx) : List Handle := ctx.handles.map Prod.snd

def Dumper.pins (dumper : Dumper) : List Handle := dumper.phase.handles ++ dumper.handles

def DumpQueue.handles (queue : DumpQueue) : List Handle :=
  queue.dumper.toList.flatMap Dumper.pins ++
    (queue.dumping.flatMap DumpCtx.pins ++ queue.stage.toList.flatMap fun stage => stage.1.pins)

def Process.handles (process : Process) : List Handle :=
  process.load.handles ++ process.dump.handles

def held (handles : List Handle) (index : Nat) : Nat :=
  handles.countP fun handle => handle.node = index

@[simp] theorem held_nil (idx : Nat) : held [] idx = 0 := rfl

@[simp] theorem held_cons (handle : Handle) (handles : List Handle) (idx : Nat) :
    held (handle :: handles) idx = held handles idx + if handle.node = idx then 1 else 0 := by
  simp [held, countP_cons]

theorem held_perm {handles left : List Handle} (h : left ~ handles) (index : Nat) :
    held left index = held handles index :=
  h.countP_eq _

theorem held_pos {handles : List Handle} {handle : Handle} (h : handle ∈ handles) :
    0 < held handles handle.node :=
  countP_pos_iff.2 ⟨handle, h, by simp⟩

inductive Keeps (core : Core) (before after : Buffer) (handles left : List Handle) : Prop where
  | same : after.references = before.references → left.Perm handles →
    Keeps core before after handles left
  | get : before.get core request victim = some (got, after) → left.Perm (got :: handles) →
    Keeps core before after handles left
  | release : after = before.release core got → handles.Perm (got :: left) →
    Keeps core before after handles left

namespace Keeps
variable {core : Core} {buf after : Buffer} {handles left : List Handle}

theorem append (h : Keeps core buf after handles left) (others : List Handle) :
    Keeps core buf after (handles ++ others) (left ++ others) := by
  cases h with
  | same hr hp => exact .same hr (hp.append_right others)
  | get hg hp => exact .get hg (hp.append_right others)
  | release hr hp => exact .release hr (hp.append_right others)

theorem perm {front back : List Handle} (h : Keeps core buf after handles left)
    (hf : front.Perm handles) (hb : back.Perm left) : Keeps core buf after front back := by
  cases h with
  | same hr hp => exact .same hr (hb.trans (hp.trans hf.symm))
  | get hg hp => exact .get hg (hb.trans (hp.trans (hf.symm.cons _)))
  | release hr hp => exact .release hr (hf.trans (hp.trans (hb.symm.cons _)))

theorem references (h : Keeps core buf after handles left) {index : Nat}
    (hc : buf.references index = held handles index) :
    after.references index = held left index := by
  cases h with
  | same hr hp => rw [hr, hc, held_perm hp]
  | get hg hp => rw [Buffer.references_get hg, hc, held_perm hp, held_cons]
  | release hr hp =>
    rw [held_perm hp, held_cons] at hc
    rw [hr, Buffer.references_release, hc, Nat.add_sub_cancel]

end Keeps

section
variable {cfg : Config} {state next : LoadState} {move : LoadMove}

theorem LoadQueue.count_handles (queue : LoadQueue) (got : Handle) :
    queue.handles.count got = queue.dispatcher.handles.count got +
      ((queue.holder.map ShardTask.handle).count got +
        ((queue.transfer.toList.map (ShardTask.handle ∘ Transfer.item)).count got +
          (queue.running.map ShardTask.handle).count got)) := by
  simp [LoadQueue.handles, LoadQueue.items]

@[simp] theorem LoadState.references_condemned (cfg : Config) (state : LoadState) (s : ShardTask) :
    (state.condemned cfg s).references = state.shared.buffer.references := by
  unfold condemned
  split
  · rfl
  · exact Buffer.references_markBy _ _ _ _

attribute [local simp] LoadQueue.count_handles count_cons setBuffer setWrapper goTo turnTo item waited

theorem LoadStep.keeps (h : LoadStep cfg state move next) : Keeps cfg.core state.shared.buffer
    next.shared.buffer state.queue.handles next.queue.handles := by
  cases h with
  | take hd | load hd | pass hd | fail hd | rest hd =>
    refine .same rfl (perm_iff_count.2 fun got => ?_)
    simp [hd]
  | get hd _ _ hg =>
    refine .get hg (perm_iff_count.2 fun got => ?_)
    simp [hd]
    omega
  | refuse hd | wait _ hd =>
    refine .same (Buffer.references_markBy _ _ _ _) (perm_iff_count.2 fun got => ?_)
    simp [hd]
  | push hd | copy _ hd =>
    refine .same rfl (perm_iff_count.2 fun got => ?_)
    simp [hd]
    omega
  | drop hd | clear _ hd | discard hd | drainRunning _ _ _ hd =>
    refine .release rfl (perm_iff_count.2 fun got => ?_)
    simp [hd]
    omega
  | prealloc hd hp =>
    refine .same (Buffer.references_prealloc hp) (perm_iff_count.2 fun got => ?_)
    simp [hd]
  | pop hn hr =>
    refine .same rfl (perm_iff_count.2 fun got => ?_)
    simp [hn, hr]
    omega
  | condemn ht =>
    refine .same (references_condemned _ _ _) (perm_iff_count.2 fun got => ?_)
    simp [ht]
  | turnAway _ _ _ _ | close _ | drainWaiting _ _ _ => exact .same rfl (.refl _)
  | _ =>
    refine .same rfl (perm_iff_count.2 fun got => ?_)
    simp_all

end

section
variable {cfg : Config} {state next : DumpState} {move : DumpMove}

theorem DumpQueue.count_handles (queue : DumpQueue) (got : Handle) :
    queue.handles.count got = (queue.dumper.toList.flatMap pins).count got +
      ((queue.dumping.flatMap DumpCtx.pins).count got +
        (queue.stage.toList.flatMap fun stage => stage.1.pins).count got) := by
  simp [DumpQueue.handles]

def Dumper.Tidy (dumper : Dumper) : Prop :=
  match dumper.phase with
  | .event => dumper.ctx = []
  | .finishing _ => dumper.ctx = []
  | _ => True

theorem DumpStep.tidy (h : DumpStep cfg state move next) (ha : ∀ d, state.queue.dumper = some d →
    d.Tidy) : ∀ d, next.queue.dumper = some d → d.Tidy := by
  intro d hd
  cases h with
  | event ok hb =>
    cases hd
    have ht := ha _ hb
    cases ok with
    | true => trivial
    | false => exact ht
  | marked =>
    cases hd
    dsimp only [Dumper.Tidy]
    split
    · rename_i hp
      split at hp <;> cases hp
    · rename_i hp
      split at hp <;> cases hp
    · trivial
  | copyFailed | copyBroken =>
    cases hd
    cases cfg.core <;> trivial
  | sync ok =>
    cases hd
    cases ok <;> cases cfg.core <;> trivial
  | finish => cases hd
  | turnAway | pop | wait | waitless | release | released | close
  | drainWaiting => exact ha d hd
  | _ =>
    cases hd
    trivial

attribute [local simp] DumpQueue.count_handles count_cons DumpState.setBuffer DumpState.turnTo pins
  handles DumpPhase.handles DumpCtx.pins Core.giveUp

theorem DumpStep.keeps (h : DumpStep cfg state move next) (ht : ∀ d, state.queue.dumper = some d →
    d.Tidy) : Keeps cfg.core state.shared.buffer next.shared.buffer state.queue.handles
      next.queue.handles := by
  cases h with
  | get hd hg =>
    refine .get hg (perm_iff_count.2 fun got => ?_)
    simp [hd]
    omega
  | skip hd | drop hd | release hd =>
    refine .release rfl (perm_iff_count.2 fun got => ?_)
    simp [hd]
    omega
  | copyFailed hd | copyBroken hd =>
    refine .same rfl (perm_iff_count.2 fun got => ?_)
    cases cfg.core <;> simp [hd]
  | keep hd | copy _ hd =>
    refine .same rfl (perm_iff_count.2 fun got => ?_)
    simp [hd]
  | event ok hd =>
    refine .same rfl (perm_iff_count.2 fun got => ?_)
    cases ok <;> simp [hd]
  | sync ok hd =>
    refine .same rfl (perm_iff_count.2 fun got => ?_)
    cases ok <;> cases cfg.core <;> simp [hd]
  | mark hd | condemn hd =>
    refine .same (Buffer.references_markBy _ _ _ _) (perm_iff_count.2 fun got => ?_)
    simp [hd]
  | marked hd =>
    refine .same rfl (perm_iff_count.2 fun got => ?_)
    simp only [DumpQueue.count_handles, DumpState.turnTo, hd, Option.toList_some,
      flatMap_cons, flatMap_nil, pins, handles]
    split <;> rfl
  | submit hd =>
    refine .same rfl (perm_iff_count.2 fun got => ?_)
    simp [hd]
    omega
  | @finish _ _ ctx _ _ hd =>
    have he : ctx = [] := ht _ hd
    subst he
    refine .same rfl (perm_iff_count.2 fun got => ?_)
    simp [hd]
  | pop hs hm =>
    refine .same rfl (perm_iff_count.2 fun got => ?_)
    simp [hs, hm]
    omega
  | turnAway _ _ _ | close _ | drainWaiting _ _ _ => exact .same rfl (.refl _)
  | _ =>
    refine .same rfl (perm_iff_count.2 fun got => ?_)
    simp_all

end

namespace Process
variable {cfg : Config} {shared after : Shared} {proc next : Process} {move : Move}

def Tidy (process : Process) : Prop :=
  ∀ dumper, process.dump.dumper = some dumper → dumper.Tidy

theorem queues_submit (task : TransTask) (f : Bool) (proc : Process) :
    (proc.submit task f).handles = proc.handles ∧
      (proc.submit task f).dump.dumper = proc.dump.dumper := by
  unfold submit
  cases f with
  | true => exact ⟨rfl, rfl⟩
  | false => cases task.type <;> exact ⟨rfl, rfl⟩

theorem Tidy.advances (h : proc.Tidy)
    (hs : proc.Advances cfg shared move after next) : next.Tidy := by
  cases hs with
  | submit task f =>
    unfold Tidy
    rw [(queues_submit task f proc).2]
    exact h
  | load | wait => exact h
  | dump hd => exact hd.tidy h

theorem Advances.keeps (h : proc.Advances cfg shared move after next) (ht : proc.Tidy) :
    Keeps cfg.core shared.buffer after.buffer proc.handles next.handles := by
  cases h with
  | submit task f =>
    rw [(queues_submit task f proc).1]
    exact .same rfl (.refl _)
  | load hl => exact hl.keeps.append _
  | dump hd => exact ((hd.keeps ht).append _).perm perm_append_comm perm_append_comm
  | wait => exact .same rfl (.refl _)

end Process

namespace Host
variable {cfgs : Nat → Config} {host : Host}

def handles (host : Host) : List Handle := host.processes.flatMap Process.handles

@[simp] theorem handles_start (size count : Nat) : (start size count).handles = [] := by
  apply flatMap_eq_nil_iff.2
  intro process hm
  rw [eq_of_mem_replicate hm]
  rfl

theorem keeps_of_step {label : Label} {next : Host} (h : host.step cfgs label = some next)
    (ht : ∀ process ∈ host.processes, process.Tidy) :
    Keeps (cfgs label.index).core host.shared.buffer next.shared.buffer host.handles
      next.handles := by
  obtain ⟨front, process, updated, rest, hb, -, hf, ha⟩ := step_cases h
  have hk := ha.keeps (ht process (by simp [hb]))
  have hp : ∀ process : Process, (front ++ process :: rest).flatMap Process.handles ~
      process.handles ++ (front ++ rest).flatMap Process.handles := by
    intro process
    simp only [flatMap_append, flatMap_cons]
    exact perm_append_comm_assoc _ _ _
  unfold Host.handles
  rw [hb, hf]
  exact (hk.append _).perm (hp process) (hp updated)

section
variable (h : Transition.Reachable (system cfgs) host)
include h

theorem counted_of_reachable : (∀ process ∈ host.processes, process.Tidy) ∧ ∀ index,
    host.shared.buffer.references index = held host.handles index := by
  apply h.invariant (I := fun host => (∀ process ∈ host.processes, process.Tidy) ∧
    ∀ index, host.shared.buffer.references index = held host.handles index)
  · rintro _ ⟨s, count, rfl⟩
    constructor
    · intro process hm d hd
      rw [eq_of_mem_replicate hm] at hd
      cases hd
    intro index
    rw [handles_start]
    rfl
  · intro host l next _ hin hs
    obtain ⟨ht, hc⟩ := hin
    constructor
    · exact each_step (P := fun _ process => process.Tidy) hs ht
        (fun _ _ _ _ ha ht => ht.advances ha) fun _ _ _ ht _ => ht
    exact fun index => (keeps_of_step hs ht).references (hc index)

theorem references_pos {proc : Process} (hm : proc ∈ host.processes) {got : Handle}
    (hg : got ∈ proc.handles) : 0 < host.shared.buffer.references got.node := by
  rw [(counted_of_reachable h).2]
  exact held_pos (mem_flatMap.2 ⟨proc, hm, hg⟩)

end
end Host
end UnifiedCache.Cache
