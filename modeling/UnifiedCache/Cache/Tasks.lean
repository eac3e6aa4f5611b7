import UnifiedCache.Cache.DumpSteps
import UnifiedCache.Cache.Host
import UnifiedCache.Cache.LoadSteps

/-! The tasks that are under way in a process. The queues of a process work on tasks of
their own kind, and a step of a queue touches the latch and the failure mark of at most one
of them. -/
namespace UnifiedCache.Cache
open List LoadQueue LoadState Function
open Store

def Dispatcher.tasks : Dispatcher → List TaskHandle
  | .shards task _ _ _ => [task]
  | .holding task _ _ _ _ => [task]
  | .pushing item _ _ => [item.task]
  | .refused task _ => [task]
  | _ => []

namespace LoadQueue

def items (queue : LoadQueue) : List ShardTask :=
  queue.holder ++ (queue.transfer.toList.map Transfer.item ++ queue.running)

def tasks (queue : LoadQueue) : List TaskHandle :=
  queue.waiting ++ (queue.dispatcher.tasks ++ queue.items.map ShardTask.task)

end LoadQueue

def DumpQueue.tasks (queue : DumpQueue) : List TaskHandle :=
  queue.waiting ++ queue.dumper.toList.map Dumper.task

theorem Dispatcher.tasks_go {task handle : TaskHandle} {pos : Nat} {u : List Key} {r : List Nat}
    (h : handle ∈ (Dispatcher.go task pos u r).tasks) : handle = task := by
  cases r with
  | nil => cases h
  | cons => exact mem_singleton.1 h

inductive Concludes (tasks : List TaskHandle) (wrapper : TaskWrapper TransTask) :
    TaskWrapper TransTask → Prop where
  | nothing : Concludes tasks wrapper wrapper
  | done : handle ∈ tasks → Concludes tasks wrapper (wrapper.done handle)
  | fail : handle ∈ tasks → Concludes tasks wrapper (wrapper.fail handle)
  | failDone : handle ∈ tasks → Concludes tasks wrapper ((wrapper.fail handle).done handle)

theorem Concludes.task? {t : List TaskHandle} {w next : TaskWrapper TransTask}
    (h : Concludes t w next) : next.task? = w.task? := by
  cases h with
  | nothing | fail => rfl
  | _ => exact TaskWrapper.task?_done _ _

section
variable {cfg : Config} {state next : LoadState} {move : LoadMove} {queue : LoadQueue}

attribute [local simp] tasks items setBuffer goTo turnTo setWrapper waited item Dispatcher.tasks

theorem LoadQueue.waiting_mem {handle : TaskHandle} {r : List TaskHandle}
    (h : queue.waiting = handle :: r) : handle ∈ queue.tasks :=
  mem_append_left _ (h ▸ mem_cons_self)

theorem LoadQueue.transfer_mem {transfer : Transfer} (h : queue.transfer = some transfer) :
    transfer.item.task ∈ queue.tasks := by
  simp [h]

theorem LoadStep.concludes (h : LoadStep cfg state move next) :
    Concludes state.queue.tasks state.wrapper next.wrapper := by
  cases h with
  | turnAway _ hw => exact .done (waiting_mem hw)
  | @fail handle _ hd =>
    have hm : handle ∈ state.queue.tasks := by simp [hd]
    exact .failDone hm
  | report ht => exact .fail (transfer_mem ht)
  | @finish shard ht =>
    cases hl : shard.last with
    | true => exact .done (transfer_mem ht)
    | false => exact .nothing
  | drainWaiting _ hw => exact .failDone (waiting_mem hw)
  | @drainRunning shard _ _ _ _ hr =>
    have hm : shard.task ∈ state.queue.tasks := by simp [hr]
    cases hl : shard.last with
    | true => exact .failDone hm
    | false => exact .fail hm
  | _ => exact .nothing

theorem LoadStep.tasks_subset (h : LoadStep cfg state move next) :
    ∀ handle ∈ next.queue.tasks, handle ∈ state.queue.tasks := by
  intro handle hm
  cases h with
  | turnAway _ hw | drainWaiting _ hw =>
    simp only [tasks, mem_append, hw, mem_cons] at hm ⊢
    tauto
  | take _ hw =>
    simp only [tasks, items, mem_append, hw, mem_cons] at hm ⊢
    obtain hm | hm | hm := hm
    · exact .inl (.inr hm)
    · exact .inl (.inl (Dispatcher.tasks_go hm))
    · exact .inr (.inr hm)
  | @push _ _ _ _ hd =>
    simp only [tasks, items, mem_append, map_append, map_cons,
      map_nil, mem_singleton, hd, Dispatcher.tasks] at hm ⊢
    obtain hm | hm | hm := hm
    · exact .inl hm
    · exact .inr (.inl (Dispatcher.tasks_go hm))
    · tauto
  | fail hd | clear _ hd | discard hd | drainRunning _ _ _ hd =>
    simp only [tasks, items, setBuffer, setWrapper, goTo, turnTo, hd, Dispatcher.tasks, mem_append,
      map_append, cons_append, map_cons, mem_cons] at hm ⊢
    tauto
  | pop hn hr => simpa [hn, hr] using hm
  | copy _ ht => simpa [ht] using hm
  | _ => simp_all

end

section
variable {cfg : Config} {state next : DumpState} {move : DumpMove}

theorem DumpStep.concludes (h : DumpStep cfg state move next) :
    Concludes state.queue.tasks state.wrapper next.wrapper := by
  have ht : ∀ {handle : TaskHandle} {r : List TaskHandle},
      state.queue.waiting = handle :: r → handle ∈ state.queue.tasks := by
    intro handle r hw
    exact mem_append_left _ (hw ▸ mem_cons_self)
  cases h with
  | turnAway _ hw => exact .done (ht hw)
  | @finish handle _ _ _ failed hd =>
    have hm : handle ∈ state.queue.tasks := by simp [DumpQueue.tasks, hd]
    cases failed with
    | true => exact .failDone hm
    | false => exact .done hm
  | drainWaiting _ hw => exact .failDone (ht hw)
  | _ => exact .nothing

theorem DumpStep.tasks_subset (h : DumpStep cfg state move next) :
    ∀ handle ∈ next.queue.tasks, handle ∈ state.queue.tasks := by
  intro handle hm
  cases h with
  | take _ hw =>
    simp only [DumpQueue.tasks, hw, mem_append, mem_cons] at hm ⊢
    obtain hm | hm := hm
    · exact .inl (.inr hm)
    · exact .inl (.inl (by simpa using hm))
  | turnAway _ hw | drainWaiting _ hw =>
    simp only [DumpQueue.tasks, hw, mem_append, mem_cons] at hm ⊢
    tauto
  | finish =>
    simp only [DumpQueue.tasks, mem_append, Option.toList_none, map_nil, not_mem_nil,
      or_false] at hm ⊢
    exact .inl hm
  | _ => simp_all [DumpQueue.tasks, DumpState.setBuffer, DumpState.turnTo]

end

namespace Process

structure Typed (process : Process) : Prop where
  fresh : ∀ handle, process.nextId ≤ handle → process.wrapper.task? handle = none
  loads : ∀ handle ∈ process.load.tasks, ∃ task,
    process.wrapper.task? handle = some task ∧ task.type = .LOAD
  dumps : ∀ handle ∈ process.dump.tasks, ∃ task,
    process.wrapper.task? handle = some task ∧ task.type = .DUMP

theorem typed_start : ({} : Process).Typed :=
  ⟨fun _ _ => rfl, by simp [tasks, items, Dispatcher.tasks], by simp [DumpQueue.tasks]⟩

variable {cfg : Config} {shared after : Shared} {proc next : Process}

theorem Typed.nextId_notMem (h : proc.Typed) : proc.nextId ∉ proc.load.tasks := by
  intro hm
  obtain ⟨f, hf, -⟩ := h.loads _ hm
  rw [h.fresh _ (Nat.le_refl _)] at hf
  cases hf

inductive Advances (config : Config) (shared : Shared) (process : Process) :
    Move → Shared → Process → Prop where
  | submit (task : TransTask) (full : Bool) :
    Advances config shared process (.submit task full) shared (process.submit task full)
  | load {state : LoadState} :
    LoadStep config ⟨shared, process.wrapper, process.load⟩ move state →
    Advances config shared process (.load move) state.shared
      { process with wrapper := state.wrapper, load := state.queue }
  | dump {state : DumpState} :
    DumpStep config ⟨shared, process.wrapper, process.dump⟩ move state →
    Advances config shared process (.dump move) state.shared
      { process with wrapper := state.wrapper, dump := state.queue }
  | wait {waited : TaskWrapper TransTask} :
    process.wrapper.advance config.policy handle expired = some waited →
    Advances config shared process (.wait handle expired) shared { process with wrapper := waited }

theorem Advances.of_step {move : Move} (h : proc.step cfg shared move = some (after, next)) :
    Advances cfg shared proc move after next := by
  cases move with
  | submit t f =>
    cases h
    exact .submit t f
  | load =>
    obtain ⟨state, hs, he⟩ := Option.map_eq_some_iff.1 h
    cases he
    exact .load (.of_step hs)
  | dump =>
    obtain ⟨state, hs, he⟩ := Option.map_eq_some_iff.1 h
    cases he
    exact .dump (.of_step hs)
  | wait =>
    obtain ⟨w, hs, he⟩ := Option.map_eq_some_iff.1 h
    cases he
    exact .wait hs

@[simp] theorem task?_submit (task : TransTask) (f : Bool) (proc : Process) :
    (proc.submit task f).wrapper.task? = update proc.wrapper.task? proc.nextId (some task) := by
  have hr := TaskWrapper.task?_register proc.nextId { task, counter := 1 } proc.wrapper
  cases f with
  | true => exact (TaskWrapper.task?_done _ _).trans hr
  | false =>
    unfold submit
    cases task.type with
    | LOAD | DUMP => exact hr

@[simp] theorem nextId_submit (t : TransTask) (f : Bool) (proc : Process) :
    (proc.submit t f).nextId = proc.nextId + 1 := by
  unfold submit
  cases f with
  | true => rfl
  | false => cases t.type <;> rfl

variable {handle : TaskHandle}

theorem tasks_submit {t : TransTask} {f : Bool} : (handle ∈ (proc.submit t f).load.tasks →
      handle ∈ proc.load.tasks ∨ handle = proc.nextId ∧ t.type = .LOAD) ∧
    (handle ∈ (proc.submit t f).dump.tasks →
      handle ∈ proc.dump.tasks ∨ handle = proc.nextId ∧ t.type = .DUMP) := by
  unfold submit
  cases f with
  | true => exact ⟨.inl, .inl⟩
  | false =>
    cases ht : t.type with
    | LOAD =>
      refine ⟨?_, .inl⟩
      intro hm
      simp only [Bool.false_eq_true, if_false, tasks, items, mem_append, mem_singleton] at hm ⊢
      tauto
    | DUMP =>
      refine ⟨.inl, ?_⟩
      intro hm
      simp only [Bool.false_eq_true, if_false, DumpQueue.tasks, mem_append, mem_singleton] at hm ⊢
      tauto

theorem Typed.submit (h : proc.Typed) (task : TransTask) (full : Bool) :
    (proc.submit task full).Typed := by
  have he := h.fresh proc.nextId (Nat.le_refl _)
  have ho : ∀ {handle : TaskHandle} {kind : TaskType}, (∃ f,
      proc.wrapper.task? handle = some f ∧ f.type = kind) → ∃ f,
      (proc.submit task full).wrapper.task? handle = some f ∧ f.type = kind := by
    rintro handle kind ⟨f, hf, hk⟩
    refine ⟨f, ?_, hk⟩
    rw [task?_submit, update_of_ne]
    · exact hf
    · rintro rfl
      rw [he] at hf
      cases hf
  have hn : (proc.submit task full).wrapper.task? proc.nextId = some task := by
    rw [task?_submit, update_self]
  constructor
  · intro handle hl
    rw [nextId_submit] at hl
    rw [task?_submit, update_of_ne (Nat.ne_of_gt hl)]
    exact h.fresh handle (Nat.le_of_succ_le hl)
  · intro handle hm
    obtain hm | ⟨rfl, ht⟩ := tasks_submit.1 hm
    · exact ho (h.loads handle hm)
    · exact ⟨task, hn, ht⟩
  intro handle hm
  obtain hm | ⟨rfl, ht⟩ := tasks_submit.2 hm
  · exact ho (h.dumps handle hm)
  · exact ⟨task, hn, ht⟩

theorem Typed.advances {move : Move} (h : proc.Typed)
    (hs : Advances cfg shared proc move after next) : next.Typed := by
  have hk : ∀ {u : Process}, u.wrapper.task? = proc.wrapper.task? → u.nextId = proc.nextId →
      (∀ handle ∈ u.load.tasks, handle ∈ proc.load.tasks) →
      (∀ handle ∈ u.dump.tasks, handle ∈ proc.dump.tasks) → u.Typed := by
    intro u ht hid hl hu
    refine ⟨?_, ?_, ?_⟩
    · rw [ht, hid]
      exact h.fresh
    · rw [ht]
      exact fun handle hm => h.loads handle (hl handle hm)
    · rw [ht]
      exact fun handle hm => h.dumps handle (hu handle hm)
  cases hs with
  | submit t f => exact h.submit t f
  | load ho => exact hk ho.concludes.task? rfl ho.tasks_subset fun _ => id
  | dump hd => exact hk hd.concludes.task? rfl (fun _ => id) hd.tasks_subset
  | wait hw =>
    exact hk (TaskWrapper.WaitStep.of_advance hw).task?_eq rfl (fun _ => id) fun _ => id

theorem Typed.disjoint (h : proc.Typed) (hl : handle ∈ proc.load.tasks) :
    handle ∉ proc.dump.tasks := by
  intro hd
  obtain ⟨t, ht, hy⟩ := h.loads handle hl
  obtain ⟨o, ho, hk⟩ := h.dumps handle hd
  rw [ht] at ho
  cases ho
  rw [hy] at hk
  cases hk

end Process

namespace Host
variable {cfgs : Nat → Config} {host next : Host} {label : Label}

theorem step_cases (h : host.step cfgs label = some next) : ∃ b process updated r, host.processes =
    b ++ process :: r ∧ b.length = label.index ∧ next.processes = b ++ updated :: r ∧
    process.Advances (cfgs label.index) host.shared label.move next.shared updated := by
  unfold step at h
  split at h
  · cases h
  rename_i process hp
  obtain ⟨⟨shared, updated⟩, hs, rfl⟩ := Option.map_eq_some_iff.1 h
  obtain ⟨ht, hg⟩ := List.getElem?_eq_some_iff.1 hp
  have hl : (host.processes.take label.index).length = label.index :=
    length_take_of_le (Nat.le_of_lt ht)
  refine ⟨host.processes.take label.index, process, updated,
    host.processes.drop (label.index + 1), ?_, hl, ?_, .of_step hs⟩
  · rw [← hg, ← drop_eq_getElem_cons ht, take_append_drop]
  · dsimp only
    rw [set_eq_take_append_cons_drop, if_pos ht]

/-- The rule for what holds of every process by itself: a step of a process keeps it, and so
do the steps of the others. -/
theorem each_step {P : Shared → Process → Prop} (h : host.step cfgs label = some next)
    (ha : ∀ process ∈ host.processes, P host.shared process) (he : ∀ process ∈ host.processes,
      ∀ updated, host.processes[label.index]? = some process →
      process.Advances (cfgs label.index) host.shared label.move next.shared updated →
      P host.shared process → P next.shared updated) (ho : ∀ (process mover updated : Process),
      P host.shared process →
      mover.Advances (cfgs label.index) host.shared label.move next.shared updated →
      P next.shared process) : ∀ process ∈ next.processes, P next.shared process := by
  obtain ⟨b, mover, updated, rest, hb, hd, hf, had⟩ := step_cases h
  have hmo : host.processes[label.index]? = some mover := by
    rw [hb, ← hd, List.getElem?_append_right (Nat.le_refl _), Nat.sub_self]
    rfl
  have hm : mover ∈ host.processes := mem_of_getElem? hmo
  intro process hp
  rw [hf] at hp
  obtain hn | rfl | hn := by simpa using hp
  · exact ho process mover updated (ha process (by simp [hb, hn])) had
  · exact he mover hm process hmo had (ha mover hm)
  · exact ho process mover updated (ha process (by simp [hb, hn])) had

theorem typed_of_reachable (h : Transition.Reachable (system cfgs) host) :
    ∀ proc ∈ host.processes, proc.Typed := by
  apply h.invariant (I := fun host => ∀ proc ∈ host.processes, proc.Typed)
  · rintro _ ⟨s, count, rfl⟩ proc hm
    rw [eq_of_mem_replicate hm]
    exact Process.typed_start
  · intro host label next _ ha hs
    exact each_step (P := fun _ proc => proc.Typed) hs ha
      (fun _ _ _ _ hd ht => ht.advances hd) fun _ _ _ ht _ => ht

end Host
end UnifiedCache.Cache
