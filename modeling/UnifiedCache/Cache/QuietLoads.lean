import UnifiedCache.Cache.Flight

/-! The backend loads of a load queue: each that was not waited for fills the node of a shard
that the queue still holds. This rests on tasks failing only when no other shard of theirs
is queued, since the shards of a failed task are thrown away without waiting. -/
namespace UnifiedCache.Cache
open List LoadQueue LoadState
open Store

def LoadQueue.calm (core : Core) (queue : LoadQueue) : LoadMove → Bool
  | .load false => queue.early (.load false)
  | .report =>
    match queue.transfer with
    | some transfer =>
      !queue.dispatcher.tasks.contains transfer.item.task &&
        !(queue.running.map ShardTask.task).contains transfer.item.task &&
        (core = .v2 || !(queue.holder.map ShardTask.task).contains transfer.item.task)
    | none => true
  | .copy false issued => core = .v2 || !issued
  | .drainRunning => core = .v2 && (queue.running.head?.map ShardTask.backend).join.isNone
  | _ => true

def Dispatcher.items : Dispatcher → List ShardTask
  | .pushing item _ _ => [item]
  | _ => []

def Transfer.unwaited (transfer : Transfer) : List ShardTask :=
  match transfer.phase with
  | .start => [transfer.item]
  | .waiting => [transfer.item]
  | _ => []

def LoadQueue.unwaited (queue : LoadQueue) : List ShardTask :=
  queue.dispatcher.items ++ (queue.transfer.toList.flatMap Transfer.unwaited ++ queue.running)

def LoadQueue.unbegun (queue : LoadQueue) : List TaskHandle :=
  queue.dispatcher.tasks ++
    ((queue.transfer.toList.filter fun transfer => transfer.phase = .start).map
      (ShardTask.task ∘ Transfer.item) ++ queue.running.map ShardTask.task)

structure LoadQueue.Clean (wrapper : TaskWrapper TransTask) (queue : LoadQueue) : Prop where
  dispatcher : ∀ handle ∈ queue.dispatcher.tasks, wrapper.failureSet handle = false
  running : queue.stop = false → ∀ item ∈ queue.running, wrapper.failureSet item.task = false
  start : ∀ item, queue.transfer = some ⟨item, .start⟩ → wrapper.failureSet item.task = false

def LoadQueue.Backed (queue : LoadQueue) : Prop :=
  ∀ load ∈ queue.loads, ∃ item ∈ queue.unwaited,
    item.backend = some load.1 ∧ item.handle.node = load.2

namespace LoadQueue.Clean
variable {wrap next : TaskWrapper TransTask} {queue : LoadQueue}

theorem mono (h : queue.Clean wrap) (hl : ∀ handle ∈ queue.unbegun, next.failureSet handle = true →
    wrap.failureSet handle = true) : queue.Clean next := by
  have hk : ∀ handle ∈ queue.unbegun, wrap.failureSet handle = false →
      next.failureSet handle = false := by
    intro handle hm hc
    by_contra hf
    rw [Bool.not_eq_false] at hf
    rw [hl handle hm hf] at hc
    cases hc
  refine ⟨?_, ?_, ?_⟩
  · intro handle hm
    exact hk handle (mem_append_left _ hm) (h.dispatcher handle hm)
  · intro hs i ht
    apply hk i.task _ (h.running hs i ht)
    exact mem_append_right _ (mem_append_right _ (mem_map_of_mem ht))
  · intro i ht
    apply hk i.task _ (h.start i ht)
    simp [unbegun, ht]

end LoadQueue.Clean

variable {handle : TaskHandle}

theorem LoadQueue.tasks_of_unbegun {queue : LoadQueue} (h : handle ∈ queue.unbegun) :
    handle ∈ queue.tasks := by
  simp only [unbegun, tasks, items, mem_append, map_append, map_map, mem_map, mem_filter] at h ⊢
  obtain h | ⟨t, ⟨hn, -⟩, ht⟩ | h := h
  · exact .inr (.inl h)
  · exact .inr (.inr (.inr (.inl ⟨t, hn, ht⟩)))
  · exact .inr (.inr (.inr (.inr h)))

@[simp] theorem failureSet_fail_of_ne {wrapper : TaskWrapper TransTask} {other : TaskHandle}
    (h : other ≠ handle) : (wrapper.fail handle).failureSet other = wrapper.failureSet other :=
  Function.update_of_ne h _ _

section
variable {cfg : Config} {state next : LoadState} {move : LoadMove}
variable {queue : LoadQueue}

theorem LoadQueue.Clean.fail {wrapper : TaskWrapper TransTask} (h : queue.Clean wrapper)
    (hn : handle ∉ queue.items.map ShardTask.task) : (queue.stop = false → ∀ i ∈ queue.running,
      (wrapper.fail handle).failureSet i.task = false) ∧ ∀ i,
      queue.transfer = some ⟨i, .start⟩ → (wrapper.fail handle).failureSet i.task = false := by
  have hk : ∀ i ∈ queue.items, (wrapper.fail handle).failureSet i.task =
      wrapper.failureSet i.task :=
    fun i hi => failureSet_fail_of_ne fun he => hn (he ▸ mem_map_of_mem hi)
  refine ⟨fun hs i hi => ?_, fun i hi => ?_⟩
  · exact (hk i (by simp [items, hi])).trans (h.running hs i hi)
  · exact (hk i (by simp [items, hi])).trans (h.start i hi)

theorem LoadQueue.early_of_calm {c : Core} (h : queue.calm c move = true) :
    queue.early move = true := by
  unfold early
  split
  · exact h
  · rfl

theorem LoadStep.clean (h : LoadStep cfg state move next)
    (hca : state.queue.calm cfg.core move = true) (hor : state.queue.Ordered)
    (hc : state.queue.Clean state.wrapper) : next.queue.Clean next.wrapper := by
  cases h with
  | turnAway | clear => exact { hc with }
  | take _ _ _ _ hf =>
    refine ⟨?_, hc.running, hc.start⟩
    intro handle hm
    rw [Dispatcher.tasks_go hm]
    exact hf
  | get hd | load hd | refuse hd | pass hd =>
    refine ⟨?_, hc.running, hc.start⟩
    have hb := hc.dispatcher
    rw [hd] at hb
    exact hb
  | @push shard _ _ task hd =>
    have hh := hc.dispatcher shard.task (by simp [hd, Dispatcher.tasks])
    refine ⟨?_, ?_, hc.start⟩
    · intro handle hm
      rw [Dispatcher.tasks_go hm]
      exact hh
    intro hs i ht
    obtain ht | ht := mem_append.1 ht
    · exact hc.running hs i ht
    · rw [mem_singleton.1 ht]
      exact hh
  | @fail handle _ hd =>
    have hn := hor.opening handle (by simp [hd, Dispatcher.opening])
    have hk := hc.fail hn
    exact ⟨by simp [goTo, Dispatcher.tasks], hk.1, hk.2⟩
  | drop | prealloc | rest => exact ⟨by simp [goTo, Dispatcher.tasks], hc.running, hc.start⟩
  | @pop shard _ _ hr hs =>
    have ha := hc.running hs
    rw [hr] at ha
    refine ⟨hc.dispatcher, ?_, ?_⟩
    · exact fun _ i ht => ha i (mem_cons_of_mem _ ht)
    · intro i ht
      cases ht
      exact ha shard mem_cons_self
  | @report shard htr =>
    simp only [calm, htr, Bool.and_eq_true, Bool.not_eq_true',
      contains_eq_mem, decide_eq_false_iff_not] at hca
    obtain ⟨⟨hd, hr⟩, -⟩ := hca
    refine ⟨?_, ?_, ?_⟩
    · intro handle hm
      have he : handle ≠ shard.task := by
        rintro rfl
        exact hd hm
      exact (failureSet_fail_of_ne he).trans (hc.dispatcher handle hm)
    · intro hs i ht
      have he : i.task ≠ shard.task := fun hq =>
        hr (hq ▸ mem_map_of_mem ht)
      exact (failureSet_fail_of_ne he).trans (hc.running hs i ht)
    · intro i ht
      simp only [turnTo, Option.some.injEq, Transfer.mk.injEq] at ht
      split at ht <;> cases ht.2
  | @drainWaiting handle _ hid hw =>
    have hn := (hor.apart handle (by simp [hw])).2
    have hk := hc.fail hn
    exact ⟨by simp [hid, Dispatcher.tasks], hk.1, hk.2⟩
  | drainRunning hid _ hno _ hs =>
    refine ⟨by simp [hid, Dispatcher.tasks], ?_, by simp [hno]⟩
    intro ho
    rw [hs] at ho
    cases ho
  | close =>
    refine ⟨hc.dispatcher, ?_, hc.start⟩
    intro ho
    cases ho
  | @finish shard =>
    refine ⟨?_, ?_, by simp [turnTo]⟩
    · cases shard.last <;> exact hc.dispatcher
    · cases shard.last <;> exact hc.running
  | skip =>
    refine ⟨hc.dispatcher, hc.running, ?_⟩
    intro i ht
    simp only [turnTo, Option.some.injEq, Transfer.mk.injEq] at ht
    split at ht <;> cases ht.2
  | wait ok =>
    refine ⟨hc.dispatcher, hc.running, ?_⟩
    cases ok <;> simp [waited]
  | event ok =>
    refine ⟨hc.dispatcher, hc.running, ?_⟩
    cases ok <;> simp [turnTo]
  | @cleared _ failed =>
    refine ⟨hc.dispatcher, hc.running, ?_⟩
    cases failed <;> simp [turnTo]
  | _ => exact ⟨hc.dispatcher, hc.running, by simp [turnTo]⟩

theorem LoadQueue.Backed.mono {next : LoadQueue} (h : queue.Backed) (hl : next.loads = queue.loads)
    (he : ∀ i ∈ queue.unwaited, i.backend ≠ none → i ∈ next.unwaited) : next.Backed := by
  unfold Backed
  rw [hl]
  intro l ho
  obtain ⟨i, ht, hb, hn⟩ := h l ho
  exact ⟨i, he i ht (by simp [hb]), hb, hn⟩

@[simp] theorem LoadQueue.mem_unwaited {item : ShardTask} :
    item ∈ queue.unwaited ↔ item ∈ queue.dispatcher.items ∨
      (∃ t, queue.transfer = some t ∧ item ∈ t.unwaited) ∨
      item ∈ queue.running := by
  simp [unwaited]

theorem LoadQueue.unwaited_leave {shard : ShardTask} {b a : TransferPhase}
    (h : queue.transfer = some ⟨shard, b⟩) (hb : shard.backend = none) :
    ∀ item ∈ queue.unwaited, item.backend ≠ none →
      item ∈ ({ queue with transfer := some ⟨shard, a⟩ } : LoadQueue).unwaited := by
  intro item ht hs
  rw [mem_unwaited, h] at ht
  rw [mem_unwaited]
  obtain ht | ⟨_, hc, ht⟩ | ht := ht
  · exact .inl ht
  · cases hc
    have he : item = shard := by
      unfold Transfer.unwaited at ht
      split at ht
      · exact mem_singleton.1 ht
      · exact mem_singleton.1 ht
      · cases ht
    rw [he] at hs
    exact absurd hb hs
  · exact .inr (.inr ht)

theorem LoadQueue.unwaited_turn {b : Transfer} (h : queue.transfer = some b)
    (hw : b.unwaited = []) (a : Option Transfer) : ∀ item ∈ queue.unwaited, item.backend ≠ none →
      item ∈ ({ queue with transfer := a } : LoadQueue).unwaited := by
  intro item ht _
  rw [mem_unwaited, h] at ht
  rw [mem_unwaited]
  obtain ht | ⟨_, hc, ht⟩ | ht := ht
  · exact .inl ht
  · cases hc
    rw [hw] at ht
    cases ht
  · exact .inr (.inr ht)

attribute [local simp] unwaited Dispatcher.items Transfer.unwaited goTo turnTo setBuffer setWrapper

theorem LoadStep.backed (h : LoadStep cfg state move next)
    (hc : state.queue.calm cfg.core move = true) (hcl : state.queue.Clean state.wrapper)
    (hb : state.queue.Backed) : next.queue.Backed := by
  cases h with
  | turnAway | close | drainWaiting | clear => exact hb
  | @load handle pos rest key got hd =>
    intro load hl
    obtain hl | hl := mem_append.1 hl
    · obtain ⟨item, ht, hs⟩ := hb load hl
      refine ⟨item, ?_, hs⟩
      simp [hd] at ht ⊢
      exact .inr ht
    rw [mem_singleton] at hl
    subst hl
    exact ⟨item handle pos rest key got (some state.shared.nextBackend), by simp, rfl, rfl⟩
  | push hd =>
    refine hb.mono rfl fun item ht _ => ?_
    simp [hd] at ht ⊢
    obtain ht | ht | ht := ht
    · exact .inr (.inr (.inr ht))
    · exact .inr (.inl ht)
    · exact .inr (.inr (.inl ht))
  | pop ho hu =>
    refine hb.mono rfl fun item ht _ => ?_
    simpa [ho, hu] using ht
  | skip hr hf | condemn hr hf =>
    rw [hcl.start _ hr] at hf
    cases hf
  | @wait shard _ _ hr ha =>
    intro load hl
    obtain ⟨hl, hot⟩ := mem_filter.1 hl
    obtain ⟨item, ht, hs⟩ := hb load hl
    refine ⟨item, ?_, hs⟩
    have he : item ≠ shard := by
      rintro rfl
      rw [ha] at hs
      cases hs.1
      simp at hot
    simp [hr, he] at ht
    simp [waited]
    tauto
  | @found _ hr ha | @lost _ hr ha =>
    exact hb.mono rfl (unwaited_leave hr ha)
  | @drainRunning shard _ _ _ _ hu =>
    simp only [calm, hu, List.head?_cons, Option.map_some, Option.join_some,
      Bool.and_eq_true, Option.isNone_iff_eq_none] at hc
    refine hb.mono rfl fun item ht hm => ?_
    have he : item ≠ shard := fun he => hm (he ▸ hc.2)
    simp [hu, he] at ht ⊢
    tauto
  | event _ hr | copyLast _ hr | copy _ hr | copyFailed hr
  | copyBroken hr | sync _ hr | cleared hr | report hr
  | resync hr | finish hr
  | discard hr => exact hb.mono rfl (unwaited_turn hr rfl _)
  | _ =>
    refine hb.mono rfl fun item ht _ => ?_
    simp_all

end
end UnifiedCache.Cache
