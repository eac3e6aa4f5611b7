import UnifiedCache.Cache.Handles

/-! The shards of a load on their way: they stay in order, the one with the waiter is the
last, and the latch of a task is closed as long as one of them is under way. This rests on
the backend refusing a load only for the first shard of a task, since a refusal opens the
latch at once. -/
namespace UnifiedCache.Cache
open LoadState LoadQueue List
open Store

def LoadQueue.early (queue : LoadQueue) : LoadMove → Bool
  | .load false =>
    match queue.dispatcher with
    | .holding _ position _ _ _ => position = 0
    | _ => true
  | _ => true

def Dispatcher.opening : Dispatcher → List TaskHandle
  | .shards task 0 _ _ => [task]
  | .holding task 0 _ _ _ => [task]
  | .pushing item 0 _ => [item.task]
  | .refused task _ => [task]
  | _ => []

def Dispatcher.Flagged : Dispatcher → Prop
  | .pushing item _ rest => item.last = rest.isEmpty
  | _ => True

structure LoadQueue.Ordered (queue : LoadQueue) : Prop where
  nodup : queue.waiting.Nodup
  apart : ∀ handle ∈ queue.waiting, handle ∉ queue.dispatcher.tasks ∧
    handle ∉ queue.items.map ShardTask.task
  opening : ∀ handle ∈ queue.dispatcher.opening, handle ∉ queue.items.map ShardTask.task
  lasts : queue.items.Pairwise fun earlier later =>
    earlier.last = true → later.task ≠ earlier.task
  ended : ∀ item ∈ queue.items, item.last = true → item.task ∉ queue.dispatcher.tasks
  flagged : queue.dispatcher.Flagged
  holder : ∀ item ∈ queue.holder, item.last = false

namespace LoadQueue.Ordered
variable {queue next : LoadQueue}

section
variable (h : queue.Ordered)
include h

theorem shrink (hw : next.waiting.Sublist queue.waiting) (hs : next.items.Sublist queue.items)
    (hh : ∀ i ∈ next.holder, i.last = false) (ht : next.dispatcher.tasks ⊆ queue.dispatcher.tasks)
    (ho : next.dispatcher.opening ⊆ queue.dispatcher.opening)
    (hf : next.dispatcher.Flagged) : next.Ordered := by
  have ha : ∀ {handle : TaskHandle}, handle ∉ queue.items.map ShardTask.task →
      handle ∉ next.items.map ShardTask.task :=
    fun hno hn => hno ((hs.map ShardTask.task).subset hn)
  constructor
  · exact h.nodup.sublist hw
  · intro handle hm
    obtain ⟨hd, hdi⟩ := h.apart handle (hw.subset hm)
    exact ⟨fun hn => hd (ht hn), ha hdi⟩
  · exact fun handle hm => ha (h.opening handle (ho hm))
  · exact h.lasts.sublist hs
  · exact fun i hm hl hn => h.ended i (hs.subset hm) hl (ht hn)
  · exact hf
  · exact hh

theorem goes {dispatcher : Dispatcher} {loads : List (TaskHandle × Nat)}
    (ht : dispatcher.tasks ⊆ queue.dispatcher.tasks)
    (ho : dispatcher.opening ⊆ queue.dispatcher.opening) (hf : dispatcher.Flagged) :
    LoadQueue.Ordered { queue with dispatcher, loads } :=
  h.shrink (.refl _) (.refl _) h.holder ht ho hf

theorem stays (hd : next.dispatcher = queue.dispatcher) (hw : next.waiting.Sublist queue.waiting)
    (hs : next.items.Sublist queue.items) (hh : ∀ i ∈ next.holder, i.last = false) : next.Ordered :=
  h.shrink hw hs hh (hd ▸ Subset.refl _) (hd ▸ Subset.refl _) (hd ▸ h.flagged)

end

end LoadQueue.Ordered

variable {handle : TaskHandle}

theorem Dispatcher.opening_go {task : TaskHandle} {pos : Nat} {under : List Key} {rest : List Nat}
    (h : handle ∈ (Dispatcher.go task pos under rest).opening) : handle = task ∧ pos = 0 := by
  cases rest with
  | nil => cases h
  | cons =>
    cases pos with
    | zero => exact ⟨mem_singleton.1 h, rfl⟩
    | succ => cases h

theorem Dispatcher.flagged_go (task : TaskHandle) (pos : Nat) (under : List Key)
    (rest : List Nat) : (Dispatcher.go task pos under rest).Flagged := by
  cases rest <;> trivial

section
variable {cfg : Config} {state next : LoadState} {move : LoadMove}

attribute [local simp] items item Dispatcher.tasks Dispatcher.opening turnTo setWrapper setBuffer
  waited

theorem LoadStep.ordered (h : LoadStep cfg state move next) (he : state.queue.early move = true)
    (ho : state.queue.Ordered) : next.queue.Ordered := by
  cases h with
  | turnAway _ hw | drainWaiting _ hw => exact ho.stays rfl (by simp [hw]) (.refl _) ho.holder
  | @take handle _ _ _ hw =>
    have hap := ho.apart handle (by simp [hw])
    have hnd := ho.nodup
    rw [hw] at hnd
    obtain ⟨hne, hrs⟩ := List.nodup_cons.1 hnd
    constructor
    · exact hrs
    · intro o hot
      refine ⟨?_, (ho.apart o (by simp [hw, hot])).2⟩
      intro hn
      exact hne (Dispatcher.tasks_go hn ▸ hot)
    · intro o hot
      rw [(Dispatcher.opening_go hot).1]
      exact hap.2
    · exact ho.lasts
    · intro item ht _ hn
      exact hap.2 (Dispatcher.tasks_go hn ▸ List.mem_map_of_mem ht)
    · exact Dispatcher.flagged_go _ _ _ _
    · exact ho.holder
  | @get _ pos _ _ _ _ _ _ _ hd =>
    refine ho.goes ?_ ?_ trivial
    · simp [hd]
    · cases pos <;> simp [hd]
  | @load _ pos _ _ _ hd | @pass _ pos _ _ _ hd =>
    refine ho.goes ?_ ?_ rfl
    · simp [hd]
    · cases pos <;> simp [hd]
  | @refuse _ pos _ _ _ hd =>
    have hp : pos = 0 := by simpa [early, hd] using he
    subst hp
    refine ho.goes ?_ ?_ trivial
    · simp [hd]
    · simp [hd]
  | @push shard pos rest task hd =>
    have his : ({ state.queue with
        dispatcher := .go shard.task (pos + 1) (cfg.upcoming task) rest
        running := state.queue.running ++ [shard] } : LoadQueue).items =
          state.queue.items ++ [shard] := by simp
    have hts : state.queue.dispatcher.tasks = [shard.task] := by rw [hd]; rfl
    have hf : shard.last = rest.isEmpty := by
      have hfl := ho.flagged
      rw [hd] at hfl
      exact hfl
    constructor
    · exact ho.nodup
    · intro handle hm
      obtain ⟨hs, hq⟩ := ho.apart handle hm
      rw [hts, List.mem_singleton] at hs
      refine ⟨fun hn => hs (Dispatcher.tasks_go hn), ?_⟩
      rw [his, List.map_append, List.mem_append]
      rintro (hn | hn)
      · exact hq hn
      · exact hs (by simpa using hn)
    · intro handle hm
      have hp := (Dispatcher.opening_go hm).2
      cases hp
    · rw [his, List.pairwise_append]
      refine ⟨ho.lasts, List.pairwise_singleton _ _, ?_⟩
      intro e hea l hl ha heq
      rw [List.mem_singleton] at hl
      subst hl
      exact ho.ended e hea ha (by rw [hts, heq]; exact List.mem_singleton_self _)
    · rw [his]
      intro item ht ha hn
      obtain ht | ht := List.mem_append.1 ht
      · apply ho.ended item ht ha
        rw [hts, Dispatcher.tasks_go hn]
        exact List.mem_singleton_self _
      rw [List.mem_singleton] at ht
      subst ht
      rw [hf, List.isEmpty_iff] at ha
      subst ha
      cases hn
    · exact Dispatcher.flagged_go _ _ _ _
    · exact ho.holder
  | fail | drop | prealloc | rest => exact ho.goes (nil_subset _) (nil_subset _) trivial
  | pop hno hr => exact ho.stays rfl (.refl _) (by simp [hno, hr]) ho.holder
  | @copy shard _ htr =>
    refine ho.stays rfl (.refl _) (by simp [htr]) ?_
    intro item ht
    obtain ht | ht := List.mem_append.1 ht
    · exact ho.holder item ht
    · rwa [List.mem_singleton.1 ht]
  | clear _ hh =>
    refine ho.stays rfl (.refl _) (by simp [hh]) ?_
    exact fun i hi => ho.holder i (by simp [hh, hi])
  | discard hr | drainRunning _ _ _ hr => exact ho.stays rfl (.refl _) (by simp [hr]) ho.holder
  | _ =>
    refine ho.stays rfl (.refl _) ?_ ho.holder
    simp_all

end

def LoadQueue.copied (queue : LoadQueue) : List ShardTask :=
  queue.holder ++ (queue.transfer.toList.filter fun transfer => transfer.phase = .syncing).map
    Transfer.item

/-- The copies of a stream belong to shards that are kept, and there are none when the
shards are given up. -/
structure LoadQueue.Settled (queue : LoadQueue) : Prop where
  copies : ∀ copy ∈ queue.copies, ∃ item ∈ queue.copied,
    item.handle.node = copy.1 ∧ item.task = copy.2
  clearing : ∀ item failed, queue.transfer = some ⟨item, .clearing failed⟩ → queue.copies = []
  finishing : ∀ item, queue.transfer = some ⟨item, .finishing⟩ →
    ∀ earlier ∈ queue.holder, earlier.task ≠ item.task

/-- The steps of `cc` that leave copies behind do not happen: a shard of a failed task is
thrown away, a failed copy has issued some of its fragments, or a task fails that has
copied other shards. -/
def LoadState.Tame (config : Config) (state : LoadState) : LoadMove → Prop
  | .check => config.core = .v2 ∨ ∀ shard, state.queue.transfer = some ⟨shard, .start⟩ →
      state.wrapper.failureSet shard.task = false
  | .copy false true => config.core = .v2
  | .report => config.core = .v2 ∨ ∀ shard, state.queue.transfer = some ⟨shard, .failing⟩ →
      ∀ earlier ∈ state.queue.holder, earlier.task ≠ shard.task
  | _ => True

namespace LoadQueue.Settled
variable {queue next : LoadQueue}

theorem turn (h : queue.Settled) (ho : next.copies = queue.copies)
    (hc : ∀ i ∈ queue.copied, i ∈ next.copied)
    (hl : ∀ i f, next.transfer = some ⟨i, .clearing f⟩ → next.copies = [])
    (hf : ∀ i, next.transfer = some ⟨i, .finishing⟩ →
      ∀ e ∈ next.holder, e.task ≠ i.task) : next.Settled := by
  refine ⟨?_, hl, hf⟩
  rw [ho]
  intro c hp
  obtain ⟨i, ht, hs⟩ := h.copies c hp
  exact ⟨i, hc i ht, hs⟩

theorem synced (hc : next.copies = []) (hf : ∀ i, next.transfer = some ⟨i, .finishing⟩ →
      ∀ e ∈ next.holder, e.task ≠ i.task) : next.Settled := by
  refine ⟨?_, fun _ _ _ => hc, hf⟩
  rw [hc]
  intro c hp
  cases hp

end LoadQueue.Settled

section
variable {cfg : Config} {state next : LoadState} {move : LoadMove}

attribute [local simp] copied turnTo setWrapper setBuffer waited

theorem LoadStep.settled (h : LoadStep cfg state move next) (ha : state.Tame cfg move)
    (hs : state.queue.Settled) : next.queue.Settled := by
  cases h with
  | skip hr hf ho =>
    obtain hot | hl := ha
    · rw [ho] at hot
      cases hot
    · rw [hl _ hr] at hf
      cases hf
  | copyLast _ hr | copy _ hr =>
    refine ⟨?_, by simp, by simp⟩
    intro copy hc
    obtain hc | hc := mem_append.1 hc
    · obtain ⟨item, ht, hsa⟩ := hs.copies copy hc
      refine ⟨item, ?_, hsa⟩
      simp only [copied, hr] at ht ⊢
      simp at ht ⊢
      exact .inl ht
    · rw [mem_singleton] at hc
      subst hc
      exact ⟨_, by simp, rfl, rfl⟩
  | copyBroken _ ho =>
    rw [LoadState.Tame, ho] at ha
    cases ha
  | sync | resync => exact .synced rfl (by simp)
  | clear hr =>
    refine .synced (hs.clearing _ _ hr) ?_
    intro item ht
    rw [hr] at ht
    cases ht
  | @cleared _ _ hr hh =>
    refine .synced (hs.clearing _ _ hr) ?_
    intro item _ e he
    simp [hh] at he
  | @report _ hr =>
    refine hs.turn rfl ?_ ?_ ?_
    · simp [hr]
      tauto
    · intro item f ht
      simp only [turnTo, setWrapper, Option.some.injEq, Transfer.mk.injEq] at ht
      split at ht <;> cases ht.2
    intro item ht e he
    simp only [turnTo, setWrapper, Option.some.injEq, Transfer.mk.injEq] at ht
    obtain ⟨rfl, hp⟩ := ht
    obtain ho | hl := ha
    · split at hp
      · cases hp
      rename_i hm
      have hn : state.queue.holder = [] := by
        by_contra hsm
        exact hm ⟨ho, hsm⟩
      simp [hn] at he
    · exact hl _ hr e he
  | discard hr | condemn hr | pop hr | proceed hr | found hr | lost hr | copyFailed hr | finish hr =>
    refine hs.turn rfl ?_ (by simp) (by simp)
    simp [hr]
  | wait ok hr | event ok hr =>
    refine hs.turn rfl ?_ ?_ ?_
    · simp [hr]
      tauto
    · cases ok <;> simp
    · cases ok <;> simp
  | _ => exact { hs with }

end

def Transfer.underWay (transfer : Transfer) : List ShardTask :=
  match transfer.phase with
  | .dropping => []
  | _ => [transfer.item]

def LoadQueue.underWay (queue : LoadQueue) : List TaskHandle :=
  queue.waiting ++ (queue.dispatcher.tasks ++
    (queue.holder ++ (queue.transfer.toList.flatMap Transfer.underWay ++ queue.running)).map
      ShardTask.task)

/-- The latches of these tasks are closed, so that `Wait` has not got past them. -/
def Latched (wrapper : TaskWrapper TransTask) (handles : List TaskHandle) : Prop :=
  ∀ handle ∈ handles, ∃ entry, wrapper.tasks handle = some entry ∧ entry.counter = 1 ∧
    entry.phase.over = false

namespace Latched
variable {wrap next : TaskWrapper TransTask} {handles left : List TaskHandle}
  {handle : TaskHandle}

section
variable (h : Latched wrap handles)
include h

theorem subset (hl : ∀ handle ∈ left, handle ∈ handles) : Latched wrap left :=
  fun handle hm => h handle (hl handle hm)

theorem done (hn : handle ∉ handles) : Latched (wrap.done handle) handles := by
  intro o hm
  obtain ⟨e, he, hc⟩ := h o hm
  refine ⟨e, ?_, hc⟩
  unfold TaskWrapper.done
  rw [TaskWrapper.tasks_modify_of_ne]
  · exact he
  · rintro rfl
    exact hn hm

theorem wait {p : WaitPolicy TransTask} (hs : wrap.WaitStep p handle next) :
    Latched next handles := by
  intro o hm
  obtain ⟨e, hen, hc, hp⟩ := h o hm
  by_cases he : o = handle
  · subst he
    obtain ⟨f, phase, hf, hn, hv⟩ := hs.self
    rw [hen] at hf
    cases hf
    refine ⟨{ e with phase }, hn, hc, ?_⟩
    generalize wrap.failureSet o = failed at hv
    generalize next.failureSet o = after at hv
    cases hv with
    | take | expire => rfl
    | finish _ hz | drain _ hz => simp [hc] at hz
    | succeed ho | report ho =>
      rw [ho] at hp
      cases hp
  · exact ⟨e, (hs.tasks_of_ne he).trans hen, hc, hp⟩

theorem result? (hm : handle ∈ handles) : wrap.result? handle = none := by
  obtain ⟨e, he, -, hp⟩ := h handle hm
  cases hre : wrap.result? handle with
  | none => rfl
  | some =>
    obtain ⟨f, hf, hr⟩ := TaskWrapper.result?_eq_some.1 hre
    rw [he] at hf
    cases hf
    rw [hr] at hp
    cases hp

end
end Latched

variable {queue : LoadQueue}

theorem LoadQueue.items_of_underWay
    (h : handle ∈ (queue.holder ++ (queue.transfer.toList.flatMap Transfer.underWay ++
      queue.running)).map ShardTask.task) : handle ∈ queue.items.map ShardTask.task := by
  have hl : queue.transfer.toList.flatMap Transfer.underWay ⊆
      queue.transfer.toList.map Transfer.item := by
    cases queue.transfer with
    | none => exact fun _ => id
    | some t =>
      obtain ⟨i, p⟩ := t
      cases p <;> simp [Transfer.underWay]
  obtain ⟨i, ht, rfl⟩ := mem_map.1 h
  apply mem_map_of_mem
  unfold items
  simp only [mem_append] at ht ⊢
  exact ht.imp_right fun hn => hn.imp_left fun hc => hl hc

theorem LoadQueue.underWay_turn {item : ShardTask} {b after : TransferPhase}
    (h : queue.transfer = some ⟨item, b⟩) (hb : b ≠ .dropping)
    (hm : handle ∈ ({ queue with transfer := some ⟨item, after⟩ } : LoadQueue).underWay) :
    handle ∈ queue.underWay := by
  have hk : Transfer.underWay ⟨item, b⟩ = [item] := by
    cases b <;> first | rfl | exact absurd rfl hb
  have ho : ∀ s ∈ Transfer.underWay ⟨item, after⟩, s = item := by
    cases after <;> simp [Transfer.underWay]
  simp only [underWay, h, Option.toList_some, flatMap_cons, flatMap_nil,
    append_nil, hk, mem_append, mem_map] at hm ⊢
  obtain hm | hm | ⟨s, hs | hs | hs, ht⟩ := hm
  · exact .inl hm
  · exact .inr (.inl hm)
  · exact .inr (.inr ⟨s, .inl hs, ht⟩)
  · exact .inr (.inr ⟨s, .inr (.inl (mem_singleton.2 (ho s hs))), ht⟩)
  · exact .inr (.inr ⟨s, .inr (.inr hs), ht⟩)

section
variable {cfg : Config} {state next : LoadState} {move : LoadMove}

attribute [local simp] underWay Transfer.underWay setBuffer goTo turnTo item waited Dispatcher.tasks

theorem LoadStep.underWay_subset (h : LoadStep cfg state move next) :
    ∀ handle ∈ next.queue.underWay, handle ∈ state.queue.underWay := by
  intro handle hm
  cases h with
  | turnAway _ hw | drainWaiting _ hw =>
    simp only [underWay, mem_append, hw, mem_cons] at hm ⊢
    tauto
  | take _ hw =>
    simp only [underWay, mem_append, hw, mem_cons] at hm ⊢
    obtain hm | hm | hm := hm
    · exact .inl (.inr hm)
    · exact .inl (.inl (Dispatcher.tasks_go hm))
    · exact .inr (.inr hm)
  | push hd =>
    simp only [underWay, mem_append, map_append, map_cons,
      map_nil, mem_singleton, hd, Dispatcher.tasks] at hm ⊢
    obtain hm | hm | hm := hm
    · exact .inl hm
    · exact .inr (.inl (Dispatcher.tasks_go hm))
    · tauto
  | fail hd =>
    simp only [setWrapper, goTo, underWay, hd,
      Dispatcher.tasks, mem_append, not_mem_nil, false_or] at hm ⊢
    tauto
  | pop hn hr => simpa [hn, hr] using hm
  | copy _ ht | discard ht => simpa [ht] using hm
  | wait ok ht | event ok ht => cases ok <;> simpa [ht] using hm
  | @cleared _ failed ht => cases failed <;> simpa [ht] using hm
  | skip ht | report ht | finish ht => exact underWay_turn ht (by simp) hm
  | clear _ hh =>
    simp only [underWay, hh, cons_append, map_cons, mem_append, mem_cons] at hm ⊢
    tauto
  | drainRunning _ _ _ hr =>
    simp only [underWay, hr, map_append, map_cons, mem_append, mem_cons] at hm ⊢
    tauto
  | _ => simp_all

/-- Whoever is told is under way no more. `DrainRunning` is left out: it tells the waiter of
shards whose copies are not waited for. -/
theorem LoadStep.latched (h : LoadStep cfg state move next) (hp : move ≠ .drainRunning)
    (ho : state.queue.Ordered) (hse : state.queue.Settled)
    (hlt : Latched state.wrapper state.queue.underWay) :
    Latched next.wrapper next.queue.underWay := by
  have hl := hlt.subset h.underWay_subset
  have hwt : ∀ {handle : TaskHandle} {r : List TaskHandle},
      state.queue.waiting = handle :: r → state.queue.dispatcher = .idle →
      handle ∉ ({ state.queue with waiting := r } : LoadQueue).underWay := by
    intro handle r hw hd hn
    have hnd := ho.nodup
    rw [hw] at hnd
    have hap := (ho.apart handle (by simp [hw])).2
    simp only [underWay, hd, Dispatcher.tasks, mem_append, not_mem_nil, false_or] at hn
    obtain hn | hn := hn
    · exact (nodup_cons.1 hnd).1 hn
    · exact hap (items_of_underWay hn)
  cases h with
  | turnAway hd hw
  | drainWaiting hd hw => exact hl.done (hwt hw hd)
  | @fail handle _ hdi =>
    apply hl.done
    intro hn
    simp only [setWrapper, goTo, underWay, Dispatcher.tasks,
      mem_append, not_mem_nil, false_or] at hn
    obtain hn | hn := hn
    · exact (ho.apart handle hn).1 (by simp [hdi, Dispatcher.tasks])
    · apply ho.opening handle (by simp [hdi, Dispatcher.opening])
      exact items_of_underWay hn
  | @finish shard hr =>
    cases hla : shard.last with
    | false => exact hl
    | true =>
      have hs : state.queue.items = state.queue.holder ++ shard :: state.queue.running := by
        simp [items, hr]
      have he : shard ∈ state.queue.items := by simp [hs]
      have ha := ho.lasts
      rw [hs, pairwise_append, pairwise_cons] at ha
      apply hl.done
      intro hn
      simp only [setWrapper, turnTo, underWay, Transfer.underWay,
        Option.toList_some, flatMap_cons, flatMap_nil, append_nil, nil_append,
        mem_append, mem_map] at hn
      obtain hn | hn | ⟨o, hot | hot, ht⟩ := hn
      · exact (ho.apart _ hn).2 (mem_map_of_mem he)
      · exact ho.ended shard he hla hn
      · exact hse.finishing shard hr o hot ht
      · exact ha.2.1.1 o hot hla ht
  | drainRunning => exact absurd rfl hp
  | _ => exact hl

end

theorem LoadQueue.tasks_of_underWay (h : handle ∈ queue.underWay) : handle ∈ queue.tasks := by
  unfold underWay at h
  unfold tasks
  simp only [mem_append] at h ⊢
  exact h.imp_right fun hn => hn.imp_right fun hs => items_of_underWay hs

theorem Concludes.latched {t handles : List TaskHandle} {wrapper next : TaskWrapper TransTask}
    (h : Concludes t wrapper next) (hl : Latched wrapper handles)
    (hd : ∀ handle ∈ handles, handle ∉ t) : Latched next handles := by
  cases h with
  | nothing | fail => exact hl
  | done hm => exact hl.done fun hn => hd _ hn hm
  | failDone hm => exact Latched.done hl fun hn => hd _ hn hm

structure Process.Final (process : Process) : Prop where
  ordered : process.load.Ordered
  settled : process.load.Settled
  latched : Latched process.wrapper process.load.underWay

namespace Process
variable {cfg : Config} {shared after : Shared} {proc next : Process} {move : Move}

theorem final_start : ({} : Process).Final := by
  refine ⟨⟨?_, ?_, ?_, ?_, ?_, ?_, ?_⟩, ⟨?_, ?_, ?_⟩, ?_⟩ <;>
    simp [items, Dispatcher.opening, Dispatcher.Flagged, underWay, Dispatcher.tasks, Latched]

theorem Ordered.submit (h : proc.load.Ordered) (ht : proc.Typed) (task : TransTask)
    (full : Bool) : (proc.submit task full).load.Ordered := by
  have he := ht.nextId_notMem
  simp only [tasks, mem_append, not_or] at he
  obtain ⟨hw, hd, hs⟩ := he
  unfold Process.submit
  cases full with
  | true => exact h
  | false =>
    cases task.type with
    | DUMP => exact h
    | LOAD =>
      refine { h with nodup := ?_, apart := ?_ }
      · simp only [Bool.false_eq_true, if_false]
        rw [nodup_append]
        refine ⟨h.nodup, pairwise_singleton _ _, ?_⟩
        intro o ho n hn
        rw [mem_singleton.1 hn]
        rintro rfl
        exact hw ho
      intro handle hm
      obtain hm | hm := mem_append.1 hm
      · exact h.apart handle hm
      · rw [mem_singleton.1 hm]
        exact ⟨hd, hs⟩

theorem Settled.submit (h : proc.load.Settled) (t : TransTask) (f : Bool) :
    (proc.submit t f).load.Settled := by
  unfold Process.submit
  cases f with
  | true => exact h
  | false => cases t.type <;> exact { h with }

theorem Latched.submit (h : Latched proc.wrapper proc.load.underWay)
    (ht : proc.Typed) (task : TransTask) (full : Bool) :
    Latched (proc.submit task full).wrapper (proc.submit task full).load.underWay := by
  have hn : proc.nextId ∉ proc.load.underWay := fun hm => ht.nextId_notMem (tasks_of_underWay hm)
  have hr : Latched (proc.wrapper.register proc.nextId { task, counter := 1 })
      (proc.nextId :: proc.load.underWay) := by
    intro handle hm
    obtain rfl | hm := mem_cons.1 hm
    · exact ⟨_, Function.update_self _ _ _, rfl, rfl⟩
    obtain ⟨e, he, hc⟩ := h handle hm
    refine ⟨e, ?_, hc⟩
    unfold TaskWrapper.register
    dsimp only
    rw [Function.update_of_ne]
    · exact he
    · rintro rfl
      exact hn hm
  have ho := hr.subset fun handle hm => mem_cons_of_mem _ hm
  unfold Process.submit
  cases full with
  | true => exact Cache.Latched.done ho hn
  | false =>
    cases task.type with
    | DUMP => exact ho
    | LOAD =>
      apply hr.subset
      intro handle hm
      simp only [Bool.false_eq_true, if_false, underWay, mem_append, mem_cons] at hm ⊢
      tauto

theorem Final.advances (h : proc.Final) (ht : proc.Typed)
    (hs : proc.Advances cfg shared move after next) (ho : ∀ l, move = .load l →
      proc.load.early l = true ∧ l ≠ .drainRunning ∧
      LoadState.Tame cfg ⟨shared, proc.wrapper, proc.load⟩ l) : next.Final := by
  cases hs with
  | submit t f =>
    exact ⟨Ordered.submit h.ordered ht t f, Settled.submit h.settled t f,
      Latched.submit h.latched ht t f⟩
  | load hl =>
    obtain ⟨he, hp, ha⟩ := ho _ rfl
    exact ⟨hl.ordered he h.ordered, hl.settled ha h.settled,
      hl.latched hp h.ordered h.settled h.latched⟩
  | dump hd =>
    refine ⟨h.ordered, h.settled, hd.concludes.latched h.latched ?_⟩
    exact fun handle hm => ht.disjoint (tasks_of_underWay hm)
  | wait hw =>
    exact ⟨h.ordered, h.settled, h.latched.wait (TaskWrapper.WaitStep.of_advance hw)⟩

theorem Final.result? (h : proc.Final) {copy : Nat × TaskHandle}
    (hc : copy ∈ proc.load.copies) : proc.wrapper.result? copy.2 = none := by
  obtain ⟨i, he, -, ht⟩ := h.settled.copies copy hc
  apply h.latched.result?
  rw [← ht]
  simp only [underWay, mem_append, mem_map]
  refine .inr (.inr ⟨i, ?_, rfl⟩)
  obtain he | he := mem_append.1 he
  · exact .inl he
  obtain ⟨⟨c, p⟩, hu, rfl⟩ := mem_map.1 he
  obtain ⟨hn, hp⟩ := mem_filter.1 hu
  rw [decide_eq_true_eq] at hp
  subst hp
  refine .inr (.inl (mem_flatMap.2 ⟨_, hn, ?_⟩))
  exact mem_singleton_self _

end Process
end UnifiedCache.Cache
