import Mathlib.Data.List.Nodup
import UnifiedCache.Cache.Pledges

/-! What the memory of a node holds, in `cc`. Every holder of a handle has a stake in its node:
it writes to it, has filled it, or relies on it being ready. A node has one owner at a time, and
only the owner writes to the memory and marks the node, so no stake is lost by what others do. -/
namespace UnifiedCache.Cache
open List Store LoadQueue LoadState

/-! One owner for a node -/

def Sole (handles : List Handle) : Prop :=
  ((handles.filter Handle.owner).map Handle.node).Nodup

namespace Sole
variable {handles left others : List Handle}

theorem sublist (h : Sole handles) (hs : left <+ handles) : Sole left :=
  List.Nodup.sublist ((hs.filter _).map _) h

theorem perm (h : Sole handles) (hp : handles ~ left) : Sole left :=
  ((hp.filter _).map _).nodup_iff.1 h

theorem subperm (h : Sole handles) (hs : left <+~ handles) : Sole left := by
  obtain ⟨middle, hp, hm⟩ := hs
  exact (h.sublist hm).perm hp

theorem apart (h : Sole (handles ++ others)) {got other : Handle} (hg : got ∈ handles)
    (ho : other ∈ others) (hgo : got.owner = true) (hoo : other.owner = true) :
    got.node ≠ other.node := by
  rw [Sole, filter_append, map_append, nodup_append] at h
  exact h.2.2 _ (mem_map_of_mem (mem_filter.2 ⟨hg, hgo⟩)) _
    (mem_map_of_mem (mem_filter.2 ⟨ho, hoo⟩))

end Sole

variable {request : Request} {victim : Nat} {buffer after : Buffer} {got : Handle}
  {stakes : List Stake} {stake : Stake}

theorem Buffer.Gets.unreferenced (h : Gets .cc request victim buffer got after)
    (ho : got.owner = true) : buffer.references got.node = 0 := by
  cases h with
  | hit => simpa [Core.owns, references] using ho
  | miss _ _ hf =>
    simp only [free, Bool.and_eq_true, decide_eq_true_eq] at hf
    exact hf.2

theorem Keeps.sole {before after : Buffer} {handles left : List Handle}
    (h : Keeps .cc before after handles left) (hs : Sole handles)
    (hc : ∀ index, before.references index = held handles index) : Sole left := by
  cases h with
  | same _ hp => exact hs.perm hp.symm
  | release _ hp => exact (hs.perm hp).sublist (sublist_cons_self _ _)
  | @get _ _ got hg hp =>
    refine Sole.perm ?_ hp.symm
    cases ho : got.owner with
    | false => simpa [Sole, ho] using hs
    | true =>
      have hz := (Buffer.Gets.of_get hg).unreferenced ho
      simp only [Sole, filter_cons, ho, if_true, map_cons, nodup_cons]
      refine ⟨?_, hs⟩
      intro hm
      obtain ⟨other, hn, he⟩ := mem_map.1 hm
      have hp := held_pos (mem_filter.1 hn).1
      rw [he, ← hc, hz] at hp
      exact Nat.lt_irrefl 0 hp

theorem Sole.others {rest : List Stake}
    (h : Sole (stakes.map Stake.handle)) (hp : stakes ~ stake :: rest) :
    ∀ other ∈ rest, stake.handle.owner = true → other.handle.owner = true →
      other.handle.node ≠ stake.handle.node := by
  intro other hm ho hoo
  have hs : Sole ([stake.handle] ++ rest.map Stake.handle) := h.perm (hp.map _)
  exact (hs.apart (mem_singleton_self _) (mem_map_of_mem hm) ho hoo).symm

theorem Sole.eq_of_node {other : Stake}
    (h : Sole (stakes.map Stake.handle)) (hs : stake ∈ stakes) (ho : other ∈ stakes)
    (hso : stake.handle.owner = true) (hoo : other.handle.owner = true)
    (he : stake.handle.node = other.handle.node) : stake = other := by
  rw [Sole, filter_map, map_map] at h
  exact inj_on_of_nodup_map h (mem_filter.2 ⟨hs, hso⟩) (mem_filter.2 ⟨ho, hoo⟩) he

abbrev Memory := Nat → Option Key

structure Stake.Holds (buffer : Buffer) (memory : Memory) (stake : Stake) : Prop where
  key : (buffer.nodes stake.handle.node).key = some stake.key
  owner : stake.role ≠ .idle → stake.handle.owner = true
  writing : stake.role = .writing → (buffer.nodes stake.handle.node).state ≠ .READY
  filled : stake.role = .filled → memory stake.handle.node = some stake.key
  ready : stake.role = .ready → (buffer.nodes stake.handle.node).state = .READY

/-! What a step changes -/

/-- Nodes that are in use keep what they say, and no node becomes ready. -/
structure Buffer.Still (before after : Buffer) : Prop where
  pinned : ∀ node, 0 < before.references node →
    (after.nodes node).key = (before.nodes node).key ∧
      (after.nodes node).state = (before.nodes node).state
  ready : ∀ node, (after.nodes node).state = .READY →
    (before.nodes node).state = .READY ∧ (after.nodes node).key = (before.nodes node).key

namespace Buffer.Still

theorem refl (buffer : Buffer) : Still buffer buffer :=
  ⟨fun _ _ => ⟨rfl, rfl⟩, fun _ hr => ⟨hr, rfl⟩⟩

theorem alloc {index : Nat} (key : Key) (reference : Nat) (hf : buffer.free index = true) :
    Still buffer (buffer.alloc key reference index) := by
  simp only [free, Bool.and_eq_true, decide_eq_true_eq] at hf
  constructor
  · intro node hp
    have hn : node ≠ index := by
      rintro rfl
      exact Nat.ne_of_gt hp hf.2
    simp [Buffer.alloc, hn]
  · intro node hr
    rw [Buffer.alloc, nodes_set] at hr ⊢
    split at hr
    · cases hr
    · rename_i hn
      exact ⟨hr, by rw [if_neg hn]⟩

theorem get (h : buffer.get .cc request victim = some (got, after)) : Still buffer after := by
  cases Gets.of_get h with
  | miss _ _ hf => exact alloc _ _ hf
  | @hit index =>
    constructor
    · intro node hp
      rw [pin, nodes_set]
      split
      · rename_i hn
        have ho : Core.cc.owns request (buffer.nodes index) = false := by
          simpa [Core.owns, ← hn, references] using Nat.ne_of_gt hp
        simp [hn, Core.renewed, ho]
      · exact ⟨rfl, rfl⟩
    · intro node hr
      rw [pin, nodes_set] at hr ⊢
      split at hr
      · rename_i hn
        subst hn
        dsimp only [Core.renewed] at hr
        split at hr
        · cases hr
        · simpa using hr
      · rename_i hn
        exact ⟨hr, by rw [if_neg hn]⟩

theorem prealloc {key : Key} {victim : Option Nat}
    (h : buffer.prealloc .cc key victim = some after) : Still buffer after := by
  unfold Buffer.prealloc at h
  split at h
  · cases h
    exact refl buffer
  split at h
  · split at h
    · rename_i hf
      cases h
      exact alloc _ _ hf
    · cases h
  · simp at h

theorem release : Still buffer (buffer.release .cc got) := by
  have hn : ∀ node, ((buffer.release .cc got).nodes node).key = (buffer.nodes node).key ∧
      ((buffer.release .cc got).nodes node).state = (buffer.nodes node).state := by
    intro node
    rw [Buffer.release, nodes_set]
    split
    · rename_i he
      simp [he]
    · exact ⟨rfl, rfl⟩
  exact ⟨fun node _ => hn node, fun node hr => ⟨(hn node).2 ▸ hr, (hn node).1⟩⟩

end Buffer.Still

@[simp] theorem Buffer.nodes_markBy (got : Handle) (state : State) (buffer : Buffer) (node : Nat) :
    (buffer.markBy .cc got state).nodes node =
      if node = got.node then { buffer.nodes got.node with state } else buffer.nodes node := by
  simp [markBy, mark]

def Buffer.Filled (memory : Memory) (buffer : Buffer) : Prop :=
  ∀ node key, (buffer.nodes node).state = .READY → (buffer.nodes node).key = some key →
    memory node = some key

/-- A step of a queue with these handles: what is in use keeps its key, nothing happens to the
nodes that the queue does not own, and the stakes of the queue hold afterwards. -/
structure Firm (before after : Buffer) (memory written : Memory) (handles : List Handle)
    (stakes : List Stake) : Prop where
  key : ∀ node, 0 < before.references node → (after.nodes node).key = (before.nodes node).key
  rest : ∀ node, 0 < before.references node →
    (∀ got ∈ handles, got.owner = true → got.node ≠ node) →
    (after.nodes node).state = (before.nodes node).state ∧ written node = memory node
  ready : before.Filled memory → after.Filled written
  stakes : ∀ stake ∈ stakes, stake.Holds after written

section
variable {before : Buffer} {memory written : Memory} {handles : List Handle}

theorem Stake.Holds.frame (h : stake.Holds before memory)
    (hk : (after.nodes stake.handle.node).key = (before.nodes stake.handle.node).key)
    (hr : stake.role ≠ .idle →
      (after.nodes stake.handle.node).state = (before.nodes stake.handle.node).state ∧
        written stake.handle.node = memory stake.handle.node) : stake.Holds after written := by
  refine ⟨hk.trans h.key, h.owner, ?_, ?_, ?_⟩
  · intro he
    rw [(hr (by simp [he])).1]
    exact h.writing he
  · intro he
    rw [(hr (by simp [he])).2]
    exact h.filled he
  · intro he
    rw [(hr (by simp [he])).1]
    exact h.ready he

theorem Stake.Holds.still (h : stake.Holds before memory) (hs : before.Still after)
    (hp : 0 < before.references stake.handle.node) : stake.Holds after memory :=
  h.frame (hs.pinned _ hp).1 fun _ => ⟨(hs.pinned _ hp).2, rfl⟩

theorem Firm.still (hs : before.Still after) (hh : ∀ stake ∈ stakes, stake.Holds after memory) :
    Firm before after memory memory handles stakes := by
  refine ⟨fun node hp => (hs.pinned node hp).1, fun node hp _ => ⟨(hs.pinned node hp).2, rfl⟩,
    ?_, hh⟩
  intro hf node key hr hk
  obtain ⟨hb, he⟩ := hs.ready node hr
  exact hf node key hb (he ▸ hk)

/-- A step that only goes on with the stakes it had, apart from those shown to hold. -/
theorem Firm.keep {old stakes : List Stake} (hs : before.Still after)
    (hp : ∀ stake ∈ old, 0 < before.references stake.handle.node)
    (ho : ∀ stake ∈ old, stake.Holds before memory)
    (hh : ∀ stake ∈ stakes, stake ∈ old ∨ stake.Holds after memory) :
    Firm before after memory memory handles stakes := by
  refine .still hs fun stake hn => ?_
  obtain hn | hn := hh stake hn
  · exact (ho stake hn).still hs (hp stake hn)
  · exact hn

theorem Firm.mark {mark : State} (hg : got ∈ handles)
    (ho : got.owner = true) (hw : ∀ node, node ≠ got.node → written node = memory node)
    (hr : mark = .READY → ∀ key, (before.nodes got.node).key = some key →
      written got.node = some key)
    (hh : ∀ stake ∈ stakes, stake.Holds (before.markBy .cc got mark) written) :
    Firm before (before.markBy .cc got mark) memory written handles stakes := by
  refine ⟨?_, ?_, ?_, hh⟩
  · intro node _
    rw [Buffer.nodes_markBy]
    split
    · rename_i he
      rw [he]
    · rfl
  · intro node _ hn
    have he := (hn got hg ho).symm
    rw [Buffer.nodes_markBy, if_neg he]
    exact ⟨rfl, hw node he⟩
  · intro hf node key hn hk
    rw [Buffer.nodes_markBy] at hn hk
    split at hn
    · rename_i he
      rw [if_pos he] at hk
      exact he ▸ hr hn key hk
    · rename_i he
      rw [if_neg he] at hk
      exact (hw node he).trans (hf node key hn hk)

theorem Firm.holds (h : Firm before after memory written handles stakes)
    (hs : stake.Holds before memory) (hp : 0 < before.references stake.handle.node)
    (ha : stake.handle.owner = true → ∀ got ∈ handles, got.owner = true →
      got.node ≠ stake.handle.node) : stake.Holds after written :=
  hs.frame (h.key _ hp) fun hn => h.rest _ hp (ha (hs.owner hn))

end

def Memory.deposit (deposits : List (Nat × Key)) (memory : Memory) : Memory :=
  fun node => (deposits.lookup node).or (memory node)

/-- What has arrived in the memory of a node when a wait of the transfer thread returns. -/
def LoadQueue.deposits (queue : LoadQueue) : LoadMove → List (Nat × Key)
  | .wait true =>
    match queue.transfer with
    | some transfer => [(transfer.item.handle.node, transfer.item.key)]
    | none => []
  | _ => []

def DumpQueue.deposits (queue : DumpQueue) : DumpMove → List (Nat × Key)
  | .sync true =>
    match queue.dumper with
    | some dumper =>
      (dumper.ctx.filter fun entry => entry.2.node ∈ queue.copies).map fun entry =>
        (entry.2.node, entry.1)
    | none => []
  | _ => []

section
variable {cfg : Config} {state next : LoadState} {move : LoadMove} {memory : Memory}

theorem Buffer.Gets.key (h : Gets .cc request victim buffer got after) :
    (after.nodes got.node).key = some request.key := by
  cases h with
  | hit hf => simpa [pin] using (find_key hf).2
  | miss => simp [alloc]

theorem Stake.Holds.markBy {written : Memory}
    (h : stake.Holds buffer memory) (mark : State) (ho : stake.handle.owner = true →
      stake.handle.node ≠ got.node ∧ written stake.handle.node = memory stake.handle.node) :
    stake.Holds (buffer.markBy .cc got mark) written := by
  apply h.frame
  · rw [Buffer.nodes_markBy]
    split
    · rename_i he
      rw [he]
    · rfl
  · intro hn
    obtain ⟨he, hw⟩ := ho (h.owner hn)
    rw [Buffer.nodes_markBy, if_neg he]
    exact ⟨rfl, hw⟩

attribute [local simp] LoadQueue.stakes Dispatcher.stakes Transfer.unwaited

theorem LoadStep.firm (hc : cfg.core = .cc) (h : LoadStep cfg state move next)
    (hso : Sole state.queue.handles)
    (hp : ∀ got ∈ state.queue.handles, 0 < state.shared.buffer.references got.node)
    (hs : ∀ stake ∈ state.queue.stakes, stake.Holds state.shared.buffer memory) :
    Firm state.shared.buffer next.shared.buffer memory
      (memory.deposit (state.queue.deposits move)) state.queue.handles next.queue.stakes := by
  have hap : Sole (state.queue.stakes.map Stake.handle) := hso.sublist state.queue.stakes_sublist
  have hpi : ∀ stake ∈ state.queue.stakes,
      0 < state.shared.buffer.references stake.handle.node :=
    fun stake hn => hp _ (state.queue.stakes_sublist.subset (mem_map_of_mem hn))
  have hsub : ∀ {after : Buffer} {queue : LoadQueue}, state.shared.buffer.Still after →
      queue.dispatcher.stakes ⊆ state.queue.dispatcher.stakes →
      queue.transfer.toList.flatMap Transfer.unwaited ++ queue.running ⊆
        state.queue.transfer.toList.flatMap Transfer.unwaited ++ state.queue.running →
      Firm state.shared.buffer after memory memory state.queue.handles queue.stakes := by
    intro after queue ht hd hi
    refine .keep ht hpi hs fun stake hn => .inl ?_
    exact (mem_append.1 hn).elim (fun hn => mem_append_left _ (hd hn))
      fun hn => mem_append_right _ (map_subset _ hi hn)
  cases h with
  | @get _ _ _ _ _ key _ got _ hd _ _ hg =>
    rw [hc] at hg
    refine .keep (.get hg) hpi hs fun stake hn => ?_
    obtain rfl | hn := mem_cons.1 hn
    · exact .inr ⟨(Buffer.Gets.of_get hg).key, by simp, by simp, by simp, by simp⟩
    · exact .inl (mem_append_right _ hn)
  | @load _ _ _ key got hd hmi =>
    have hh := hs ⟨key, got, .idle⟩ (by simp [hd])
    simp only [missing, Bool.and_eq_true, decide_eq_true_eq] at hmi
    refine .keep (.refl _) hpi hs fun stake hn => ?_
    obtain rfl | hn := mem_cons.1 hn
    · exact .inr ⟨hh.key, fun _ => hmi.1, fun _ => hmi.2, by simp [ShardTask.stake, item],
        by simp [ShardTask.stake, item]⟩
    · exact .inl (mem_append_right _ hn)
  | @pass _ _ _ key got hd =>
    refine .keep (.refl _) hpi hs fun stake hn => ?_
    obtain rfl | hn := mem_cons.1 hn
    · exact .inl (by simp [hd, ShardTask.stake, item])
    · exact .inl (mem_append_right _ hn)
  | @push shard _ _ _ hd =>
    refine .keep (.refl _) hpi hs fun stake hn => .inl ?_
    rw [LoadQueue.stakes, Dispatcher.stakes_go] at hn
    simp only [LoadQueue.stakes, hd, Dispatcher.stakes, nil_append, map_append, mem_append, map_cons,
      map_nil] at hn ⊢
    tauto
  | @refuse _ _ _ key got hd hmi =>
    simp only [missing, Bool.and_eq_true, decide_eq_true_eq] at hmi
    rw [hc]
    refine .mark (by simp [LoadQueue.handles, hd]) hmi.1 (fun _ _ => rfl) (by simp) ?_
    intro stake hn
    have hst : state.queue.stakes =
        ⟨key, got, .idle⟩ :: (state.goTo (.refused 0 got)).queue.stakes := by
      simp [hd, goTo]
    rw [hst] at hs hap
    exact (hs stake (mem_cons_of_mem _ hn)).markBy .FAILED fun ho =>
      ⟨hap.others (.refl _) stake hn hmi.1 ho, rfl⟩
  | @wait shard backend ok hd hb =>
    have hst : state.queue.stakes ~ shard.stake :: (state.turnTo none).queue.stakes := by
      simp [hd, turnTo]
    have hsh := hs shard.stake (hst.symm.subset mem_cons_self)
    have ho : shard.handle.owner = true := hsh.owner (by simp [ShardTask.stake, hb])
    have hne : ∀ stake ∈ (state.turnTo none).queue.stakes, stake.handle.owner = true →
        stake.handle.node ≠ shard.handle.node := fun stake hn => hap.others hst stake hn ho
    have hin : ∀ stake ∈ (state.turnTo none).queue.stakes,
        stake.Holds state.shared.buffer memory :=
      fun stake hn => hs stake (hst.symm.subset (mem_cons_of_mem _ hn))
    have hmem : shard.handle ∈ state.queue.handles := by simp [LoadQueue.handles, items, hd]
    cases ok with
    | false =>
      dsimp only [waited]
      rw [hc]
      refine .mark hmem ho (fun _ _ => rfl) (by simp) fun stake hn => ?_
      exact (hin stake hn).markBy .FAILED fun hso => ⟨hne stake hn hso, rfl⟩
    | true =>
      have hw : ∀ node, node ≠ shard.handle.node →
          memory.deposit (state.queue.deposits (.wait true)) node = memory node := by
        intro node hn
        have he : (node == shard.handle.node) = false := by simpa using hn
        simp [Memory.deposit, LoadQueue.deposits, hd, lookup_cons, he]
      dsimp only [waited]
      rw [hc]
      refine .mark hmem ho hw ?_ fun stake hn => ?_
      · intro _ key hk
        cases hsh.key.symm.trans hk
        simp [Memory.deposit, LoadQueue.deposits, hd, ShardTask.stake]
      · exact (hin stake hn).markBy .READY fun hso =>
          ⟨hne stake hn hso, hw _ (hne stake hn hso)⟩
  | condemn _ _ hv => simp [hc] at hv
  | drainRunning _ _ ht hr =>
    rw [hc]
    refine hsub .release ?_ ?_ <;> simp [ht, hr]
  | drop hd | discard hd | clear _ hd =>
    rw [hc]
    refine hsub .release ?_ ?_ <;> simp [hd, setBuffer, goTo, turnTo]
  | prealloc hd hpr =>
    rw [hc] at hpr
    refine hsub (.prealloc hpr) ?_ ?_ <;> simp [setBuffer, goTo]
  | take =>
    refine hsub (.refl _) ?_ (Subset.refl _)
    rw [Dispatcher.stakes_go]
    exact nil_subset _
  | pop ht hr =>
    refine hsub (.refl _) ?_ ?_ <;> simp [ht, hr]
  | skip | event | cleared | report =>
    -- the phase that comes next is chosen by an `if`
    refine hsub (.refl _) ?_ ?_
    · simp [turnTo, setWrapper]
    · simp only [turnTo, setWrapper, hc]
      split <;> simp
  | turnAway | close | drainWaiting => exact hsub (.refl _) (Subset.refl _) (Subset.refl _)
  | proceed ht =>
    refine hsub (.refl _) ?_ ?_ <;> simp [turnTo, ht]
  | _ =>
    refine hsub (.refl _) ?_ ?_ <;> simp [turnTo, goTo, setWrapper]

end

section
variable {cfg : Config} {state next : DumpState} {move : DumpMove} {memory : Memory}

theorem Stake.Holds.filled_markBy {mark : State}
    (h : stake.Holds buffer memory) (hr : stake.role = .filled) :
    stake.Holds (buffer.markBy .cc got mark) memory := by
  refine ⟨?_, h.owner, by simp [hr], h.filled, by simp [hr]⟩
  rw [Buffer.nodes_markBy]
  split
  · rename_i he
    exact he ▸ h.key
  · exact h.key

theorem Stake.Holds.idle (h : stake.Holds buffer memory) :
    (⟨stake.key, stake.handle, .idle⟩ : Stake).Holds buffer memory :=
  ⟨h.key, by simp, by simp, by simp, by simp⟩

variable {queue : DumpQueue} {dumper : Dumper}

theorem DumpQueue.deposit_sync (memory : Memory) (hd : queue.dumper = some dumper) (node : Nat) :
    (∃ entry ∈ dumper.ctx, entry.2.node = node ∧ node ∈ queue.copies ∧
      memory.deposit (queue.deposits (.sync true)) node = some entry.1) ∨
    memory.deposit (queue.deposits (.sync true)) node = memory node ∧
      ∀ entry ∈ dumper.ctx, entry.2.node = node → node ∉ queue.copies := by
  have hm : ∀ {deposit : Nat × Key}, deposit ∈ queue.deposits (.sync true) ↔
      ∃ entry ∈ dumper.ctx, entry.2.node ∈ queue.copies ∧ (entry.2.node, entry.1) = deposit := by
    simp [deposits, hd, and_assoc]
  cases hl : (queue.deposits (.sync true)).lookup node with
  | none =>
    refine .inr ⟨by rw [Memory.deposit, hl, Option.none_or], ?_⟩
    rintro entry he rfl hco
    have hn := List.lookup_eq_none_iff.1 hl _ (hm.2 ⟨entry, he, hco, rfl⟩)
    simp at hn
  | some key =>
    obtain ⟨front, back, hb, -⟩ := List.lookup_eq_some_iff.1 hl
    obtain ⟨entry, he, hco, hq⟩ := hm.1 (hb ▸ mem_append_right _ mem_cons_self)
    obtain ⟨rfl, rfl⟩ := Prod.mk.inj hq
    exact .inl ⟨entry, he, rfl, hco, by rw [Memory.deposit, hl, Option.some_or]⟩

structure Dumper.Steady (dumper : Dumper) : Prop where
  tidy : dumper.Tidy
  marks : dumper.Marks
  uncondemned : ∀ left, dumper.phase ≠ .condemning left

section
variable (hp : ∀ got ∈ state.queue.handles, 0 < state.shared.buffer.references got.node)
  (hs : ∀ stake ∈ state.queue.stakes, stake.Holds state.shared.buffer memory)
include hp hs

theorem DumpState.firm_keep (ht : state.shared.buffer.Still after)
    (hn : ∀ stake ∈ stakes, stake ∈ state.queue.stakes ∨ stake.Holds after memory) :
    Firm state.shared.buffer after memory memory state.queue.handles stakes :=
  .keep ht (fun _ hm => hp _ (state.queue.stakes_subperm.subset (mem_map_of_mem hm))) hs hn

theorem DumpState.firm_turn
    (ht : state.shared.buffer.Still after) (hu : queue.unwaited = state.queue.unwaited)
    (hd : queue.dumper = some dumper) (hph : dumper.phase.stakes = [])
    (hct : ∀ entry ∈ dumper.ctx, dumper.phase.stake queue.copies entry ∈ state.queue.stakes ∨
      (dumper.phase.stake queue.copies entry).Holds after memory) :
    Firm state.shared.buffer after memory memory state.queue.handles queue.stakes := by
  refine firm_keep hp hs ht fun stake hn => ?_
  obtain (hn | ⟨entry, he, rfl⟩) | ⟨ctx, hm, hn⟩ := (DumpQueue.mem_stakes hd).1 hn
  · rw [hph] at hn
    cases hn
  · exact hct entry he
  · exact .inl (mem_append_right _ (mem_flatMap.2 ⟨ctx, hu ▸ hm, hn⟩))

theorem DumpState.firm_wait
    (ht : state.shared.buffer.Still after) (hd : queue.dumper = state.queue.dumper)
    (hc : queue.copies = state.queue.copies) (hu : queue.unwaited ⊆ state.queue.unwaited) :
    Firm state.shared.buffer after memory memory state.queue.handles queue.stakes := by
  refine firm_keep hp hs ht fun stake hn => .inl ?_
  rw [DumpQueue.stakes, hd, hc] at hn
  obtain hn | hn := mem_append.1 hn
  · exact mem_append_left _ hn
  · obtain ⟨ctx, hm, hx⟩ := mem_flatMap.1 hn
    exact mem_append_right _ (mem_flatMap.2 ⟨ctx, hu hm, hx⟩)

end

/-- Behind the synchronisation every shard of the dump is filled: those that were copied have
the deposit, the others were ready. -/
theorem DumpState.firm_sync {left : List Handle}
    (hso : Sole state.queue.handles) (hf : state.shared.buffer.Filled memory)
    (hs : ∀ stake ∈ state.queue.stakes, stake.Holds state.shared.buffer memory)
    (hd : state.queue.dumper = some dumper) (hph : dumper.phase = .syncing)
    (hn : queue.dumper = some { dumper with phase := .marking left })
    (hu : queue.unwaited = state.queue.unwaited) :
    Firm state.shared.buffer state.shared.buffer memory
      (memory.deposit (state.queue.deposits (.sync true))) state.queue.handles queue.stakes := by
  have hst : ∀ entry ∈ dumper.ctx, dumper.phase.stake state.queue.copies entry ∈
      state.queue.stakes := fun entry he => DumpQueue.stake_of_ctx hd he
  have hdep := fun node => DumpQueue.deposit_sync memory hd node
  have hwr : ∀ entry : Key × Handle, entry.2.node ∈ state.queue.copies →
      (dumper.phase.stake state.queue.copies entry).role = .writing := by
    intro entry hco
    rw [hph]
    exact if_pos hco
  refine ⟨fun _ _ => rfl, fun node _ hn => ?_, fun _ node key hr hk => ?_, fun stake hm => ?_⟩
  · obtain ⟨entry, he, rfl, hco, -⟩ | ⟨hw, -⟩ := hdep node
    · have ho := (hs _ (hst entry he)).owner (by simp [hwr entry hco])
      exact absurd rfl (hn _ (state.queue.stakes_subperm.subset (mem_map_of_mem (hst entry he))) ho)
    · exact ⟨rfl, hw⟩
  · obtain ⟨entry, he, rfl, hco, -⟩ | ⟨hw, -⟩ := hdep node
    · exact absurd hr ((hs _ (hst entry he)).writing (hwr entry hco))
    · exact hw.trans (hf node key hr hk)
  obtain (hm | ⟨entry, he, rfl⟩) | ⟨ctx, hc, hm⟩ := (DumpQueue.mem_stakes hn).1 hm
  · cases hm
  · have hold := hs _ (hst entry he)
    rw [hph] at hold
    refine ⟨hold.key, fun _ => hold.owner ?_, by simp [DumpPhase.stake, DumpPhase.role],
      fun _ => ?_, by simp [DumpPhase.stake, DumpPhase.role]⟩
    · dsimp only [DumpPhase.stake, DumpPhase.role]
      split <;> simp
    obtain ⟨other, ho, hq, -, hw⟩ | ⟨hw, hno⟩ := hdep entry.2.node
    · have hk := (hs _ (hst other ho)).key
      dsimp only [DumpPhase.stake] at hk
      rw [hq] at hk
      exact hw.trans (hk.symm.trans hold.key)
    · exact hw.trans (hf _ _ (hold.ready (if_neg (hno entry he rfl))) hold.key)
  · obtain ⟨entry, he, rfl⟩ := mem_map.1 hm
    have hin := DumpQueue.stake_of_unwaited (hu ▸ hc) he
    have hold := hs _ hin
    refine ⟨hold.key, hold.owner, by simp, fun _ => ?_, by simp⟩
    obtain ⟨other, ho, hq, hco, -⟩ | ⟨hw, -⟩ := hdep entry.2.node
    · -- two owners of one node would be one
      have hwo := hwr other (hq ▸ hco)
      have heq := (hso.subperm state.queue.stakes_subperm).eq_of_node (hst other ho) hin
        ((hs _ (hst other ho)).owner (by simp [hwo])) (hold.owner (by simp)) hq
      rw [heq] at hwo
      cases hwo
    · exact hw.trans (hold.filled rfl)

theorem DumpStep.firm (hc : cfg.core = .cc) (h : DumpStep cfg state move next)
    (hso : Sole state.queue.handles) (hg : state.queue.Gathered)
    (hdu : ∀ dumper, state.queue.dumper = some dumper → dumper.Steady)
    (hf : state.shared.buffer.Filled memory)
    (hp : ∀ got ∈ state.queue.handles, 0 < state.shared.buffer.references got.node)
    (hs : ∀ stake ∈ state.queue.stakes, stake.Holds state.shared.buffer memory) :
    Firm state.shared.buffer next.shared.buffer memory
      (memory.deposit (state.queue.deposits move)) state.queue.handles next.queue.stakes := by
  have hst : ∀ {dumper : Dumper}, state.queue.dumper = some dumper → ∀ entry ∈ dumper.ctx,
      dumper.phase.stake state.queue.copies entry ∈ state.queue.stakes :=
    fun hd entry he => DumpQueue.stake_of_ctx hd he
  have hheld : ∀ {dumper : Dumper}, state.queue.dumper = some dumper →
      ∀ stake ∈ dumper.phase.stakes, stake.Holds state.shared.buffer memory :=
    fun hd stake hn => hs stake ((DumpQueue.mem_stakes hd).2 (.inl (.inl hn)))
  cases h with
  | turnAway | drainWaiting | close =>
    exact DumpState.firm_wait hp hs (.refl _) rfl rfl (Subset.refl _)
  | take | nothing | dropped =>
    exact DumpState.firm_turn hp hs (.refl _) rfl rfl rfl (by simp)
  | event ok hd =>
    have he : _ = [] := (hdu _ hd).tidy
    dsimp only at he
    subst he
    refine DumpState.firm_turn hp hs (.refl _) rfl rfl ?_ (by simp)
    cases ok <;> rfl
  | get hd hget =>
    rw [hc] at hget
    refine DumpState.firm_keep hp hs (.get hget) fun stake hn => ?_
    obtain (hn | ⟨entry, he, rfl⟩) | ⟨ctx, hm, hn⟩ := (DumpQueue.mem_stakes rfl).1 hn
    · rw [mem_singleton.1 hn]
      exact .inr ⟨(Buffer.Gets.of_get hget).key, by simp, by simp, by simp, by simp⟩
    · exact .inl (hst hd entry he)
    · exact .inl (mem_append_right _ (mem_flatMap.2 ⟨ctx, hm, hn⟩))
  | skip hd =>
    rw [hc]
    exact DumpState.firm_turn hp hs .release rfl rfl rfl fun entry he => .inl (hst hd entry he)
  | @keep _ _ ctx _ key got hd ho hr =>
    have hh := hheld hd ⟨key, got, .idle⟩ (mem_singleton_self _)
    -- what is ready is not being copied into
    have hn : got.node ∉ state.queue.copies := by
      intro hm
      obtain ⟨dumper, hf, -, -, hco⟩ := hg.copies (ne_nil_of_mem hm)
      cases hd.symm.trans hf
      obtain ⟨entry, he, hq⟩ := hco _ hm
      have hw := (hs _ (hst hd entry he)).writing (by simp [DumpPhase.stake, DumpPhase.role, hq, hm])
      exact hw (hq ▸ hr)
    refine DumpState.firm_turn hp hs (.refl _) rfl rfl rfl fun entry he => ?_
    obtain he | he := mem_append.1 he
    · exact .inl (hst hd entry he)
    · rw [mem_singleton.1 he]
      have hro : DumpPhase.looking.stake state.queue.copies (key, got) = ⟨key, got, .ready⟩ := by
        simp [DumpPhase.stake, DumpPhase.role, hn]
      exact .inr (hro ▸ ⟨hh.key, fun _ => ho, by simp, by simp, fun _ => hr⟩)
  | @copy _ _ ctx _ key got _ hd ho hr =>
    have hh := hheld hd ⟨key, got, .idle⟩ (mem_singleton_self _)
    refine DumpState.firm_turn hp hs (.refl _) rfl rfl rfl fun entry he => ?_
    by_cases hn : entry.2.node = got.node
    · have hro : DumpPhase.looking.stake (state.queue.copies ++ [got.node]) entry =
          ⟨entry.1, entry.2, .writing⟩ := by
        simp [DumpPhase.stake, DumpPhase.role, hn]
      have hne : (state.shared.buffer.nodes entry.2.node).state ≠ .READY := by
        rw [hn]
        exact hr
      refine .inr (hro ▸ ?_)
      obtain he | he := mem_append.1 he
      · have hold := hs _ (hst hd entry he)
        refine ⟨hold.key, fun _ => hold.owner ?_, fun _ => hne, by simp, by simp⟩
        dsimp only [DumpPhase.stake, DumpPhase.role]
        split <;> simp
      · rw [mem_singleton.1 he]
        exact ⟨hh.key, fun _ => ho, fun _ => hr, by simp, by simp⟩
    · obtain he | he := mem_append.1 he
      · refine .inl ?_
        simpa [DumpPhase.stake, DumpPhase.role, hn] using hst hd entry he
      · exact absurd (by rw [mem_singleton.1 he]) hn
  | @copyFailed _ _ ctx _ key got _ hd | @copyBroken _ _ ctx _ key got hd =>
    rw [hc]
    refine DumpState.firm_turn hp hs (.refl _) rfl rfl rfl fun entry he => .inr ?_
    obtain he | he := mem_append.1 he
    · exact (hs _ (hst hd entry he)).idle
    · rw [mem_singleton.1 he]
      exact hheld hd ⟨key, got, .idle⟩ (mem_singleton_self _)
  | gathered hd =>
    exact DumpState.firm_turn hp hs (.refl _) rfl rfl rfl fun entry he => .inl (hst hd entry he)
  | unsynced _ _ hv => simp [hc] at hv
  | sync ok hd =>
    cases ok with
    | false =>
      rw [hc]
      exact DumpState.firm_turn hp hs (.refl _) rfl rfl rfl fun entry he =>
        .inr (hs _ (hst hd entry he)).idle
    | true => exact DumpState.firm_sync hso hf hs hd rfl rfl rfl
  | @mark _ _ ctx _ got left hd =>
    rw [hc]
    obtain ⟨entry, he, rfl⟩ := mem_map.1 ((hdu _ hd).marks _ (.inl rfl) mem_cons_self)
    have hfi := hs _ (hst hd entry he)
    refine .mark (state.queue.stakes_subperm.subset (mem_map_of_mem (hst hd entry he)))
      (hfi.owner (by simp [DumpPhase.stake, DumpPhase.role])) (fun _ _ => rfl)
      (fun _ key hk => ?_) fun stake hn => ?_
    · cases hfi.key.symm.trans hk
      exact hfi.filled rfl
    obtain (hn | ⟨other, ho, rfl⟩) | ⟨ctx, hu, hn⟩ := (DumpQueue.mem_stakes rfl).1 hn
    · cases hn
    · exact (hs _ (hst hd other ho)).filled_markBy rfl
    · obtain ⟨other, ho, rfl⟩ := mem_map.1 hn
      have hu : ctx ∈ state.queue.unwaited := hu
      exact (hs _ (DumpQueue.stake_of_unwaited hu ho)).filled_markBy rfl
  | marked hd =>
    rw [Config.backendDesc_cc hc]
    split
    · exact DumpState.firm_turn hp hs (.refl _) rfl rfl rfl fun entry he =>
        .inr (hs _ (hst hd entry he)).idle
    · refine DumpState.firm_turn hp hs (.refl _) rfl rfl rfl fun entry he => .inl ?_
      exact hst hd entry he
  | submit hd =>
    refine DumpState.firm_keep hp hs (.refl _) fun stake hn => .inl ?_
    simp only [DumpQueue.stakes, DumpQueue.unwaited, Dumper.stakes, DumpPhase.stakes, map_nil,
      Option.toList_some, flatMap_cons, flatMap_nil, append_nil, nil_append, flatMap_append,
      mem_append] at hn
    obtain hn | hn | hn := hn
    · exact mem_append_right _ (by simp [DumpQueue.unwaited, hn])
    · exact mem_append_right _ (by simp [DumpQueue.unwaited, hn])
    · obtain ⟨entry, he, rfl⟩ := mem_map.1 hn
      exact hst hd entry he
  | refuse hd =>
    exact DumpState.firm_turn hp hs (.refl _) rfl rfl rfl fun entry he =>
      .inr (hs _ (hst hd entry he)).idle
  | condemn hd | condemned hd => exact absurd rfl ((hdu _ hd).uncondemned _)
  | drop hd =>
    rw [hc]
    exact DumpState.firm_turn hp hs .release rfl rfl rfl fun entry he =>
      .inl (hst hd entry (mem_cons_of_mem _ he))
  | finish hd =>
    exact DumpState.firm_keep hp hs (.refl _) fun stake hn => .inl (mem_append_right _ hn)
  | pop hsg hdu =>
    refine DumpState.firm_wait hp hs (.refl _) rfl rfl ?_
    simp [DumpQueue.unwaited, hsg, hdu]
  | wait | waitless | released =>
    refine DumpState.firm_wait hp hs (.refl _) rfl rfl ?_
    simp [DumpQueue.unwaited]
  | release =>
    rw [hc]
    refine DumpState.firm_wait hp hs .release rfl rfl ?_
    simp [DumpQueue.unwaited]

end

end UnifiedCache.Cache
