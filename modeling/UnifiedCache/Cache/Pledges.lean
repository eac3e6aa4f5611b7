import UnifiedCache.Cache.QuietNodes

/-! Who fills a node, in `v2`. An owner gives a pledge on its node, and has the marking of the
node ahead until it makes the mark or gives up. A slot that `Lookup` answers from is filled or
pledged, as long as owners give up no such slot. -/
namespace UnifiedCache.Cache
open List Store LoadQueue Buffer ShardTask LoadState

/-! The handles whose owners still have a mark to make -/

def ShardTask.pledge (item : ShardTask) : List Handle :=
  if item.backend.isSome && item.handle.owner then [item.handle] else []

def Dispatcher.pledges : Dispatcher → List Handle
  | .holding _ _ _ _ got => [got].filter Handle.owner
  | .pushing item _ _ => item.pledge
  | _ => []

def Transfer.pledges (transfer : Transfer) : List Handle :=
  match transfer.phase with
  | .start => transfer.item.pledge
  | .waiting => transfer.item.pledge
  | _ => []

def LoadQueue.transferred (queue : LoadQueue) : List Handle :=
  queue.transfer.toList.flatMap Transfer.pledges

def LoadQueue.pledges (queue : LoadQueue) : List Handle :=
  queue.dispatcher.pledges ++ (queue.transferred ++ queue.running.flatMap ShardTask.pledge)

/-- A dump marks what it has gathered behind the synchronisation, or fails it in `v2`. -/
def Dumper.owed (dumper : Dumper) : List Handle :=
  match dumper.phase with
  | .looking => dumper.handles
  | .holding _ got => got :: dumper.handles
  | .syncing => dumper.handles
  | .marking left => left
  | .condemning left => left
  | _ => []

def Dumper.pledges (dumper : Dumper) : List Handle := dumper.owed.filter Handle.owner

def DumpQueue.pledges (queue : DumpQueue) : List Handle :=
  queue.dumper.toList.flatMap Dumper.pledges

def Process.pledges (process : Process) : List Handle :=
  process.load.pledges ++ process.dump.pledges

/-! The handles whose nodes a step marks failed, or whose owners just let go -/

def LoadQueue.forsakes (wrapper : TaskWrapper TransTask) (queue : LoadQueue) :
    LoadMove → List Handle
  | .load false => queue.dispatcher.pledges
  | .wait false => queue.transferred
  | .check =>
    match queue.transfer with
    | some ⟨item, .start⟩ => if wrapper.failureSet item.task then item.pledge else []
    | _ => []
  | .drainRunning => queue.running.head?.toList.flatMap ShardTask.pledge
  | _ => []

def DumpQueue.forsakes (queue : DumpQueue) : DumpMove → List Handle
  | .condemn =>
    match queue.dumper with
    | some ⟨_, _, _, _, .condemning (got :: _)⟩ => [got].filter Handle.owner
    | _ => []
  | _ => []

def Process.forsakes (process : Process) : Move → List Handle
  | .load move => process.load.forsakes process.wrapper move
  | .dump move => process.dump.forsakes move
  | _ => []

/-- Whether `Lookup` answers from the slot. -/
def Node.leads (node : Node) : Bool := node.key.any fun key => key.shard = 0

/-- Somebody has to fill the slot. -/
def Node.owed (node : Node) : Prop := node.leads = true ∧ node.state ≠ .READY

theorem Node.not_owed {node : Node} (h : node.leads = false) : ¬ node.owed := by
  simp [owed, h]

/-- No pledge is dropped while its node is owed, and a node that comes to be owed comes with a
pledge. -/
@[mk_iff]
structure Honours (before after : Buffer) (pledges left : List Handle) : Prop where
  kept : ∀ got ∈ pledges, got ∈ left ∨ ¬ (after.nodes got.node).owed
  made : ∀ node, (after.nodes node).owed →
    (∃ got ∈ left, got.node = node) ∨ (before.nodes node).owed

namespace Honours
variable {core : Core} {buf after : Buffer} {pledges left : List Handle} {got : Handle}

theorem settled (h : ∀ other ∈ pledges, other ∈ left ∨ ¬ (buf.nodes other.node).owed) :
    Honours buf buf pledges left :=
  ⟨h, fun _ ho => .inr ho⟩

theorem same (h : ∀ got ∈ pledges, got ∈ left) : Honours buf buf pledges left :=
  settled fun got hg => .inl (h got hg)

theorem get {r : Request} {v : Nat} (hg : buf.get core r v = some (got, after))
    (hk : ∀ other ∈ pledges, other ∈ left) (hw : got.owner = true → got ∈ left) :
    Honours buf after pledges left := by
  refine ⟨fun other ht => .inl (hk other ht), ?_⟩
  intro n ho
  by_cases hn : got.node = n
  · cases hp : got.owner with
    | true => exact .inl ⟨got, hw hp, hn⟩
    | false =>
      right
      cases Buffer.Gets.of_get hg with
      | miss => cases hp
      | hit =>
        dsimp only at hp hn
        subst hn
        simp only [pin, nodes_set, if_pos, Core.renewed, hp, Bool.false_eq_true, false_and,
          if_false] at ho
        exact ho
  right
  cases Buffer.Gets.of_get hg with
  | miss => rwa [alloc, nodes_set, if_neg (Ne.symm hn)] at ho
  | hit => rwa [pin, nodes_set, if_neg (Ne.symm hn)] at ho

theorem prealloc {key : Key} {c : Option Nat} (hp : buf.prealloc core key c = some after)
    (hs : key.shard ≠ 0) (hk : ∀ got ∈ pledges, got ∈ left) : Honours buf after pledges left := by
  refine ⟨fun got hg => .inl (hk got hg), ?_⟩
  intro n ho
  right
  unfold Buffer.prealloc at hp
  split at hp
  · cases hp
    exact ho
  split at hp
  · split at hp
    · cases hp
      rw [Buffer.alloc, Buffer.nodes_set] at ho
      split at ho
      · exact absurd ho (Node.not_owed (by simp [Node.leads, hs]))
      · exact ho
    · cases hp
  split at hp
  · cases hp
    exact ho
  · cases hp

theorem mark {state : State}
    (hs : got.owner = true → state = .READY ∨ (buf.nodes got.node).leads = false)
    (hk : ∀ other ∈ pledges, other ∈ left ∨ other = got ∧ got.owner = true) :
    Honours buf (buf.markBy .v2 got state) pledges left := by
  unfold Buffer.markBy
  split
  · rename_i hv
    apply same
    intro other ht
    obtain hn | ⟨-, hw⟩ := hk other ht
    · exact hn
    · rw [hv.2] at hw
      cases hw
  rename_i he
  have hno : ¬ ({ buf.nodes got.node with state } : Node).owed := by
    obtain rfl | hl := hs (by simpa using he)
    · simp [Node.owed]
    · exact Node.not_owed hl
  constructor
  · intro other ht
    obtain hn | ⟨rfl, -⟩ := hk other ht
    · exact .inl hn
    · right
      rw [Buffer.mark, Buffer.nodes_set, if_pos rfl]
      exact hno
  intro n ho
  rw [Buffer.mark, Buffer.nodes_set] at ho
  split at ho
  · exact absurd ho hno
  · exact .inr ho

theorem fail (hs : (buf.nodes got.node).state ≠ .READY)
    (hk : ∀ other ∈ pledges, other ∈ left ∨ (buf.nodes other.node).leads = false) :
    Honours buf (buf.markBy core got .FAILED) pledges left := by
  unfold Buffer.markBy
  split
  · exact settled fun other ht => (hk other ht).imp_right Node.not_owed
  constructor
  · intro other ht
    refine (hk other ht).imp_right fun hf => ?_
    rw [Buffer.mark, Buffer.nodes_set]
    split
    · rename_i hn
      rw [hn] at hf
      exact Node.not_owed hf
    · exact Node.not_owed hf
  intro n ho
  right
  rw [Buffer.mark, Buffer.nodes_set] at ho
  split at ho
  · rename_i hn
    rw [hn]
    exact ⟨ho.1, hs⟩
  · exact ho

theorem abandon (hk : ∀ other ∈ pledges, other ∈ left ∨ other = got ∧
    (buf.nodes got.node).leads = false) : Honours buf (buf.release core got) pledges left := by
  constructor
  · intro other ht
    obtain hn | ⟨rfl, hf⟩ := hk other ht
    · exact .inl hn
    · right
      rw [release, nodes_set, if_pos rfl]
      exact Node.not_owed hf
  intro n ho
  right
  rw [release, nodes_set] at ho
  split at ho
  · rename_i hd
    rw [hd]
    refine ⟨ho.1, fun hr => ?_⟩
    simp [Node.owed, hr] at ho
  · exact ho

theorem release (hk : ∀ other ∈ pledges, other ∈ left) :
    Honours buf (buf.release core got) pledges left :=
  abandon fun other ho => .inl (hk other ho)

variable {others : List Handle}

theorem beside (h : Honours buf after pledges left) :
    Honours buf after (others ++ pledges) (others ++ left) := by
  constructor
  · intro got hg
    obtain hg | hg := mem_append.1 hg
    · exact .inl (mem_append_left _ hg)
    · exact (h.kept got hg).imp_left (mem_append_right _)
  intro n ho
  refine (h.made n ho).imp_left ?_
  rintro ⟨got, hg, hn⟩
  exact ⟨got, mem_append_right _ hg, hn⟩

theorem comm {r : List Handle} (h : Honours buf after (pledges ++ others) (left ++ r)) :
    Honours buf after (others ++ pledges) (r ++ left) := by
  simpa only [honours_iff, mem_append, or_comm] using h

end Honours

section
variable {cfg : Config} {state next : LoadState} {move : LoadMove}
variable {queue : LoadQueue}

theorem LoadQueue.pledges_mono {next : LoadQueue}
    (hd : queue.dispatcher.pledges ⊆ next.dispatcher.pledges)
    (ht : queue.transferred ⊆ next.transferred)
    (hr : queue.running.flatMap pledge ⊆ next.running.flatMap pledge) : ∀ got ∈ queue.pledges,
    got ∈ next.pledges := by
  intro got hg
  simp only [pledges, mem_append] at hg ⊢
  obtain hg | hg | hg := hg
  · exact .inl (hd hg)
  · exact .inr (.inl (ht hg))
  · exact .inr (.inr (hr hg))

variable {P : Handle → Prop}

theorem LoadQueue.pledges_dispatch {next : LoadQueue} (ht : next.transfer = queue.transfer)
    (hr : next.running = queue.running) (h : ∀ got ∈ queue.dispatcher.pledges, P got) :
    ∀ got ∈ queue.pledges, got ∈ next.pledges ∨ P got := by
  intro got hg
  simp only [pledges, transferred, ht, hr, mem_append] at hg ⊢
  obtain hg | hg := hg
  · exact .inr (h got hg)
  · exact .inl (.inr hg)

theorem LoadQueue.pledges_transfer {next : LoadQueue}
    (hd : next.dispatcher = queue.dispatcher) (hr : next.running = queue.running)
    (h : ∀ got ∈ queue.transferred, P got) : ∀ got ∈ queue.pledges, got ∈ next.pledges ∨ P got := by
  intro got hg
  simp only [pledges, hd, hr, mem_append] at hg ⊢
  obtain hg | hg | hg := hg
  · exact .inl (.inl hg)
  · exact .inr (h got hg)
  · exact .inl (.inr (.inr hg))

variable {got : Handle}

theorem ShardTask.eq_of_mem_pledge {i : ShardTask} (h : got ∈ i.pledge) :
    got = i.handle ∧ i.handle.owner = true := by
  unfold pledge at h
  split at h
  · rename_i hp
    rw [Bool.and_eq_true] at hp
    exact ⟨mem_singleton.1 h, hp.2⟩
  · cases h

theorem Dispatcher.handles_of_pledges {d : Dispatcher} (h : got ∈ d.pledges) :
    got ∈ d.handles ∧ got.owner = true := by
  cases d with
  | holding => simpa [pledges, handles] using mem_filter.1 h
  | pushing =>
    obtain ⟨rfl, ho⟩ := eq_of_mem_pledge h
    exact ⟨mem_singleton.2 rfl, ho⟩
  | _ => cases h

variable {trans : Transfer}

theorem Transfer.eq_of_mem_pledges (h : got ∈ trans.pledges) :
    got = trans.item.handle ∧ trans.item.handle.owner = true := by
  unfold pledges at h
  split at h
  · exact eq_of_mem_pledge h
  · exact eq_of_mem_pledge h
  · cases h

theorem LoadQueue.handles_of_pledges (h : got ∈ queue.pledges) :
    got ∈ queue.handles ∧ got.owner = true := by
  simp only [pledges, transferred, mem_append, mem_flatMap, Option.mem_toList] at h
  simp only [handles, items, mem_append, map_append, mem_map, Option.mem_toList]
  obtain h | ⟨trans, hn, h⟩ | ⟨i, hn, h⟩ := h
  · obtain ⟨hh, ho⟩ := Dispatcher.handles_of_pledges h
    exact ⟨.inl hh, ho⟩
  · obtain ⟨rfl, ho⟩ := Transfer.eq_of_mem_pledges h
    exact ⟨.inr (.inr (.inl ⟨trans.item, ⟨trans, hn, rfl⟩, rfl⟩)), ho⟩
  · obtain ⟨rfl, ho⟩ := eq_of_mem_pledge h
    exact ⟨.inr (.inr (.inr ⟨i, hn, rfl⟩)), ho⟩

theorem LoadQueue.transferred_eq (h : queue.transfer = some trans) :
    queue.transferred = trans.pledges := by
  simp [transferred, h]

theorem LoadState.honours_condemned {s : ShardTask} (ht : state.queue.transfer = some ⟨s, .start⟩)
    (hf : ∀ got ∈ s.pledge, (state.shared.buffer.nodes got.node).leads = false) :
    Honours state.shared.buffer (state.condemned cfg s) state.queue.pledges
    (state.turnTo (some ⟨s, .failing⟩)).queue.pledges := by
  have hk : ∀ other ∈ state.queue.transferred,
      (state.shared.buffer.nodes other.node).leads = false := by
    rw [transferred_eq ht]
    exact hf
  unfold condemned
  split
  · apply Honours.settled
    exact pledges_transfer rfl rfl fun other ho => Node.not_owed (hk other ho)
  · rename_i hs
    exact Honours.fail hs (pledges_transfer rfl rfl hk)

attribute [local simp] Dispatcher.pledges Transfer.pledges pledges transferred goTo item turnTo

theorem LoadStep.honours (h : LoadStep cfg state move next) (hc : cfg.core = .v2)
    (hf : ∀ got ∈ state.queue.forsakes state.wrapper move,
      (state.shared.buffer.nodes got.node).leads = false)
    (hp : ∀ key k, state.queue.dispatcher = .preallocating (key :: k) → key.shard ≠ 0) :
    Honours state.shared.buffer next.shared.buffer state.queue.pledges
      next.queue.pledges := by
  have ha : ∀ {items : List Handle}, items ⊆ items := fun h => h
  cases h with
  | get hd _ _ hg =>
    apply Honours.get hg
    · exact pledges_mono (by simp [hd]) ha ha
    · intro hw
      simp [hw]
  | load hd =>
    apply Honours.same
    refine pledges_mono ?_ ha ha
    intro other ho
    simp only [hd, Dispatcher.pledges, mem_filter, mem_singleton] at ho
    obtain ⟨rfl, hw⟩ := ho
    simp [pledge, hw]
  | @refuse _ _ _ _ got hd hm =>
    have hw : got.owner = true := by
      simp only [missing, Bool.and_eq_true] at hm
      exact hm.1
    change Honours _ (state.shared.buffer.markBy cfg.core got .FAILED) _ _
    rw [hc]
    apply Honours.mark
    · exact fun _ => .inr (hf got (by simp [forsakes, hd, hw]))
    · refine pledges_dispatch rfl rfl fun other ho => ?_
      simp only [hd, Dispatcher.pledges, mem_filter, mem_singleton] at ho
      exact ⟨ho.1, hw⟩
  | @pass _ _ _ _ _ hd hh =>
    -- an owner that passes has found the node filled
    apply Honours.settled
    refine pledges_dispatch rfl rfl fun other ho => ?_
    simp only [hd, Dispatcher.pledges, mem_filter, mem_singleton] at ho
    obtain ⟨rfl, hw⟩ := ho
    have hrd : state.shared.state other = .READY := by
      simpa only [missing, hw, Bool.true_and, decide_eq_false_iff_not, not_not] using hh
    exact fun ho => ho.2 hrd
  | push hd =>
    apply Honours.same
    intro other ho
    simp only [pledges, transferred, hd, Dispatcher.pledges, mem_append] at ho
    obtain ho | ho | ho := ho <;>
      simp [ho]
  | drop hd =>
    apply Honours.release
    exact pledges_mono (by simp [hd]) ha ha
  | prealloc hd hpr =>
    apply Honours.prealloc hpr (hp _ _ hd)
    exact pledges_mono (by simp [hd]) ha ha
  | pop hn hr =>
    apply Honours.same
    intro other ho
    simpa [hn, hr] using ho
  | skip _ _ hcc => cases hc.symm.trans hcc
  | condemn ht hfa =>
    refine honours_condemned ht fun got hgo => ?_
    exact hf got (by simpa [forsakes, ht, hfa] using hgo)
  | proceed ht =>
    apply Honours.same
    refine pledges_mono ha ?_ ha
    rw [transferred_eq ht]
    simp
  | @wait _ _ ok ht hb =>
    change Honours _ (state.shared.buffer.markBy cfg.core _ _) _ _
    rw [hc]
    apply Honours.mark
    · intro hw
      cases ok with
      | true => exact .inl rfl
      | false => exact .inr (hf _ (by simp [forsakes, ht, pledge, hb, hw]))
    · refine pledges_transfer rfl rfl fun other ho => ?_
      rw [transferred_eq ht] at ho
      exact eq_of_mem_pledge ho
  | found ht hb | lost ht hb =>
    apply Honours.same
    refine pledges_mono ha ?_ ha
    simp [ht, pledge, hb]
  | clear _ _ => exact .release fun _ ho => ho
  | discard ht =>
    apply Honours.release
    refine pledges_mono ha ?_ ha
    simp [ht]
  | @drainRunning _ _ _ _ _ hr =>
    apply Honours.abandon
    intro other ho
    simp only [pledges, hr, flatMap_cons, mem_append] at ho
    obtain ho | ho | ho | ho := ho
    · exact .inl (mem_append_left _ ho)
    · exact .inl (mem_append_right _ (mem_append_left _ ho))
    · obtain ⟨rfl, -⟩ := eq_of_mem_pledge ho
      exact .inr ⟨rfl, hf _ (by simpa [forsakes, hr] using ho)⟩
    · exact .inl (mem_append_right _ (mem_append_right _ ho))
  | turnAway _ _ _ _ | close _ | drainWaiting _ _ _ => exact .same fun _ ho => ho
  | take hd | fail hd | rest hd =>
    apply Honours.same
    exact pledges_mono (by simp [hd]) ha ha
  | _ =>
    apply Honours.same
    refine pledges_mono ha ?_ ha
    simp_all

end

section
variable {cfg : Config} {state next : DumpState} {move : DumpMove}
variable {queue : DumpQueue} {dumper other : Dumper}

theorem DumpQueue.pledges_eq (h : queue.dumper = some dumper) : queue.pledges = dumper.pledges := by
  simp [pledges, h]

theorem DumpQueue.pledges_mono {next : DumpQueue} (hb : queue.dumper = some dumper)
    (ha : next.dumper = some other) (h : ∀ got ∈ dumper.owed, got.owner = true → got ∈ other.owed) :
    ∀ got ∈ queue.pledges, got ∈ next.pledges := by
  rw [pledges_eq hb, pledges_eq ha]
  intro got hg
  obtain ⟨hn, ho⟩ := mem_filter.1 hg
  exact mem_filter.2 ⟨h got hn ho, ho⟩

theorem DumpQueue.pledges_marked {next : DumpQueue} {got : Handle} (hb : queue.dumper = some dumper)
    (ha : next.dumper = some other) (h : dumper.owed = got :: other.owed) : ∀ held ∈ queue.pledges,
    held ∈ next.pledges ∨ held = got ∧ got.owner = true := by
  rw [pledges_eq hb, pledges_eq ha]
  intro held hh
  obtain ⟨hn, ho⟩ := mem_filter.1 hh
  rw [h] at hn
  obtain rfl | hn := mem_cons.1 hn
  · exact .inr ⟨rfl, ho⟩
  · exact .inl (mem_filter.2 ⟨hn, ho⟩)

def Dumper.Marks (dumper : Dumper) : Prop :=
  ∀ left, dumper.phase = .marking left ∨ dumper.phase = .condemning left → left ⊆ dumper.handles

theorem Dumper.Marks.pins_of_owed (h : dumper.Marks) {got : Handle} (hg : got ∈ dumper.owed) :
    got ∈ dumper.pins := by
  unfold Dumper.owed at hg
  unfold Dumper.pins
  split at hg
  · exact mem_append_right _ hg
  · rename_i hp
    rw [hp]
    exact hg
  · exact mem_append_right _ hg
  · rename_i left hp
    exact mem_append_right _ (h left (.inl hp) hg)
  · rename_i left hp
    exact mem_append_right _ (h left (.inr hp) hg)
  · cases hg

theorem Dumper.Marks.giveUp (core : Core) (t : TaskHandle) (rest : List Key)
    (ctx : List (Key × Handle)) (copied : Nat) :
    (⟨t, rest, ctx, copied, core.giveUp ctx⟩ : Dumper).Marks := by
  intro left hp
  cases core with
  | cc => simp [Core.giveUp] at hp
  | v2 =>
    simp only [Core.giveUp, reduceCtorEq, DumpPhase.condemning.injEq, false_or] at hp
    rw [← hp]
    exact List.Subset.refl _

theorem DumpStep.marks (h : DumpStep cfg state move next)
    (ha : ∀ dumper, state.queue.dumper = some dumper → dumper.Marks) : ∀ dumper, next.queue.dumper =
    some dumper → dumper.Marks := by
  intro dumper hd
  cases h with
  | unsynced =>
    cases hd
    rintro left (hp | hp)
    · cases hp
      exact List.Subset.refl _
    · cases hp
  | sync ok =>
    cases hd
    cases ok with
    | true =>
      rintro left (hp | hp)
      · cases hp
        exact List.Subset.refl _
      · cases hp
    | false => exact .giveUp _ _ _ _ _
  | mark hb =>
    cases hd
    rintro left (hp | hp)
    · cases hp
      exact fun got hg => ha _ hb _ (.inl rfl) (mem_cons_of_mem _ hg)
    · cases hp
  | condemn hb =>
    cases hd
    rintro left (hp | hp)
    · cases hp
    · cases hp
      exact fun got hg => ha _ hb _ (.inr rfl) (mem_cons_of_mem _ hg)
  | copyFailed | copyBroken =>
    cases hd
    exact .giveUp _ _ _ _ _
  | event ok =>
    cases hd
    rintro left (hp | hp) <;> cases ok <;> cases hp
  | marked =>
    cases hd
    rintro left (hp | hp) <;> dsimp only at hp <;> split at hp <;> cases hp
  | finish => cases hd
  | turnAway | pop | wait | waitless | release | released | close
  | drainWaiting => exact ha dumper hd
  | _ =>
    cases hd
    rintro left (hp | hp) <;> cases hp

attribute [local simp] DumpState.turnTo DumpQueue.pledges Dumper.pledges Dumper.owed Dumper.handles
  DumpQueue.forsakes Core.giveUp

theorem DumpStep.honours (h : DumpStep cfg state move next) (hc : cfg.core = .v2)
    (hf : ∀ got ∈ state.queue.forsakes move,
      (state.shared.buffer.nodes got.node).leads = false) :
    Honours state.shared.buffer next.shared.buffer state.queue.pledges
      next.queue.pledges := by
  cases h with
  | get hd he =>
    apply Honours.get he
    · refine DumpQueue.pledges_mono hd rfl fun other ht _ => ?_
      exact mem_cons_of_mem _ ht
    · intro ho
      simp [ho]
  | skip hd ht =>
    apply Honours.release
    refine DumpQueue.pledges_mono hd rfl fun other hn ho => ?_
    obtain rfl | hn := mem_cons.1 hn
    · rw [ht] at ho
      cases ho
    · exact hn
  | keep hd | copy _ hd =>
    apply Honours.same
    refine DumpQueue.pledges_mono hd rfl fun other hn _ => ?_
    simpa [or_comm] using hn
  | copyFailed hd | copyBroken hd =>
    apply Honours.same
    refine DumpQueue.pledges_mono hd rfl fun other hn _ => ?_
    simpa [hc, or_comm] using hn
  | gathered hd | unsynced hd =>
    apply Honours.same
    exact DumpQueue.pledges_mono hd rfl fun _ hn _ => hn
  | sync ok hd =>
    apply Honours.same
    refine DumpQueue.pledges_mono hd rfl fun other hn _ => ?_
    cases ok with
    | false => simpa [hc] using hn
    | true => exact hn
  | mark hd =>
    change Honours _ (state.shared.buffer.markBy cfg.core _ _) _ _
    rw [hc]
    exact Honours.mark (fun _ => .inl rfl) (DumpQueue.pledges_marked hd rfl rfl)
  | condemn hd =>
    change Honours _ (state.shared.buffer.markBy cfg.core _ _) _ _
    rw [hc]
    refine Honours.mark (fun ho => .inr (hf _ ?_)) (DumpQueue.pledges_marked hd rfl rfl)
    simp [hd, ho]
  | drop hd =>
    apply Honours.release
    exact DumpQueue.pledges_mono hd rfl fun _ hn _ => hn
  | release _ => exact .release fun _ hn => hn
  | turnAway | pop | wait | waitless | released | close
  | drainWaiting => exact .same fun _ hn => hn
  | _ =>
    -- in the phases that are left the dumper owes nothing
    apply Honours.same
    simp_all

end

namespace Process
variable {cfg : Config} {shared after : Shared}
  {process next : Process} {move : Move}

theorem pledges_submit (t : TransTask) (f : Bool) (proc : Process) :
    (proc.submit t f).pledges = proc.pledges ∧
      (proc.submit t f).load.dispatcher = proc.load.dispatcher := by
  unfold submit
  cases f with
  | true => exact ⟨rfl, rfl⟩
  | false => cases t.type <;> exact ⟨rfl, rfl⟩

structure Bound (process : Process) : Prop where
  marks : ∀ dumper, process.dump.dumper = some dumper → dumper.Marks
  spares : ∀ keys, process.load.dispatcher = .preallocating keys → ∀ key ∈ keys, key.shard ≠ 0

theorem upcoming_ne_zero (task : TransTask) : ∀ key ∈ cfg.upcoming task, key.shard ≠ 0 := by
  intro key hk
  obtain ⟨idx, -, hd⟩ := mem_filterMap.1 hk
  split at hd
  · split at hd
    · cases hd
      exact Nat.succ_ne_zero _
    · cases hd
  · cases hd

theorem Bound.advances (h : process.Bound) (hs : process.Advances cfg shared move after next) :
    next.Bound := by
  cases hs with
  | submit task full =>
    constructor
    · rw [(queues_submit task full process).2]
      exact h.marks
    · rw [(pledges_submit task full process).2]
      exact h.spares
  | load hl =>
    refine ⟨h.marks, ?_⟩
    intro keys hks
    have hg : ∀ {handle pos task} {rest : List Nat},
        Dispatcher.go handle pos (cfg.upcoming task) rest = .preallocating keys →
        ∀ key ∈ keys, key.shard ≠ 0 := by
      intro handle pos task rest hg
      cases rest with
      | nil =>
        cases hg
        exact upcoming_ne_zero task
      | cons => cases hg
    cases hl with
    | take | push => exact hg hks
    | prealloc hd =>
      cases hks
      exact fun key hk => h.spares _ hd key (mem_cons_of_mem _ hk)
    | get | load | refuse | pass | fail | drop | rest => cases hks
    | _ => exact h.spares keys hks
  | dump hm => exact ⟨hm.marks h.marks, h.spares⟩
  | wait => exact ⟨h.marks, h.spares⟩

theorem Bound.handles_of_pledges (h : process.Bound) {got : Handle}
    (hg : got ∈ process.pledges) : got ∈ process.handles ∧ got.owner = true := by
  obtain hg | hg := mem_append.1 hg
  · obtain ⟨hn, ho⟩ := LoadQueue.handles_of_pledges hg
    exact ⟨mem_append_left _ hn, ho⟩
  simp only [DumpQueue.pledges, mem_flatMap, Option.mem_toList, Dumper.pledges, mem_filter] at hg
  obtain ⟨dumper, hd, hn, ho⟩ := hg
  refine ⟨mem_append_right _ (mem_append_left _ ?_), ho⟩
  simpa [hd] using (h.marks dumper hd).pins_of_owed hn

theorem Advances.honours (h : process.Advances cfg shared move after next)
    (hc : cfg.core = .v2) (hb : process.Bound)
    (hf : ∀ got ∈ process.forsakes move, (shared.buffer.nodes got.node).leads = false) :
    Honours shared.buffer after.buffer process.pledges next.pledges := by
  cases h with
  | submit t f =>
    rw [(pledges_submit t f process).1]
    exact .same fun _ hg => hg
  | load hl =>
    apply Honours.comm
    apply Honours.beside
    apply hl.honours hc hf
    intro key k hk
    exact hb.spares _ hk key mem_cons_self
  | dump hd =>
    apply Honours.beside
    exact hd.honours hc hf
  | wait _ => exact .same fun _ hg => hg

end Process

namespace Host
variable {cfgs : Nat → Config} {host next : Host} {label : Label}

def Pledged (host : Host) : Prop :=
  ∀ node, (host.shared.buffer.nodes node).owed →
    ∃ process ∈ host.processes, ∃ got ∈ process.pledges, got.node = node

/-- No owner fails a slot that `Lookup` answers from, or lets go of it. -/
def spares (host : Host) (label : Label) : Bool :=
  match host.processes[label.index]? with
  | some process => (process.forsakes label.move).all fun got =>
      !(host.shared.buffer.nodes got.node).leads
  | none => true

theorem bound_of_reachable (h : Transition.Reachable (system cfgs) host) :
    ∀ process ∈ host.processes, process.Bound := by
  apply h.invariant (I := fun host => ∀ process ∈ host.processes, process.Bound)
  · rintro _ ⟨s, count, rfl⟩ process hm
    rw [eq_of_mem_replicate hm]
    exact ⟨by simp, by simp⟩
  intro host label next _ ha hs
  exact each_step (P := fun _ process => process.Bound) hs ha
    (fun _ _ _ _ hd hb => hb.advances hd) fun _ _ _ hb _ => hb

theorem Pledged.step (h : host.Pledged) (hc : ∀ i, (cfgs i).core = .v2)
    (hb : ∀ process ∈ host.processes, process.Bound) (hs : host.step cfgs label = some next)
    (hl : host.spares label = true) : next.Pledged := by
  unfold Host.step at hs
  split at hs
  · cases hs
  rename_i moved hm
  obtain ⟨⟨shared, updated⟩, had, rfl⟩ := Option.map_eq_some_iff.1 hs
  have hf : ∀ got ∈ moved.forsakes label.move,
      (host.shared.buffer.nodes got.node).leads = false := by
    simpa [spares, hm] using hl
  have hh := (Process.Advances.of_step had).honours (hc _) (hb moved (mem_of_getElem? hm)) hf
  have hu := mem_set (List.getElem?_eq_some_iff.1 hm).1 updated
  intro node ho
  obtain hg | hn := hh.made node ho
  · exact ⟨updated, hu, hg⟩
  obtain ⟨process, hp, got, hg, rfl⟩ := h node hn
  obtain ⟨index, hi⟩ := mem_iff_getElem?.1 hp
  by_cases he : index = label.index
  · rw [he, hm] at hi
    cases hi
    exact ⟨updated, hu, got, (hh.kept got hg).resolve_right (not_not.2 ho), rfl⟩
  · refine ⟨process, mem_of_getElem? (i := index) ?_, got, hg, rfl⟩
    rwa [List.getElem?_set_ne (Ne.symm he)]

end Host
end UnifiedCache.Cache
