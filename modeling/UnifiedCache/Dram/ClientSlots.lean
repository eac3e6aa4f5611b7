import UnifiedCache.Dram.ClientQueues

/-! The reply slots of the composed client: a slot is free, or on its way to a node,
or the slot of one request that its node will give back. This holds as long as the
device zeroes the slots that come back. -/
namespace UnifiedCache.Dram
open List Function ReplyService Calling
open NodeActor
open DramPool (BufferPool)

namespace NodeActor

def leasedSlots : List Observation → List (RequestToken × ReplySlot)
  | [] => []
  | .acquired token (.ok slot) :: earlier =>
    if slot.localAddr = 0 then leasedSlots earlier else (token, slot) :: leasedSlots earlier
  | .released token _ :: earlier => (leasedSlots earlier).eraseP fun p => p.1 = token
  | _ :: earlier => leasedSlots earlier

@[simp] theorem map_fst_leasedSlots (history : List Observation) :
    (leasedSlots history).map Prod.fst = leased history := by
  fun_induction leasedSlots history with
  | case1 => rfl
  | case2 _ _ _ hn ih => simp [leased, hn, ih]
  | case3 _ _ _ hn ih => simp [leased, hn, ih]
  | case4 _ _ _ ih =>
    rw [leased, ← ih, erase_eq_eraseP, eraseP_map]
    congr 2
    funext p
    rw [Bool.eq_iff_iff, Function.comp_apply, beq_iff_eq, decide_eq_true_eq, eq_comm]
  | case5 o _ ha hr ih =>
    rw [ih]
    cases o with
    | acquired token result =>
      cases result with
      | ok slot => exact absurd rfl (ha token slot)
      | error => rfl
    | released token slot => exact absurd rfl (hr token slot)
    | _ => rfl

def Slotless : Observation → Prop
  | .acquired _ (.ok _) => False
  | .released _ _ => False
  | _ => True

variable {o : Observation}

theorem slotless_of_idle (h : Idle o) : Slotless o := by
  cases o <;> first | exact h.elim | exact trivial

theorem leasedSlots_slotless (h : Slotless o) (earlier : List Observation) :
    leasedSlots (o :: earlier) = leasedSlots earlier := by
  cases o with
  | acquired _ result =>
    cases result with
    | ok => exact h.elim
    | error => rfl
  | released => exact h.elim
  | _ => rfl

variable {history : List Observation} {token : RequestToken} {slot : ReplySlot}

theorem mem_leasedSlots (ha : .acquired token (.ok slot) ∈ history) (hd : slot.localAddr ≠ 0)
    (hk : ∀ other, .released token other ∉ history) : (token, slot) ∈ leasedSlots history := by
  induction history with
  | nil => cases ha
  | cons o earlier ih =>
    have hr : .acquired token (.ok slot) ∈ earlier → (token, slot) ∈ leasedSlots earlier :=
      fun hm => ih hm fun other ho => hk other (mem_cons_of_mem _ ho)
    by_cases hp : Slotless o
    · rw [leasedSlots_slotless hp]
      obtain rfl | hm := mem_cons.1 ha
      · exact hp.elim
      · exact hr hm
    cases o with
    | acquired _ result =>
      cases result with
      | error => exact absurd trivial hp
      | ok =>
        rw [leasedSlots]
        obtain he | hm := mem_cons.1 ha
        · cases he
          rw [if_neg hd]
          exact mem_cons_self
        · split
          · exact hr hm
          · exact mem_cons_of_mem _ (hr hm)
    | released _ a =>
      have hm := (mem_cons.1 ha).resolve_left (by simp)
      rw [leasedSlots]
      refine (mem_eraseP_of_neg ?_).2 (hr hm)
      intro hs
      cases of_decide_eq_true hs
      exact hk a mem_cons_self
    | _ => exact absurd trivial hp

theorem tokenId_of_mem_leased (h : token ∈ leased history) :
    ∃ o ∈ history, tokenId? o = some token.requestId := by
  fun_induction leased history with
  | case1 => cases h
  | case2 _ _ _ _ ih =>
    obtain ⟨o, hm, ht⟩ := ih h
    exact ⟨o, mem_cons_of_mem _ hm, ht⟩
  | case3 _ _ _ _ ih =>
    obtain rfl | hr := mem_cons.1 h
    · exact ⟨_, mem_cons_self, rfl⟩
    · obtain ⟨o, hm, ht⟩ := ih hr
      exact ⟨o, mem_cons_of_mem _ hm, ht⟩
  | case4 _ _ _ ih =>
    obtain ⟨o, hm, ht⟩ := ih (mem_of_mem_erase h)
    exact ⟨o, mem_cons_of_mem _ hm, ht⟩
  | case5 _ _ _ _ ih =>
    obtain ⟨other, hm, ht⟩ := ih h
    exact ⟨other, mem_cons_of_mem _ hm, ht⟩

variable {cfg : Config}

section
variable (h : Trace.Always (Metering cfg) history)
include h

theorem nodup_leased : (leased history).Nodup := by
  fun_induction leased history with
  | case1 => exact nodup_nil
  | case2 _ _ _ _ ih => exact ih h.tail
  | case3 _ _ _ _ ih =>
    refine nodup_cons.2 ⟨?_, ih h.tail⟩
    intro hm
    obtain ⟨o, ho, ht⟩ := tokenId_of_mem_leased hm
    exact h.head.2.2 o ho ht
  | case4 _ _ _ ih => exact (ih h.tail).erase _
  | case5 _ _ _ _ ih => exact ih h.tail

theorem leasedSlots_released (hm : (token, slot) ∈ leasedSlots history) : (leasedSlots history).Perm
    ((token, slot) :: leasedSlots (.released token slot :: history)) := by
  have hn := nodup_leased h
  rw [← map_fst_leasedSlots] at hn
  obtain ⟨p, before, behind, -, hp, hs, he⟩ :=
    exists_of_eraseP (p := fun p => decide (p.1 = token)) hm (by simp)
  have hf : p = (token, slot) := by
    apply inj_on_of_nodup_map hn _ hm (of_decide_eq_true hp)
    rw [hs]
    simp
  rw [leasedSlots, he, hs, hf]
  exact perm_middle

end
end NodeActor

namespace Calling

def leasing? : Calling → Option Nat
  | .leasing _ _ _ _ slot => some slot.slotIndex
  | _ => none

def releasing? : Calling → Option Nat
  | .releasing _ index => some index
  | _ => none

end Calling

namespace Client
variable {cfg : ClientConfig} {client next : Client} {node : NodeEndpoint}

def slotIndices (history : List Observation) : List Nat :=
  (leasedSlots history).map fun p => p.2.slotIndex.toNat

def held (client : Client) (nodeId : NodeId) : List Nat :=
  (client.calling nodeId).leasing?.toList ++ slotIndices (client.history nodeId)

structure SlotsSound (config : ClientConfig) (client : Client) : Prop where
  listed : client.replies.Listed
  count : client.replies.slotCount = client.replies.buffers.slotNum
  slots : client.replies.buffers.slotNum = config.replySlotCount
  small : config.replySlotCount < 0x100000000
  pool : ∃ free, client.replies.buffers.Partition free (config.nodeIds.flatMap client.held)
  granted : ∀ nodeId token slot, .acquired token (.ok slot) ∈ client.history nodeId →
    slot.localAddr ≠ 0
  lease : ∀ nodeId ∈ config.nodeIds, ∀ p ∈ leasedSlots (client.history nodeId),
    ∃ lease, client.replies.leases p.2.slotIndex.toNat = some lease ∧
      lease.token = p.1 ∧ lease.slot = p.2
  releasing : ∀ nodeId index, (client.calling nodeId).releasing? = some index →
    (client.replies.leases index).isSome ∧
      (∀ other ∈ config.nodeIds, index ∉ slotIndices (client.history other)) ∧
      ∀ other, (client.calling other).releasing? = some index → other = nodeId
  bound : ∀ nodeId ∈ config.nodeIds, (client.calling nodeId).leasing?.isSome →
    (leased (client.history nodeId)).length < config.limits.maxInflightRequests

theorem slotFree_iff {index : Nat} : client.SlotFree index ↔
    ∀ nodeId, (client.calling nodeId).releasing? ≠ some index := by
  constructor
  · intro h nodeId hr
    cases hc : client.calling nodeId with
    | releasing token =>
      rw [hc] at hr
      cases hr
      exact h nodeId token hc
    | _ =>
      rw [hc] at hr
      cases hr
  intro h nodeId token hc
  apply h nodeId
  rw [hc]
  rfl

structure SlotsSteady (client next : Client) : Prop where
  slotCount : next.replies.slotCount = client.replies.slotCount
  buffers : next.replies.buffers = client.replies.buffers
  leases : next.replies.leases = client.replies.leases
  listed : client.replies.Listed → next.replies.Listed
  history : ∀ nodeId, next.history nodeId = client.history nodeId ∨
    ∃ o, Slotless o ∧ next.history nodeId = o :: client.history nodeId
  leasing : ∀ nodeId, (next.calling nodeId).leasing? = (client.calling nodeId).leasing?
  releasing : ∀ nodeId, (next.calling nodeId).releasing? = (client.calling nodeId).releasing?

theorem slotless_record {o : Observation} (h : Slotless o) (nodeId : NodeId) (client : Client)
    (other : NodeId) : (client.record nodeId o).history other = client.history other ∨ ∃ new,
    Slotless new ∧ (client.record nodeId o).history other = new :: client.history other := by
  by_cases he : other = nodeId
  · subst he
    exact .inr ⟨o, h, history_record_self _ _ _⟩
  · exact .inl (history_record_of_ne he _ _)

theorem calling_frame {part : Calling → Option Nat} {nodeId : NodeId} {calling : Calling}
    (h : part (client.calling nodeId) = part calling) (other : NodeId) :
    part ((client.call nodeId calling).calling other) = part (client.calling other) := by
  by_cases he : other = nodeId
  · subst he
    rw [calling_call_self, h]
  · rw [calling_call_of_ne he]

namespace SlotsSteady

section
variable (h : SlotsSteady client next)
include h

theorem leasedSlots (nodeId : NodeId) :
    leasedSlots (next.history nodeId) = leasedSlots (client.history nodeId) := by
  obtain hs | ⟨o, hl, hr⟩ := h.history nodeId
  · rw [hs]
  · rw [hr, leasedSlots_slotless hl]

theorem slotIndices (nodeId : NodeId) :
    slotIndices (next.history nodeId) = slotIndices (client.history nodeId) := by
  unfold Client.slotIndices
  rw [h.leasedSlots]

theorem held : next.held = client.held := by
  funext nodeId
  unfold Client.held
  rw [h.leasing, h.slotIndices]

theorem granted {nodeId : NodeId} {token : RequestToken} {slot : ReplySlot}
    (hm : .acquired token (.ok slot) ∈ next.history nodeId) :
    .acquired token (.ok slot) ∈ client.history nodeId := by
  obtain hs | ⟨o, hl, hr⟩ := h.history nodeId
  · rwa [← hs]
  rw [hr] at hm
  obtain rfl | ho := mem_cons.1 hm
  · exact hl.elim
  · exact ho

end
end SlotsSteady

def Moved (nodeId : NodeId) (client next : Client) : Prop :=
  ∀ other, other ≠ nodeId → next.calling other = client.calling other ∧
    next.history other = client.history other

namespace Moved
variable {nodeId : NodeId}

theorem held (h : Moved nodeId client next) :
    next.held = update client.held nodeId (next.held nodeId) := by
  funext other
  by_cases he : other = nodeId
  · subst he
    rw [update_self]
  · rw [update_of_ne he]
    unfold Client.held
    rw [(h other he).1, (h other he).2]

variable {calling : Calling}

theorem of_call (hh : next.history = client.history)
    (hc : next.calling = (client.call nodeId calling).calling) : Moved nodeId client next := by
  intro other ho
  rw [hc, hh, calling_call_of_ne ho]
  exact ⟨rfl, rfl⟩

theorem record_call (client : Client) (nodeId : NodeId) (o : Observation) (calling : Calling)
    (replies : ReplyService) :
    ∃ next, next = ({ client with replies }.record nodeId o).call nodeId calling ∧
      Moved nodeId client next ∧ next.calling nodeId = calling ∧
      next.history nodeId = o :: client.history nodeId ∧ next.replies = replies := by
  refine ⟨_, rfl, ?_, calling_call_self _ _ _, history_record_self _ _ _, rfl⟩
  intro other ho
  exact ⟨calling_call_of_ne ho _ _, history_record_of_ne ho _ _⟩

end Moved

namespace SlotsSound

theorem steady (h : SlotsSound cfg client) (hs : SlotsSteady client next) :
    SlotsSound cfg next where
  listed := hs.listed h.listed
  count := by
    rw [hs.slotCount, hs.buffers]
    exact h.count
  slots := by
    rw [hs.buffers]
    exact h.slots
  small := h.small
  pool := by
    rw [hs.buffers, hs.held]
    exact h.pool
  granted nodeId token slot hm := h.granted nodeId token slot (hs.granted hm)
  lease nodeId hn p hp := by
    rw [hs.leasedSlots] at hp
    rw [hs.leases]
    exact h.lease nodeId hn p hp
  releasing nodeId index hr := by
    rw [hs.releasing] at hr
    obtain ⟨_, hno, hon⟩ := h.releasing nodeId index hr
    refine ⟨?_, ?_, ?_⟩
    · rwa [hs.leases]
    · intro other ho
      rw [hs.slotIndices]
      exact hno other ho
    · intro other ho
      rw [hs.releasing] at ho
      exact hon other ho
  bound nodeId hn hl := by
    rw [hs.leasing] at hl
    rw [← map_fst_leasedSlots, hs.leasedSlots, map_fst_leasedSlots]
    exact h.bound nodeId hn hl

variable {nodeId : NodeId} {index entryCount payloadSize : Nat}

theorem lt_of_mem_held (h : SlotsSound cfg client) (hn : nodeId ∈ cfg.nodeIds)
    (hm : index ∈ client.held nodeId) : index < cfg.replySlotCount := by
  obtain ⟨f, hp⟩ := h.pool
  rw [← h.slots]
  exact hp.lt (mem_flatMap.2 ⟨nodeId, hn, hm⟩)

theorem moved (h : SlotsSound cfg client) (hv : Moved nodeId client next)
    (hli : next.replies.Listed) (hco : next.replies.slotCount = client.replies.slotCount)
    (hnu : next.replies.buffers.slotNum = client.replies.buffers.slotNum)
    (hpo : ∃ free, next.replies.buffers.Partition free (cfg.nodeIds.flatMap next.held))
    (hgr : ∀ token slot, .acquired token (.ok slot) ∈ next.history nodeId → slot.localAddr ≠ 0)
    (hke : ∀ index, (client.replies.leases index).isSome →
      next.replies.leases index = client.replies.leases index ∨
        (client.calling nodeId).releasing? = some index)
    (hle : ∀ p ∈ leasedSlots (next.history nodeId), p ∈ leasedSlots (client.history nodeId) ∨
      client.replies.leases p.2.slotIndex.toNat = none ∧
      ∃ lease, next.replies.leases p.2.slotIndex.toNat = some lease ∧
        lease.token = p.1 ∧ lease.slot = p.2)
    (hre : ∀ index, (next.calling nodeId).releasing? = some index →
      (next.replies.leases index).isSome ∧
      (∀ other ∈ cfg.nodeIds, index ∉ slotIndices (next.history other)) ∧
      ∀ other, (client.calling other).releasing? ≠ some index)
    (hbo : (next.calling nodeId).leasing?.isSome →
      (leased (next.history nodeId)).length < cfg.limits.maxInflightRequests) :
    SlotsSound cfg next := by
  refine ⟨hli, by rw [hco, hnu, h.count], hnu.trans h.slots, h.small, hpo, ?_, ?_, ?_, ?_⟩
  · intro other token slot hm
    by_cases he : other = nodeId
    · exact hgr token slot (he ▸ hm)
    · exact h.granted other token slot ((hv other he).2 ▸ hm)
  · have ho : ∀ other ∈ cfg.nodeIds, ∀ p ∈ leasedSlots (client.history other),
        ∃ lease, next.replies.leases p.2.slotIndex.toNat = some lease ∧
          lease.token = p.1 ∧ lease.slot = p.2 := by
      intro other ho p hp
      obtain ⟨l, hl, hm⟩ := h.lease other ho p hp
      obtain hk | hr := hke _ (by rw [hl]; rfl)
      · exact ⟨l, hk.trans hl, hm⟩
      · exact absurd (mem_map_of_mem hp) ((h.releasing nodeId _ hr).2.1 other ho)
    intro other hn p hp
    by_cases he : other = nodeId
    · subst he
      exact (hle p hp).elim (ho _ hn p) And.right
    · exact ho other hn p ((hv other he).2 ▸ hp)
  · intro other index hi
    by_cases he : other = nodeId
    · subst he
      obtain ⟨hs, hn, hu⟩ := hre index hi
      refine ⟨hs, hn, fun o ho => ?_⟩
      by_contra hne
      exact hu o ((hv o hne).1 ▸ ho)
    rw [(hv other he).1] at hi
    obtain ⟨hs, hn, hu⟩ := h.releasing other index hi
    refine ⟨?_, fun o ho hm => ?_, fun o ho => ?_⟩
    · obtain hk | hr := hke index hs
      · rwa [hk]
      · exact absurd (hu nodeId hr).symm he
    · by_cases ht : o = nodeId
      · subst ht
        obtain ⟨p, hp, rfl⟩ := mem_map.1 hm
        obtain hp | ⟨hz, -⟩ := hle p hp
        · exact hn _ ho (mem_map_of_mem hp)
        · rw [hz] at hs
          cases hs
      · exact hn o ho ((hv o ht).2 ▸ hm)
    · by_cases ht : o = nodeId
      · subst ht
        exact absurd hi ((hre index ho).2.2 other)
      · exact hu o ((hv o ht).1 ▸ ho)
  · intro other ho hl
    by_cases he : other = nodeId
    · subst he
      exact hbo hl
    · rw [(hv other he).1] at hl
      rw [(hv other he).2]
      exact h.bound other ho hl

variable {token : RequestToken} {op : OpType} {result : Expected ReplySlot} {slot : BufferPool.Slot}

theorem allocate {left : ReplyService} (h : SlotsSound cfg client)
    (valid : cfg.Valid) (hnext : client.Next cfg node (.acquired token result))
    (ha : client.replies.allocateSlot = .ok (slot, left)) :
    SlotsSound cfg ({ client with replies := left }.call node.nodeId
      (.leasing token op entryCount payloadSize slot)) := by
  obtain ⟨hnd, hd, hp⟩ := hnext
  have hid : node.nodeId ∈ cfg.nodeIds := mem_map_of_mem hnd
  obtain ⟨f, hpo⟩ := h.pool
  unfold allocateSlot at ha
  cases hb : client.replies.buffers.allocate with
  | error =>
    rw [hb] at ha
    cases ha
  | ok t =>
    obtain ⟨s, buffers⟩ := t
    rw [hb] at ha
    cases ha
    obtain ⟨hs, -, rest, -, hf⟩ := hpo.allocate hb
    have hv : Moved node.nodeId client ({ client with
        replies := { client.replies with buffers } }.call node.nodeId
          (.leasing token op entryCount payloadSize slot)) := .of_call rfl rfl
    refine h.moved hv (h.listed.congr rfl rfl rfl) rfl hs ⟨rest, ?_⟩ (h.granted _)
      (fun _ _ => .inl rfl) (fun _ => .inl) ?_ fun _ => hp.metering.head.2.1
    · rw [hv.held]
      refine hf.perm (Shares.flatMap_update valid.distinct hid ?_).symm
      simp [held, hd, leasing?, call]
    · intro index hi
      rw [calling_call_self] at hi
      cases hi

theorem registered {registered : ReplyService} (h : SlotsSound cfg client) (hnd : node ∈ cfg.nodes)
    (hca : client.calling node.nodeId = .leasing token op entryCount payloadSize slot)
    (hre : client.replies.registerLease token op entryCount payloadSize slot = .ok registered) :
    SlotsSound cfg (({ client with replies := registered }.record node.nodeId
      (.acquired token (.ok (replySlot slot)))).call node.nodeId .idle) := by
  have hid : node.nodeId ∈ cfg.nodeIds := mem_map_of_mem hnd
  obtain ⟨_, hf⟩ := h.listed.register hre
  have hz : client.replies.leases slot.slotIndex = none := by
    rwa [← h.listed.lease, Option.not_isSome_iff_eq_none] at hf
  have hlt : slot.slotIndex < cfg.replySlotCount := by
    apply h.lt_of_mem_held hid
    unfold held
    rw [hca]
    exact mem_cons_self
  have hd : (replySlot slot).slotIndex.toNat = slot.slotIndex := by
    have hsa := h.small
    exact Nat.mod_eq_of_lt (by omega)
  have had : (replySlot slot).localAddr ≠ 0 := by
    intro hnu
    unfold registerLease invalidSlot at hre
    simp [hnu] at hre
  have hn : leasedSlots (.acquired token (.ok (replySlot slot)) :: client.history node.nodeId) =
      (token, replySlot slot) :: leasedSlots (client.history node.nodeId) := by
    rw [leasedSlots, if_neg had]
  obtain ⟨hle, hb, hsl⟩ : registered.leases = update client.replies.leases slot.slotIndex
        (some { token, slot := replySlot slot, op, entryCount, payloadSize }) ∧
      registered.buffers = client.replies.buffers ∧
      registered.slotCount = client.replies.slotCount := by
    unfold registerLease at hre
    dsimp only at hre
    split_ifs at hre
    cases hre
    exact ⟨rfl, rfl, rfl⟩
  obtain ⟨next, hc, hv, hl, hh, hr⟩ := Moved.record_call client node.nodeId
    (.acquired token (.ok (replySlot slot))) .idle registered
  have hhe : next.held = client.held := by
    rw [hv.held, update_eq_self_iff]
    unfold held slotIndices
    rw [hl, hh, hn, hca, map_cons, hd]
    rfl
  rw [← hc]
  refine h.moved hv (by rwa [hr]) (by rw [hr, hsl]) (by rw [hr, hb]) ?_ ?_ ?_ ?_
    (by simp [hl, releasing?]) (by simp [hl, leasing?])
  · rw [hr, hb, hhe]
    exact h.pool
  · intro other a hm
    rw [hh] at hm
    obtain hq | ho := mem_cons.1 hm
    · cases hq
      exact had
    · exact h.granted _ other a ho
  · intro index hs
    left
    rw [hr, hle, update_of_ne]
    rintro rfl
    rw [hz] at hs
    cases hs
  · intro p hp
    rw [hh, hn] at hp
    obtain rfl | hp := mem_cons.1 hp
    · refine .inr ⟨by rwa [hd], { token, slot := replySlot slot, op, entryCount, payloadSize },
        ?_, rfl, rfl⟩
      rw [hr, hle, hd, update_self]
    · exact .inl hp

variable {memset : Status}

section
variable (h : SlotsSound cfg client) (valid : cfg.Valid) (hmemset : memset.success = true)
include h valid hmemset

theorem freeSlot {r : List Nat} (hd : nodeId ∈ cfg.nodeIds)
    (hh : (client.held nodeId).Perm (idx :: r)) : ∃ buffers f,
    client.replies.freeSlot memset idx = .ok { client.replies with buffers } ∧ buffers.slotNum =
    client.replies.buffers.slotNum ∧ buffers.Partition f
    (cfg.nodeIds.flatMap (update client.held nodeId r)) ∧ idx ∉ cfg.nodeIds.flatMap
    (update client.held nodeId r) := by
  obtain ⟨f, hp⟩ := h.pool
  have ho := hp.perm (Shares.flatMap_take valid.distinct hd hh)
  obtain ⟨buffers, hf, hs, hl⟩ := ho.freed
  refine ⟨buffers, idx :: f, ?_, hs, hl, ?_⟩
  · unfold ReplyService.freeSlot
    rw [hf]
    simp [Status.failure, hmemset]
  · have hn := hl.nodup
    rw [cons_append, nodup_cons] at hn
    exact fun hm => hn.1 (mem_append_right _ hm)

theorem refused {f : Expected ReplyService} (hnd : node ∈ cfg.nodes)
    (hc : client.calling node.nodeId = .leasing token op entryCount payloadSize slot)
    (hf : client.replies.freeSlot memset slot.slotIndex = f) : SlotsSound cfg ({ client with
      replies := f.toOption.getD client.replies }.call node.nodeId .idle) := by
  have hid : node.nodeId ∈ cfg.nodeIds := mem_map_of_mem hnd
  have hh : client.held node.nodeId =
      slot.slotIndex :: slotIndices (client.history node.nodeId) := by
    unfold held
    rw [hc]
    rfl
  obtain ⟨buffers, free, hr, hs, hp, -⟩ :=
    h.freeSlot valid hmemset hid (.of_eq hh)
  rw [hr] at hf
  subst hf
  have hv : Moved node.nodeId client ({ client with
      replies := { client.replies with buffers } }.call node.nodeId .idle) := .of_call rfl rfl
  have hd := calling_call_self node.nodeId .idle
    { client with replies := { client.replies with buffers } }
  refine h.moved hv (h.listed.congr rfl rfl rfl) rfl hs ⟨free, ?_⟩ (h.granted _)
    (fun _ _ => .inl rfl) (fun _ => .inl) (by simp [releasing?]) (by simp [leasing?])
  refine hp.perm (.of_eq (congrArg (cfg.nodeIds.flatMap ·) (.trans ?_ hv.held.symm)))
  congr 1
  unfold held
  rw [hd]
  rfl

end

variable {slot : ReplySlot}

section
variable (h : SlotsSound cfg client)
include h

section
variable (hnext : client.Next cfg node (.released token slot))
include hnext

theorem releasable : (token, slot) ∈ leasedSlots (client.history node.nodeId) ∧
    client.replies.checkRelease token slot = .OK := by
  have hd : node.nodeId ∈ cfg.nodeIds := mem_map_of_mem hnext.1
  obtain ⟨-, ha, hk⟩ := hnext.2.2.releases.head token slot rfl
  have hm := mem_leasedSlots ha (h.granted _ _ _ ha) hk
  obtain ⟨l, hl, ht, hs⟩ := h.lease _ hd _ hm
  have hlt : slot.slotIndex.toNat < client.replies.slotCount := by
    rw [h.count, h.slots]
    apply h.lt_of_mem_held hd
    exact mem_append_right _ (mem_map_of_mem hm)
  have hc : slot.slotIndex.toNat ∈ client.replies.activeLeaseIndices :=
    (h.listed.lease _).1 (by rw [hl]; rfl)
  obtain ⟨pos, hp⟩ := mem_iff_getElem?.1 hc
  refine ⟨hm, ?_⟩
  unfold checkRelease
  rw [if_neg (Nat.not_le.2 hlt), hl]
  dsimp only
  rw [if_neg (by simp [ht, hs]), (h.listed.position _ _).2 hp]
  exact if_pos hp

theorem held_released : (client.held node.nodeId).Perm
    (slot.slotIndex.toNat :: slotIndices (.released token slot :: client.history node.nodeId)) := by
  unfold held
  rw [hnext.2.1]
  exact (leasedSlots_released hnext.2.2.tail.metering (h.releasable hnext).1).map _

end

theorem release {f : ReplyService} (valid : cfg.Valid) (hmemset : memset.success = true)
    (hnext : client.Next cfg node (.released token slot))
    (hl : client.SlotFree slot.slotIndex.toNat)
    (hf : client.replies.freeSlot memset slot.slotIndex.toNat = .ok f) :
    SlotsSound cfg (({ client with replies := f }.record node.nodeId
      (.released token slot)).call node.nodeId (.releasing token slot.slotIndex.toNat)) := by
  have hd : node.nodeId ∈ cfg.nodeIds := mem_map_of_mem hnext.1
  obtain ⟨hm, -⟩ := h.releasable hnext
  have hs := leasedSlots_released hnext.2.2.tail.metering hm
  obtain ⟨buffers, free, hfr, hsl, hpo, hou⟩ :=
    h.freeSlot valid hmemset hd (h.held_released hnext)
  rw [hfr] at hf
  cases hf
  obtain ⟨next, hc, hv, ha, hh, hr⟩ := Moved.record_call client node.nodeId (.released token slot)
    (.releasing token slot.slotIndex.toNat) { client.replies with buffers }
  have haf : next.held = update client.held node.nodeId
      (slotIndices (.released token slot :: client.history node.nodeId)) := by
    rw [hv.held]
    congr 1
    unfold held
    rw [ha, hh]
    rfl
  rw [← hc]
  refine h.moved hv (hr ▸ h.listed.congr rfl rfl rfl) (by rw [hr]) (by rwa [hr]) ⟨free, ?_⟩ ?_
    (fun _ _ => .inl (by rw [hr])) ?_ ?_ (by simp [ha, leasing?])
  · rw [hr, haf]
    exact hpo
  · intro other a hac
    rw [hh] at hac
    exact h.granted _ other a ((mem_cons.1 hac).resolve_left (by simp))
  · intro p hp
    rw [hh] at hp
    exact .inl (hs.mem_iff.2 (mem_cons_of_mem _ hp))
  · intro index hi
    rw [ha] at hi
    cases hi
    obtain ⟨l, hle, -⟩ := h.lease _ hd _ hm
    refine ⟨by rw [hr, hle]; rfl, fun other ho hn => hou ?_, slotFree_iff.1 hl⟩
    rw [← haf]
    exact mem_flatMap.2 ⟨other, ho, mem_append_right _ hn⟩

theorem released (hc : client.calling nodeId = .releasing token index) :
    SlotsSound cfg ({ client with
      replies := client.replies.forgetLease index }.call nodeId .idle) := by
  have hmi : (client.calling nodeId).releasing? = some index := by
    rw [hc]
    rfl
  obtain ⟨hls, hn, _⟩ := h.releasing nodeId index hmi
  obtain ⟨l, hl⟩ := Option.isSome_iff_exists.1 hls
  obtain ⟨hli, -, hle⟩ := h.listed.forget hl
  obtain ⟨hsl, hb⟩ : (client.replies.forgetLease index).slotCount =
      client.replies.slotCount ∧ (client.replies.forgetLease index).buffers =
        client.replies.buffers := by
    unfold forgetLease
    split <;> exact ⟨rfl, rfl⟩
  have hm : Moved nodeId client ({ client with
      replies := client.replies.forgetLease index }.call nodeId .idle) := .of_call rfl rfl
  have hd := calling_call_self nodeId .idle
    { client with replies := client.replies.forgetLease index }
  have hh : ({ client with
      replies := client.replies.forgetLease index }.call nodeId .idle).held = client.held := by
    rw [hm.held, update_eq_self_iff]
    unfold held
    rw [hd, hc]
    rfl
  refine h.moved hm hli hsl (congrArg BufferPool.slotNum hb) ?_ (h.granted _) ?_ (fun _ => .inl)
    (by simp [releasing?]) (by simp [leasing?])
  · change ∃ fr, (client.replies.forgetLease index).buffers.Partition fr _
    rw [hb, hh]
    exact h.pool
  · intro other _
    by_cases he : other = index
    · exact .inr (he ▸ hmi)
    · left
      change (client.replies.forgetLease index).leases _ = _
      rw [hle, update_of_ne he]

theorem delivered {lease : Lease} (hl : client.replies.leases index = some lease) :
    SlotsSound cfg { client with replies := client.replies.setDelivered index lease } := by
  have hs : ∀ other, ((client.replies.setDelivered index lease).leases other).isSome =
      (client.replies.leases other).isSome := by
    intro other
    unfold setDelivered
    by_cases he : other = index
    · subst he
      simp [hl]
    · simp [update_of_ne he]
  refine { h with listed := ⟨h.listed.position, ?_⟩, lease := ?_, releasing := ?_ }
  · intro other
    rw [hs]
    exact h.listed.lease other
  · intro nodeId hn p hp
    obtain ⟨f, hf, ht, hsl⟩ := h.lease nodeId hn p hp
    unfold setDelivered
    by_cases he : p.2.slotIndex.toNat = index
    · rw [he, hl] at hf
      cases hf
      exact ⟨{ lease with delivered := true }, by simp [he], ht, hsl⟩
    · exact ⟨f, by simpa [update_of_ne he] using hf, ht, hsl⟩
  · intro nodeId a hr
    obtain ⟨_, hrs⟩ := h.releasing nodeId a hr
    exact ⟨by rwa [hs], hrs⟩

end

theorem start (h : Init cfg client) : SlotsSound cfg client := by
  obtain ⟨executor, replies, replyAddr, -, hc, rfl⟩ := h
  unfold create at hc
  split_ifs at hc
  cases hn : BufferPool.init "dram_reply_slots" cfg.replySlotSize cfg.replySlotCount
      DramPool.kDefaultSlotAlignment replyAddr with
  | error s =>
    rw [hn] at hc
    cases hc
  | ok buffers =>
    rw [hn] at hc
    cases hc
    have ho := BufferPool.partition_init hn
    obtain ⟨hs, hsm⟩ := BufferPool.slotNum_init hn
    have hh : cfg.nodeIds.flatMap (held { executor, replies := {
        slotSize := cfg.replySlotSize, slotCount := cfg.replySlotCount, buffers } }) = [] := by
      rw [flatMap_eq_nil_iff]
      intro _ _
      rfl
    refine ⟨⟨?_, ?_⟩, hs.symm, hs, ?_, ⟨range buffers.slotNum, ?_⟩, ?_, ?_, ?_, ?_⟩
    · intro index pos
      simp
    · intro index
      simp
    · unfold DramPool.kMaxIndex at hsm
      omega
    · rw [hh]
      exact ho
    · intro nodeId token slot hm
      cases hm
    · intro nodeId _ p hp
      cases hp
    · intro nodeId index hr
      cases hr
    · intro nodeId _ hl
      cases hl

section
variable (h : SlotsSound cfg client) (valid : cfg.Valid)
include h valid

theorem keep (hmemset : memset.success = true) (hs : Step cfg client memset next) :
    SlotsSound cfg next := by
  have ht : ∀ {o : Observation} {node : NodeEndpoint}, Slotless o →
      SlotsSound cfg (client.record node.nodeId o) := fun hsl =>
    h.steady ⟨rfl, rfl, rfl, id, slotless_record hsl _ _, fun _ => rfl, fun _ => rfl⟩
  have hp : ∀ {m : Client} {nodeId : NodeId} {e : NodeEvent},
      SlotsSound cfg m → SlotsSound cfg (m.publish nodeId e) := by
    intro m nodeId e hm
    obtain hlo | hgo := publish_cases nodeId e m
    · rwa [hlo]
    · rw [hgo]
      exact hm.steady ⟨rfl, rfl, rfl, id, fun _ => .inl rfl, fun _ => rfl, fun _ => rfl⟩
  have hot : ∀ {executor : TransportExecutor} {received : List RequestToken},
      SlotsSound cfg { client with executor, received } :=
    h.steady ⟨rfl, rfl, rfl, id, fun _ => .inl rfl, fun _ => rfl, fun _ => rfl⟩
  cases hs with
  | act _ hd => exact ht (slotless_of_idle hd)
  | accept =>
    exact h.steady ⟨rfl, rfl, rfl, id, slotless_record (by trivial) _ _, fun _ => rfl, fun _ => rfl⟩
  | post hnext =>
    have he := congrArg leasing? hnext.2.1
    have hre := congrArg releasing? hnext.2.1
    exact h.steady ⟨rfl, rfl, rfl, id, slotless_record (by trivial) _ _, calling_frame he,
      calling_frame hre⟩
  | posted hc =>
    have he := congrArg leasing? hc
    have hre := congrArg releasing? hc
    exact h.steady ⟨rfl, rfl, rfl, id, fun _ => .inl rfl, calling_frame he, calling_frame hre⟩
  | allocate hnext _ hal => exact h.allocate valid hnext hal
  | lease hn hc _ hg => exact h.registered hn hc hg
  | leaseRefused _ hn hc _ _ hf =>
    exact (h.refused valid hmemset hn hc hf).steady
      ⟨rfl, rfl, rfl, id, slotless_record (by trivial) _ _, fun _ => rfl, fun _ => rfl⟩
  | releaseRefused hnext _ hr =>
    rw [(h.releasable hnext).2] at hr
    cases hr
  | releaseFailed _ hnext _ _ ha =>
    obtain ⟨b, _, hfr, -⟩ :=
      h.freeSlot valid hmemset (mem_map_of_mem hnext.1) (h.held_released hnext)
    rw [hfr] at ha
    cases ha
  | release _ hnext ho _ hf => exact h.release valid hmemset hnext ho hf
  | released hc => exact h.released hc
  | pop | uncount | reach | exit | stopCommands => exact hot
  | finish => exact hp hot
  | reply _ _ hl => exact hp (h.delivered hl)
  | stopMessages =>
    exact h.steady ⟨rfl, rfl, rfl, id, fun _ => .inl rfl, fun _ => rfl, fun _ => rfl⟩
  | stopReplies =>
    exact h.steady ⟨rfl, rfl, rfl, fun hli => hli.congr rfl rfl rfl, fun _ => .inl rfl,
      fun _ => rfl, fun _ => rfl⟩
  | _ => exact ht trivial

theorem allocate_room (hq : QueuesSound cfg client)
    (hnext : client.Next cfg node (.acquired token result)) :
    ∃ slot left, client.replies.allocateSlot = .ok (slot, left) := by
  obtain ⟨f, hp⟩ := h.pool
  have hs : ∀ nodeId, (slotIndices (client.history nodeId)).length =
      (leased (client.history nodeId)).length := by
    intro nodeId
    rw [slotIndices, length_map, ← map_fst_leasedSlots, length_map]
  have hh : ∀ other ∈ cfg.nodes, (client.held other.nodeId).length ≤
      cfg.limits.maxInflightRequests := by
    intro other ho
    unfold held
    rw [length_append, hs]
    cases hl : (client.calling other.nodeId).leasing? with
    | none =>
      have he := length_leased_le (hq.sane other ho).possible.metering
      simpa [view, ClientConfig.actor] using he
    | some =>
      have hlt := h.bound other.nodeId (mem_map_of_mem ho) (by rw [hl]; rfl)
      rw [Option.toList_some, length_singleton]
      omega
  have hm : (client.held node.nodeId).length < cfg.limits.maxInflightRequests := by
    unfold held
    rw [hnext.2.1, length_append, hs]
    simpa [leasing?, ClientConfig.actor] using hnext.2.2.metering.head.2.1
  have hu := Shares.sum_lt hh hnext.1 hm
  have ht : (cfg.nodeIds.flatMap client.held).length =
      (cfg.nodes.map fun node => (client.held node.nodeId).length).sum := by
    rw [length_flatMap, ClientConfig.nodeIds, map_map]
    rfl
  have hal := hp.all.length_eq
  rw [length_append, ht, length_range, h.slots] at hal
  have hsl := valid.slots
  unfold allocateSlot
  cases ha : client.replies.buffers.allocate with
  | error =>
    rw [(hp.allocate_error ha).1, length_nil] at hal
    omega
  | ok => exact ⟨_, _, rfl⟩

end
end SlotsSound
end Client
end UnifiedCache.Dram
