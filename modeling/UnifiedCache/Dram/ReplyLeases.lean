import UnifiedCache.Dram.KvProtocol
import UnifiedCache.DramPool.BufferPool

/-! The reply slots of a client: `Acquire` leases a slot of the pool to a request and
`Release` gives it back. Both are cut where another thread can come in between. The
lock-free index pool is one step, as is each part under a lock; the version counter
only wakes the observer and is left out. -/
namespace UnifiedCache.Dram
open List Function
open DramPool (BufferPool)

structure Lease where
  token : RequestToken
  slot : ReplySlot
  op : OpType
  entryCount : Nat
  payloadSize : Nat
  delivered : Bool := false

/-- `leases` are the `lease` fields of the slot contexts. -/
structure ReplyService where
  slotSize : Nat
  slotCount : Nat
  buffers : BufferPool
  leases : Nat → Option Lease := fun _ => none
  activeLeaseIndices : List Nat := []
  activeLeasePositions : Nat → Option Nat := fun _ => none
  acceptingLeases : Bool := true

namespace ReplyService

/-- `Init` and `Start`; `localAddr` is the region that the allocator returned. -/
def create (slotSize slotCount localAddr : Nat) : Expected ReplyService :=
  if slotSize = 0 ∨ slotCount = 0 then .error (.InvalidParam "invalid ReplyService options")
  else
    match BufferPool.init "dram_reply_slots" slotSize slotCount DramPool.kDefaultSlotAlignment
      localAddr with
    | .error status => .error status
    | .ok buffers => .ok { slotSize, slotCount, buffers }

def replyPayloadSize (op : OpType) (entryCount : Nat) : Nat :=
  if entryCount = 0 ∨ kMaxProtocolBatchEntries < entryCount then 0
  else getPackedResponseSize op entryCount

/-- The checks of `Acquire` in front of the allocation; the result is the payload size. -/
def checkAcquire (token : RequestToken) (op : OpType) (entryCount : Nat) (service : ReplyService) :
    Expected Nat :=
  let payloadSize := replyPayloadSize op entryCount
  if token.nodeId = 0xFFFFFFFFFFFFFFFF ∨ token.epoch = kInvalidConnectionEpoch ∨
      token.requestId = kInvalidRequestId ∨ entryCount = 0 ∨ payloadSize = 0 ∨
      service.slotSize < payloadSize then
    .error (.InvalidParam "invalid reply lease request")
  else if service.acceptingLeases = false then .error (.Error "ReplyService is stopping")
  else .ok payloadSize

def allocateSlot (service : ReplyService) : Expected (BufferPool.Slot × ReplyService) :=
  match service.buffers.allocate with
  | .error status => .error status
  | .ok (slot, buffers) => .ok (slot, { service with buffers })

def replySlot (slot : BufferPool.Slot) : ReplySlot where
  localAddr := UInt64.ofNat slot.localAddr
  length := slot.length
  slotIndex := UInt32.ofNat slot.slotIndex
  offset := slot.offset

def isValidPointer (address : Nat) (buffers : BufferPool) : Bool :=
  let offset := address - buffers.localAddr
  decide (address ≠ 0 ∧ buffers.localAddr ≤ address ∧
    offset < buffers.slotStride * buffers.slotNum ∧ offset % buffers.slotStride = 0)

inductive Refusal where
  | invalidSlot | stopping
  deriving DecidableEq, Repr

/-- The check of `Acquire` on what the pool returned, in front of the lock. -/
def invalidSlot (slot : BufferPool.Slot) (service : ReplyService) : Bool :=
  decide (service.slotCount ≤ slot.slotIndex) || decide ((replySlot slot).localAddr = 0) ||
    decide (slot.length = 0) || !isValidPointer slot.localAddr service.buffers

/-- The rest of `Acquire`, under the lock of the slot. -/
def registerLease (token : RequestToken) (op : OpType) (entryCount payloadSize : Nat)
    (slot : BufferPool.Slot) (service : ReplyService) : Except Refusal ReplyService :=
  let index := slot.slotIndex
  if service.invalidSlot slot then .error .invalidSlot
  else if service.acceptingLeases = false then .error .stopping
  else if (service.leases index).isSome ∨ service.activeLeasePositions index ≠ none then
    .error .invalidSlot
  else .ok { service with
    leases := update service.leases index
      (some { token, slot := replySlot slot, op, entryCount, payloadSize })
    activeLeasePositions := update service.activeLeasePositions index
      (some service.activeLeaseIndices.length)
    activeLeaseIndices := service.activeLeaseIndices ++ [index] }

/-- `BufferPool::Free` of a pool that zeroes its slots; `memset` is what the device
answered. -/
def freeSlot (memset : Status) (index : Nat) (service : ReplyService) : Expected ReplyService :=
  match service.buffers.free index with
  | .error status => .error status
  | .ok buffers =>
    if memset.failure then .error (.Error (service.buffers.name ++ ": failed to memset buffer"))
    else .ok { service with buffers }

/-- What a refused `Acquire` returns once it has tried to free its slot. -/
def refusalStatus (freed : Expected ReplyService) : Refusal → Status
  | .invalidSlot => .Error "reply buffer pool returned an invalid slot"
  | .stopping =>
    match freed with
    | .error status => status
    | .ok _ => .Error "ReplyService is stopping"

def checkRelease (token : RequestToken) (slot : ReplySlot) (service : ReplyService) : Status :=
  let index := slot.slotIndex.toNat
  if service.slotCount ≤ index then .InvalidParam "reply slot is not leased"
  else
    match service.leases index with
    | none => .InvalidParam "reply slot is not leased"
    | some lease =>
      if lease.token ≠ token ∨ lease.slot.localAddr ≠ slot.localAddr ∨
          lease.slot.length ≠ slot.length then
        .InvalidParam "reply slot ownership mismatch"
      else
        match service.activeLeasePositions index with
        | none => .Error "reply active-lease index invariant violated"
        | some position =>
          if service.activeLeaseIndices[position]? = some index then .OK
          else .Error "reply active-lease index invariant violated"

/-- The end of `Release`: the last active index takes the place of the released one. -/
def forgetLease (index : Nat) (service : ReplyService) : ReplyService :=
  match service.activeLeasePositions index, service.activeLeaseIndices.getLast? with
  | some position, some lastIndex => { service with
      activeLeaseIndices := (service.activeLeaseIndices.set position lastIndex).dropLast
      activeLeasePositions := update
        (update service.activeLeasePositions lastIndex (some position)) index none
      leases := update service.leases index none }
  | _, _ => service

def setDelivered (index : Nat) (lease : Lease) (service : ReplyService) : ReplyService :=
  { service with
    leases := update service.leases index (some { lease with delivered := true }) }

theorem perm_set_dropLast {items : List Nat} {pos i last : Nat} (ht : items[pos]? = some i)
    (ha : items.getLast? = some last) : items.Perm (i :: (items.set pos last).dropLast) := by
  obtain ⟨hl, rfl⟩ := List.getElem?_eq_some_iff.1 ht
  have he : (items.set pos last).getLast? = some last := by
    rw [List.getLast?_eq_getElem?, length_set, List.getElem?_set, if_pos hl,
      ← List.getLast?_eq_getElem?, ha, ite_self]
  have hs : (items.set pos last).Perm (last :: (items.set pos last).dropLast) := by
    rw [← dropLast_append_getLast? _ he]
    simp
  have hr := (set_perm_cons_eraseIdx hl last).symm.trans hs
  exact (getElem_cons_eraseIdx_perm hl).symm.trans (hr.cons_inv.cons _)

structure Listed (service : ReplyService) : Prop where
  position : ∀ index position, service.activeLeasePositions index = some position ↔
    service.activeLeaseIndices[position]? = some index
  lease : ∀ index, (service.leases index).isSome ↔ index ∈ service.activeLeaseIndices

namespace Listed
variable {service next : ReplyService} {idx : Nat}

section
variable (h : Listed service)
include h

theorem nodup : service.activeLeaseIndices.Nodup := by
  rw [nodup_iff_getElem?_ne_getElem?]
  intro i j hij hj he
  obtain ⟨value, hv⟩ : ∃ value, service.activeLeaseIndices[j]? = some value :=
    ⟨_, getElem?_eq_getElem hj⟩
  have hi := (h.position value i).2 (he.trans hv)
  rw [(h.position value j).2 hv] at hi
  cases hi
  exact Nat.lt_irrefl _ hij

theorem congr (hl : next.leases = service.leases)
    (hn : next.activeLeaseIndices = service.activeLeaseIndices)
    (hp : next.activeLeasePositions = service.activeLeasePositions) : Listed next := by
  refine ⟨?_, ?_⟩
  · rw [hn, hp]
    exact h.position
  · rw [hn, hl]
    exact h.lease

theorem register {token : RequestToken} {op : OpType} {entryCount payloadSize : Nat}
    {slot : BufferPool.Slot}
    (hr : service.registerLease token op entryCount payloadSize slot = .ok next) :
    Listed next ∧ slot.slotIndex ∉ service.activeLeaseIndices := by
  unfold registerLease at hr
  dsimp only at hr
  split_ifs at hr with _ _ hl
  cases hr
  have hfr : slot.slotIndex ∉ service.activeLeaseIndices := by
    rw [← h.lease]
    exact fun hs => hl (.inl hs)
  refine ⟨⟨?_, ?_⟩, hfr⟩
  · intro idx pos
    dsimp only
    by_cases he : idx = slot.slotIndex
    · subst he
      rw [update_self, Option.some.injEq, getElem?_append]
      constructor
      · rintro rfl
        simp
      intro hf
      split at hf
      · exact absurd (mem_of_getElem? hf) hfr
      rw [getElem?_singleton] at hf
      split at hf
      · omega
      · cases hf
    rw [update_of_ne he, h.position, getElem?_append]
    split
    · rfl
    rw [getElem?_eq_none (by omega), getElem?_singleton]
    split
    · simp [Ne.symm he]
    · simp
  · intro idx
    dsimp only
    by_cases he : idx = slot.slotIndex
    · subst he
      simp
    · rw [update_of_ne he, h.lease]
      simp [he]

theorem forget {l : Lease} (hle : service.leases idx = some l) : Listed (service.forgetLease idx) ∧
    service.activeLeaseIndices.Perm (idx :: (service.forgetLease idx).activeLeaseIndices) ∧
    (service.forgetLease idx).leases = update service.leases idx none := by
  have hm : idx ∈ service.activeLeaseIndices := (h.lease idx).1 (by rw [hle]; rfl)
  obtain ⟨pos, ht⟩ := mem_iff_getElem?.1 hm
  have ho := (h.position idx pos).2 ht
  have hlt := (List.getElem?_eq_some_iff.1 ht).1
  obtain ⟨last, ha⟩ : ∃ last, service.activeLeaseIndices.getLast? = some last := by
    rw [List.getLast?_eq_getElem?]
    exact ⟨_, List.getElem?_eq_getElem (by omega)⟩
  have hfo : service.forgetLease idx = { service with
      activeLeaseIndices := (service.activeLeaseIndices.set pos last).dropLast
      activeLeasePositions := update
        (update service.activeLeasePositions last (some pos)) idx none
      leases := update service.leases idx none } := by
    unfold forgetLease
    rw [ho, ha]
  have hpm := perm_set_dropLast ht ha
  have hd := hpm.nodup_iff.1 h.nodup
  have hl := ha
  rw [List.getLast?_eq_getElem?] at hl
  rw [hfo]
  refine ⟨⟨?_, ?_⟩, hpm, rfl⟩
  · intro o place
    dsimp only
    rw [List.getElem?_dropLast, length_set, List.getElem?_set, if_pos hlt]
    by_cases he : o = idx
    · subst he
      rw [update_self]
      constructor
      · intro hn
        cases hn
      intro hf
      have hin : o ∈ (service.activeLeaseIndices.set pos last).dropLast := by
        refine mem_of_getElem? (i := place) ?_
        rw [List.getElem?_dropLast, length_set, List.getElem?_set, if_pos hlt]
        exact hf
      exact absurd hin (nodup_cons.1 hd).1
    rw [update_of_ne he]
    by_cases hv : o = last
    · subst hv
      rw [update_self, Option.some.injEq]
      have hpa : ∀ place, service.activeLeaseIndices[place]? = some o →
          place = service.activeLeaseIndices.length - 1 := by
        intro place hp
        have hfs := (h.position o place).2 hp
        rw [(h.position o _).2 hl] at hfs
        exact (Option.some.inj hfs).symm
      have hne : pos ≠ service.activeLeaseIndices.length - 1 := by
        intro hs
        rw [hs, hl] at ht
        exact he (Option.some.inj ht)
      constructor
      · rintro rfl
        rw [if_pos (by omega), if_pos rfl]
      intro hf
      split at hf
      · split at hf
        · assumption
        · have := hpa place hf
          omega
      · cases hf
    · rw [update_of_ne hv, h.position]
      by_cases hp : pos = place
      · subst hp
        rw [ht, if_pos rfl]
        constructor
        · intro hs
          exact absurd (Option.some.inj hs).symm he
        intro hf
        split at hf
        · exact absurd (Option.some.inj hf).symm hv
        · cases hf
      rw [if_neg hp]
      split
      · rfl
      constructor
      · intro hf
        have hc := (List.getElem?_eq_some_iff.1 hf).1
        rw [show place = service.activeLeaseIndices.length - 1 by omega, hl] at hf
        exact absurd (Option.some.inj hf).symm hv
      · intro hn
        cases hn
  · intro o
    dsimp only
    by_cases he : o = idx
    · subst he
      rw [update_self]
      simp [(nodup_cons.1 hd).1]
    · rw [update_of_ne he, h.lease, hpm.mem_iff, mem_cons]
      simp [he]

end
end Listed
end ReplyService
end UnifiedCache.Dram
