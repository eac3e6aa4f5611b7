import Mathlib.Algebra.Ring.Nat
import Mathlib.Data.Fintype.Basic
import Mathlib.Data.List.MinMax
import UnifiedCache.Lib.Transition
import UnifiedCache.Status

/-! The memory regions that are registered with the transports. Addresses and lengths are numbers
of 64 bits; a region is known by its handle, as by its pointer. The entries of an address index
are in no order here: what is found in the order of a map is computed from them. -/
namespace UnifiedCache.P2p
open List Function Transition

structure MemoryRegion where
  addr : Nat
  length : Nat
  deviceId : Int32
  deriving DecidableEq

def mix (hash value : UInt64) : UInt64 :=
  ((range 8).foldl (fun (hash, value) _ =>
    ((hash ^^^ (value &&& 0xff)) * 1099511628211, value >>> 8)) (hash, value)).1

def hashMemoryRegion (memory : MemoryRegion) : UInt64 :=
  mix (mix (mix 14695981039346656037 (.ofNat memory.addr)) (.ofNat memory.length))
    memory.deviceId.toUInt32.toUInt64

structure Region (π : Type) where
  memory : MemoryRegion
  registrations : π → Option (List UInt64)

structure MemoryRegionManager (π : Type) where
  byHandle : UInt64 → Option (Region π) := fun _ => none
  byAddress : Int32 → List (Nat × UInt64) := fun _ => []

namespace MemoryRegionManager
variable {π : Type} [DecidableEq π] [Fintype π] (m : MemoryRegionManager π)

def memory? (handle : UInt64) : Option MemoryRegion := (m.byHandle handle).map Region.memory

def lengthOf (handle : UInt64) : Nat := ((m.memory? handle).map MemoryRegion.length).getD 0

def registered (protocol : π) (handle : UInt64) : Bool :=
  ((m.byHandle handle).bind fun region => region.registrations protocol).isSome

/-- The check of the region in front of the one that `lower_bound` finds. -/
def checkPrevious (memory : MemoryRegion) : Status :=
  match ((m.byAddress memory.deviceId).filter (·.1 < memory.addr)).argmax Prod.fst with
  | some (start, handle) =>
    if memory.addr < (start + m.lengthOf handle) % 2 ^ 64 then
      .InvalidParam "memory region overlaps an existing region"
    else .OK
  | none => .OK

def validateMemoryRegion (memory : MemoryRegion) : Status :=
  if memory.addr = 0 ∨ memory.length = 0 then
    .InvalidParam "memory address is null or length is zero"
  else if 2 ^ 64 - 1 - memory.addr < memory.length then
    .InvalidParam "memory address range overflows"
  else
    match ((m.byAddress memory.deviceId).filter (memory.addr ≤ ·.1)).argmin Prod.fst with
    | some (start, handle) =>
      if start = memory.addr then
        if m.lengthOf handle ≠ memory.length then
          .InvalidParam "memory region overlaps an existing region"
        else .OK
      else if start < memory.addr + memory.length then
        .InvalidParam "memory region overlaps an existing region"
      else m.checkPrevious memory
    | none => m.checkPrevious memory

def addMemoryRegion (protocol : π) (memory : MemoryRegion) (native : List UInt64)
    (handle : UInt64) : MemoryRegionManager π :=
  match (m.byAddress memory.deviceId).lookup memory.addr with
  | some found => { m with byHandle := update m.byHandle found ((m.byHandle found).map fun region =>
      { region with registrations := update region.registrations protocol (some native) }) }
  | none => {
      byHandle := update m.byHandle handle (some ((m.byHandle handle).getD
        ⟨memory, update (fun _ => none) protocol (some native)⟩))
      byAddress := update m.byAddress memory.deviceId
        ((memory.addr, handle) :: m.byAddress memory.deviceId) }

def removeMemoryRegion (protocol : π) (handle : UInt64) : MemoryRegionManager π :=
  match m.byHandle handle with
  | none => m
  | some region =>
    let registrations := update region.registrations protocol none
    let device := region.memory.deviceId
    if ∃ p, (registrations p).isSome then
      { m with byHandle := update m.byHandle handle (some { region with registrations }) }
    else {
      byHandle := update m.byHandle handle none
      byAddress := update m.byAddress device
        ((m.byAddress device).filter (·.1 ≠ region.memory.addr)) }

def findContainingMemoryRegion (protocol : π) (device : Int32) (address length : Nat) :
    Option (Region π) :=
  (((m.byAddress device).filter (·.1 ≤ address)).mergeSort (·.1 ≥ ·.1)).find?
    (fun (start, handle) => m.registered protocol handle ∧ address - start ≤ m.lengthOf handle ∧
      length ≤ m.lengthOf handle - (address - start)) |>.bind fun (_, handle) => m.byHandle handle

/-- `RegisterMemory` of a transport; each of its instances answers with a handle or rejects. -/
def transportRegister (protocol : π) (memory : MemoryRegion) (handle : UInt64)
    (answers : List (Option UInt64)) : Except Status (MemoryRegionManager π) :=
  if ((m.byAddress memory.deviceId).lookup memory.addr).any (m.registered protocol) then
    .error .DuplicateKey
  else
    match answers.mapM fun answer => answer.filter (· ≠ 0) with
    | some native => .ok (m.addMemoryRegion protocol memory native handle)
    | none => .error (.Error "")

/-- `UnregisterMemory` of a transport, whose instances accept it or not. -/
def transportUnregister (handle : UInt64) (accepts : Bool) (protocol : π) :
    Except Status (MemoryRegionManager π) :=
  if m.registered protocol handle then
    if accepts then .ok (m.removeMemoryRegion protocol handle) else .error (.Error "")
  else .error .NotFound

def rollback (handle : UInt64) (accepts : π → Bool) (m : MemoryRegionManager π) (protocol : π) :
    MemoryRegionManager π :=
  match m.transportUnregister handle (accepts protocol) protocol with
  | .ok next => next
  | .error _ => m

def registerWithTransports (memory : MemoryRegion) (handle : UInt64)
    (answers : π → List (Option UInt64)) (accepts : π → Bool) :
    List π → List π → MemoryRegionManager π → Status × MemoryRegionManager π
  | _, [], m => (.OK, m)
  | done, protocol :: rest, m =>
    match m.transportRegister protocol memory handle (answers protocol) with
    | .ok next => registerWithTransports memory handle answers accepts (protocol :: done) rest next
    | .error status => (status, done.foldl (rollback handle accepts) m)

def registerMemory (transports : List π) (memory : MemoryRegion)
    (answers : π → List (Option UInt64)) (accepts : π → Bool) : Status × MemoryRegionManager π :=
  let status := m.validateMemoryRegion memory
  if status.failure then (status, m)
  else registerWithTransports memory (hashMemoryRegion memory) answers accepts [] transports m

def unregisterMemory (handle : UInt64) (accepts : π → Bool) :
    List π → MemoryRegionManager π → Status × MemoryRegionManager π
  | [], m => (.OK, m)
  | protocol :: rest, m =>
    match m.transportUnregister handle (accepts protocol) protocol with
    | .ok next => unregisterMemory handle accepts rest next
    | .error status => (status, m)

inductive Call (π : Type) where
  | register (memory : MemoryRegion) (answers : π → List (Option UInt64)) (accepts : π → Bool)
  | unregister (handle : UInt64) (accepts : π → Bool)

def Call.Names (used : Set MemoryRegion) : Call π → Prop
  | .register memory _ _ => memory ∈ used
  | .unregister _ _ => True

def perform (transports : List π) : Call π → MemoryRegionManager π
  | .register memory answers accepts => (m.registerMemory transports memory answers accepts).2
  | .unregister handle accepts => (unregisterMemory handle accepts transports m).2

def Apart (a b : MemoryRegion) : Prop :=
  a.deviceId = b.deviceId → a.addr + a.length ≤ b.addr ∨ b.addr + b.length ≤ a.addr

/-- `used` are the regions that the calls name; their hashes do not collide. -/
structure Sound (used : Set MemoryRegion) : Prop where
  region : ∀ h a, m.memory? h = some a →
    h = hashMemoryRegion a ∧ a ∈ used ∧ 0 < a.length ∧ a.addr + a.length < 2 ^ 64
  held : ∀ h region, m.byHandle h = some region → ∃ p, (region.registrations p).isSome
  listed : ∀ device start h, (start, h) ∈ m.byAddress device ↔
    ∃ a, m.memory? h = some a ∧ a.deviceId = device ∧ a.addr = start
  apart : ∀ h k a b, m.memory? h = some a → m.memory? k = some b → h ≠ k → Apart a b

/-- A region that is there already, or that meets no other one. -/
structure Fits (a : MemoryRegion) : Prop where
  length : 0 < a.length
  range : a.addr + a.length < 2 ^ 64
  free : m.memory? (hashMemoryRegion a) = some a ∨ ∀ h b, m.memory? h = some b → Apart a b

variable {m} {used : Set MemoryRegion} {h k : UInt64} {a b : MemoryRegion} {p : π}

section
omit [DecidableEq π] [Fintype π]

theorem memory?_eq {r : Region π} (hr : m.byHandle h = some r) : m.memory? h = some r.memory := by
  simp [memory?, hr]

@[simp] theorem memory?_update (manager : MemoryRegionManager π) (handle : UInt64)
    (region : Option (Region π)) (lists : Int32 → List (Nat × UInt64)) :
    memory? ⟨update manager.byHandle handle region, lists⟩ = update manager.memory? handle
    (region.map Region.memory) := by
  funext k
  rcases eq_or_ne k handle with rfl | hn
  · simp [memory?]
  · simp [memory?, hn]

theorem lengthOf_eq (ha : m.memory? h = some a) : m.lengthOf h = a.length := by
  simp [lengthOf, ha]

namespace Sound
variable (hs : m.Sound used)
include hs

theorem unique (ha : m.memory? h = some a) (hb : m.memory? k = some b)
    (hd : a.deviceId = b.deviceId) (he : a.addr = b.addr) : h = k := by
  by_contra hn
  have := hs.apart h k a b ha hb hn hd
  have := (hs.region h a ha).2.2
  have := (hs.region k b hb).2.2
  omega

theorem previous (hv : (m.checkPrevious a).failure = false) (hb : m.memory? h = some b)
    (hd : b.deviceId = a.deviceId) (hlt : b.addr < a.addr) : b.addr + b.length ≤ a.addr := by
  have hm : (b.addr, h) ∈ (m.byAddress a.deviceId).filter (·.1 < a.addr) := by
    simp [hlt, (hs.listed _ _ _).2 ⟨b, hb, hd, rfl⟩]
  unfold checkPrevious at hv
  split at hv
  · rename_i start k hmax
    obtain ⟨hk, hka⟩ := mem_filter.1 (argmax_mem hmax)
    obtain ⟨o, ho, hod, rfl⟩ := (hs.listed _ _ _).1 hk
    have hle := le_of_mem_argmax hm hmax
    have hr := (hs.region k o ho).2.2
    rw [lengthOf_eq ho, Nat.mod_eq_of_lt hr.2] at hv
    split at hv
    · cases hv
    · rcases eq_or_ne h k with rfl | hn
      · cases hb.symm.trans ho
        omega
      · have := hs.apart h k b o hb ho hn (hd.trans hod.symm)
        simp at hka hle
        omega
  · rename_i hnone
    rw [argmax_eq_none.1 hnone] at hm
    cases hm

theorem next (hv : (m.validateMemoryRegion a).failure = false) :
    0 < a.length ∧ a.addr + a.length < 2 ^ 64 ∧ (m.memory? (hashMemoryRegion a) = some a ∨
      (m.checkPrevious a).failure = false ∧
        ∀ x ∈ m.byAddress a.deviceId, a.addr ≤ x.1 → a.addr + a.length ≤ x.1) := by
  unfold validateMemoryRegion at hv
  split at hv
  · cases hv
  split at hv
  · cases hv
  refine ⟨by omega, by omega, ?_⟩
  split at hv
  · rename_i start k hmin
    obtain ⟨o, ho, hod, rfl⟩ := (hs.listed _ _ _).1 (mem_filter.1 (argmin_mem hmin)).1
    rw [lengthOf_eq ho] at hv
    split at hv
    · split at hv
      · cases hv
      · obtain rfl : o = a := by
          cases o
          cases a
          simp_all
        exact .inl ((hs.region k o ho).1 ▸ ho)
    · split at hv
      · cases hv
      · refine .inr ⟨hv, fun x hx hle => ?_⟩
        have := le_of_mem_argmin (mem_filter.2 ⟨hx, decide_eq_true hle⟩) hmin
        omega
  · rename_i hnone
    refine .inr ⟨hv, fun x hx hle => ?_⟩
    exact absurd (decide_eq_true hle) (filter_eq_nil_iff.1 (argmin_eq_none.1 hnone) x hx)

theorem fits (hv : (m.validateMemoryRegion a).failure = false) : m.Fits a := by
  obtain ⟨hl, hr, hn⟩ := hs.next hv
  refine ⟨hl, hr, hn.imp_right fun ⟨hp, hn⟩ h b hb hd => ?_⟩
  by_cases hlt : b.addr < a.addr
  · exact .inr (hs.previous hp hb hd.symm hlt)
  · exact .inl (hn _ ((hs.listed _ _ h).2 ⟨b, hb, hd.symm, rfl⟩) (by omega))

theorem put {r : Option (Region π)} {l : Int32 → List (Nat × UInt64)}
    (hr : ∀ x ∈ r, (∃ p, (x.registrations p).isSome) ∧ h = hashMemoryRegion x.memory ∧
      x.memory ∈ used ∧ 0 < x.memory.length ∧ x.memory.addr + x.memory.length < 2 ^ 64 ∧
      ∀ k b, k ≠ h → m.memory? k = some b → Apart x.memory b)
    (hl : ∀ device start, ((start, h) ∈ l device ↔
        ∃ x ∈ r, x.memory.deviceId = device ∧ x.memory.addr = start) ∧
      ∀ k ≠ h, (start, k) ∈ l device ↔ (start, k) ∈ m.byAddress device) :
    Sound ⟨update m.byHandle h r, l⟩ used := by
  have hm := memory?_update m h r l
  have hat {b : MemoryRegion} (hb : memory? ⟨update m.byHandle h r, l⟩ h = some b) :
      ∃ x ∈ r, x.memory = b := by simpa [hm] using hb
  refine ⟨fun k b hb => ?_, fun k x hx => ?_, fun device start k => ?_, fun k o b c hb hc hne => ?_⟩
  · rcases eq_or_ne k h with rfl | hn
    · obtain ⟨x, hx, rfl⟩ := hat hb
      have := hr x hx
      tauto
    · exact hs.region k b (by simpa [hm, hn] using hb)
  · rcases eq_or_ne k h with rfl | hn
    · exact (hr x (by simpa using hx)).1
    · exact hs.held k x (by simpa [hn] using hx)
  · rcases eq_or_ne k h with rfl | hn
    · simp [hm, (hl device start).1]
    · rw [(hl device start).2 k hn, hs.listed, hm, update_of_ne hn]
  · rcases eq_or_ne k h with rfl | hk
    · obtain ⟨x, hx, rfl⟩ := hat hb
      exact (hr x hx).2.2.2.2.2 o c hne.symm (by simpa [hm, hne.symm] using hc)
    · rcases eq_or_ne o h with rfl | ho
      · obtain ⟨x, hx, rfl⟩ := hat hc
        intro hd
        exact ((hr x hx).2.2.2.2.2 k b hk (by simpa [hm, hk] using hb) hd.symm).symm
      · exact hs.apart k o b c (by simpa [hm, hk] using hb) (by simpa [hm, ho] using hc) hne

theorem change {r : Region π} (hr : m.byHandle h = some r) {registrations : π → Option
    (List UInt64)} (hex : ∃ p, (registrations p).isSome) :
    Sound ⟨update m.byHandle h (some { r with registrations }), m.byAddress⟩ used := by
  have hm := memory?_eq hr
  obtain ⟨hh, hu, hl, ha⟩ := hs.region h _ hm
  refine hs.put ?_ fun device start => ⟨by simp [hs.listed, hm], fun _ _ => .rfl⟩
  rintro _ ⟨⟩
  exact ⟨hex, hh, hu, hl, ha, fun k b hk hb => hs.apart h k _ b hm hb hk.symm⟩

theorem findContaining (device : Int32) (addr length : Nat) :
    (m.findContainingMemoryRegion p device addr length).isSome ↔ ∃ h r, m.byHandle h = some r ∧
      (r.registrations p).isSome ∧ r.memory.deviceId = device ∧ r.memory.addr ≤ addr ∧
      addr + length ≤ r.memory.addr + r.memory.length := by
  unfold findContainingMemoryRegion
  constructor
  · intro hf
    obtain ⟨r, hr⟩ := Option.isSome_iff_exists.1 hf
    obtain ⟨⟨start, h⟩, hx, hr⟩ := Option.bind_eq_some_iff.1 hr
    have hp := find?_some hx
    obtain ⟨hk, hle⟩ := mem_filter.1 (mem_mergeSort.1 (mem_of_find?_eq_some hx))
    obtain ⟨b, hb, hd, rfl⟩ := (hs.listed _ _ _).1 hk
    cases (memory?_eq hr).symm.trans hb
    simp [registered, hr, lengthOf_eq hb] at hp hle
    exact ⟨h, r, hr, hp.1, hd, hle, by omega⟩
  · rintro ⟨h, r, hr, hp, rfl, hle, hc⟩
    have hb := memory?_eq hr
    generalize hx : find? _ _ = found
    rcases found with _ | ⟨start, k⟩
    · refine absurd ?_ (find?_eq_none.1 hx (r.memory.addr, h) (mem_mergeSort.2 (mem_filter.2
        ⟨(hs.listed _ _ _).2 ⟨_, hb, rfl, rfl⟩, decide_eq_true hle⟩)))
      simp [registered, hr, hp, lengthOf_eq hb]
      omega
    · have hk := find?_some hx
      rcases hb : m.byHandle k with _ | o
      · simp [registered, hb] at hk
      · simp [hb]

theorem remove [DecidableEq π] [Fintype π] (p : π) (h : UInt64) :
    (m.removeMemoryRegion p h).Sound used := by
  unfold removeMemoryRegion
  split
  · exact hs
  rename_i r hr
  have hm := memory?_eq hr
  dsimp only
  split
  · exact hs.change hr ‹_›
  · refine hs.put (by simp) fun device start => ?_
    rcases eq_or_ne device r.memory.deviceId with rfl | hd
    · refine ⟨by simp [hs.listed, hm, eq_comm (a := start)], fun k hk => ?_⟩
      rw [update_self, mem_filter, hs.listed]
      refine and_iff_left_of_imp fun ⟨b, hb, hd, ha⟩ => decide_eq_true fun he => ?_
      exact hk (hs.unique hb hm hd (ha.trans he))
    · simp [hs.listed, hm, hd, hd.symm]

variable {native : List UInt64} (hi : used.InjOn hashMemoryRegion) (hu : a ∈ used)
  (hh : h = hashMemoryRegion a) (hf : m.Fits a)
include hi hu hh hf

theorem lookup : (∃ r, (m.byAddress a.deviceId).lookup a.addr = some h ∧ m.byHandle h = some r ∧
      r.memory = a) ∨ (m.byAddress a.deviceId).lookup a.addr = none ∧ m.byHandle h = none ∧
      ∀ k b, m.memory? k = some b → Apart a b := by
  rcases hl : (m.byAddress a.deviceId).lookup a.addr with _ | k
  · have hne : m.memory? h ≠ some a := fun hk => by
      have := lookup_eq_none_iff.1 hl _ ((hs.listed _ _ _).2 ⟨a, hk, rfl, rfl⟩)
      simp at this
    refine .inr ⟨rfl, Option.eq_none_iff_forall_ne_some.2 fun r hr => hne ?_,
      hf.free.resolve_left (hh ▸ hne)⟩
    obtain ⟨he, hru, -⟩ := hs.region _ _ (memory?_eq hr)
    rw [memory?_eq hr, hi hu hru (hh.symm.trans he)]
  · obtain ⟨l, l', hl, -⟩ := lookup_eq_some_iff.1 hl
    obtain ⟨b, hb, hd, he⟩ := (hs.listed a.deviceId a.addr k).1 (by simp [hl])
    rcases hf.free with hk | hfree
    · rw [← hh] at hk
      obtain rfl := hs.unique hb hk hd he
      obtain ⟨r, hr, hm⟩ := Option.map_eq_some_iff.1 hk
      exact .inl ⟨r, rfl, hr, hm⟩
    · have := hfree k b hb hd.symm
      have := hf.length
      have := (hs.region _ _ hb).2.2
      omega

variable [DecidableEq π]

theorem add :
    (m.addMemoryRegion p a native h).Sound used ∧ (m.addMemoryRegion p a native h).Fits a := by
  rcases hs.lookup hi hu hh hf with ⟨r, hl, hr, rfl⟩ | ⟨hl, hn, hfree⟩
  · simp only [addMemoryRegion, hl, hr, Option.map_some]
    exact ⟨hs.change hr ⟨p, by simp⟩, { hf with free := .inl (by simp [hh]) }⟩
  · have hk : m.memory? h = none := by simp [memory?, hn]
    simp only [addMemoryRegion, hl, hn, Option.getD_none]
    refine ⟨hs.put ?_ fun device start => ?_, { hf with free := .inl (by simp [hh]) }⟩
    · rintro _ ⟨⟩
      exact ⟨⟨p, by simp⟩, hh, hu, hf.length, hf.range, fun k b _ => hfree k b⟩
    · rcases eq_or_ne device a.deviceId with rfl | hd
      · simp +contextual [hs.listed, hk, eq_comm (a := start)]
      · simp [hs.listed, hk, hd, hd.symm]

theorem rollback_add [Fintype π] {accepts : π → Bool} (ha : accepts p = true)
    (hr : ((m.byAddress a.deviceId).lookup a.addr).any (m.registered p) = false) :
    (m.addMemoryRegion p a native h).rollback h accepts p = m := by
  rcases hs.lookup hi hu hh hf with ⟨r, hl, hb, rfl⟩ | ⟨hl, hn, hfree⟩
  · have hp : r.registrations p = none := by simpa [hl, registered, hb] using hr
    have hu : update (update r.registrations p (some native)) p none = r.registrations := by
      rw [update_idem, ← hp, update_eq_self]
    simp [rollback, transportUnregister, ha, addMemoryRegion, hl, hb, registered, removeMemoryRegion,
      hu, hs.held h r hb]
    rw [← hb, update_eq_self]
  · have hc : ∀ x ∈ m.byAddress a.deviceId, !decide (x.1 = a.addr) := fun x hx => by
      simpa [eq_comm (a := x.1)] using lookup_eq_none_iff.1 hl x hx
    simp [rollback, transportUnregister, ha, addMemoryRegion, hl, hn, registered, removeMemoryRegion,
      filter_eq_self.2 hc]
    rw [← hn, update_eq_self]

end Sound
end

namespace Sound
variable {accepts : π → Bool} {answers : π → List (Option UInt64)} {transports done : List π}

theorem rollback (hs : m.Sound used) : (m.rollback h accepts p).Sound used := by
  unfold MemoryRegionManager.rollback transportUnregister
  split_ifs
  · exact hs.remove p h
  all_goals exact hs

theorem rollbacks (hs : m.Sound used) (done : List π) :
    (done.foldl (MemoryRegionManager.rollback h accepts) m).Sound used := by
  induction done generalizing m with
  | nil => exact hs
  | cons p done ih => exact ih hs.rollback

theorem unregister (hs : m.Sound used) : (unregisterMemory h accepts transports m).2.Sound used
    := by
  induction transports generalizing m with
  | nil => exact hs
  | cons p rest ih =>
    unfold unregisterMemory transportUnregister
    split_ifs
    · exact ih (hs.remove p h)
    all_goals exact hs

theorem registers {n : MemoryRegionManager π} {r : Status × MemoryRegionManager π}
    (hs : m.Sound used) (hi : used.InjOn hashMemoryRegion) (hu : a ∈ used)
    (hh : h = hashMemoryRegion a) (hf : m.Fits a)
    (hr : registerWithTransports a h answers accepts done transports m = r) :
    r.2.Sound used ∧ ((∀ p, accepts p) →
      done.foldl (MemoryRegionManager.rollback h accepts) m = n → r.1.failure → r.2 = n) := by
  induction transports generalizing m done with
  | nil =>
    cases hr
    exact ⟨hs, nofun⟩
  | cons p rest ih =>
    unfold registerWithTransports at hr
    split at hr
    · rename_i next hn
      unfold transportRegister at hn
      split at hn
      · cases hn
      split at hn <;> cases hn
      obtain ⟨hsn, hfn⟩ := hs.add hi hu hh hf
      refine (ih hsn hfn hr).imp_right fun hk ha hd => hk ha ?_
      rw [foldl_cons, hs.rollback_add hi hu hh hf (ha p) (by simp_all), hd]
    · cases hr
      exact ⟨hs.rollbacks done, fun _ hd _ => hd⟩

theorem perform (hs : m.Sound used) (hi : used.InjOn hashMemoryRegion) {c : Call π}
    (hc : c.Names used) : (m.perform transports c).Sound used := by
  cases c with
  | register a answers accepts =>
    dsimp only [MemoryRegionManager.perform, registerMemory]
    split
    · exact hs
    · rename_i hv
      exact (hs.registers (n := m) hi hc rfl (hs.fits (by simpa using hv)) rfl).1
  | unregister h accepts => exact hs.unregister

end Sound

/-- `HIXL` is the only protocol of the source. With several, a failed registration is taken back
if the transports of the rollback accept it. -/
theorem memory_regions_sound (transports : List π) {used : Set MemoryRegion}
    (hi : used.InjOn hashMemoryRegion) (calls : List (Call π)) (hc : ∀ c ∈ calls, c.Names used) :
    let m := run (fun m => perform m transports) {} calls
    m.Sound used ∧
    (∀ memory ∈ used, ∀ answers accepts status next,
      transports.length ≤ 1 ∨ (∀ p, accepts p = true) →
      m.registerMemory transports memory answers accepts = (status, next) →
      status.failure → next = m) ∧
    ∀ protocol device address length,
      (m.findContainingMemoryRegion protocol device address length).isSome ↔
        ∃ h region, m.byHandle h = some region ∧ (region.registrations protocol).isSome ∧
          region.memory.deviceId = device ∧ region.memory.addr ≤ address ∧
          address + length ≤ region.memory.addr + region.memory.length := by
  intro m
  have hs : m.Sound used := by
    refine run_invariant (I := fun cs (m : MemoryRegionManager π) => (∀ c ∈ cs, c.Names used) →
      m.Sound used) (fun _ => ?_) (fun cs m c ih hc => ?_) calls hc
    · exact ⟨by simp [memory?], by simp, by simp [memory?], by simp [memory?]⟩
    · exact (ih fun o ho => hc o (by simp [ho])).perform hi (hc c (by simp))
  refine ⟨hs, fun a hu answers accepts status next ho he hf => ?_, fun p => hs.findContaining⟩
  unfold registerMemory at he
  dsimp only at he
  split at he
  · cases he
    rfl
  rename_i hv
  rcases ho with hl | ha
  · match transports with
    | [] => cases he; cases hf
    | [p] =>
      simp only [registerWithTransports] at he
      split at he <;> cases he
      · cases hf
      · rfl
  · exact (hs.registers hi hu rfl (hs.fits (by simpa using hv)) he).2 ha rfl hf

theorem memory_regions_sound_two : let low : MemoryRegion := ⟨4096, 64, 0⟩
    let high : MemoryRegion := ⟨8192, 64, 0⟩
    let m := run (fun m => perform m [()]) {}
      [.register low (fun _ => [some 7]) fun _ => true,
        .register high (fun _ => [some 8]) fun _ => true]
    (m.byHandle (hashMemoryRegion low)).isSome ∧ (m.byHandle (hashMemoryRegion high)).isSome ∧
      m.Sound {low, high} := by
  intro low high m
  refine ⟨by decide +kernel, by decide +kernel, ?_⟩
  have hi : Set.InjOn hashMemoryRegion {low, high} := Set.injOn_pair.2 (by decide +kernel)
  exact (memory_regions_sound [()] hi _ (by simp [Call.Names])).1

end MemoryRegionManager
end UnifiedCache.P2p
