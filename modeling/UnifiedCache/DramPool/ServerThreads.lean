import UnifiedCache.DramPool.ServerBooks

/-! The threads of a server as operations on its metadata: what holds of any
operations in progress holds of the worker's, the poller's and the GC thread's. -/
namespace UnifiedCache.DramPool
open List MetadataManager
open Dram

namespace Threads
variable {cfg : MetadataConfig} {m left : MetadataManager} {calls rest : List Call}

theorem Accounted.perm (h : Accounted cfg ⟨m, calls⟩) (hp : calls.Perm rest) :
    Accounted cfg ⟨m, rest⟩ :=
  (MetadataManager.Owned.perm h (hp.flatMap_right _)).forget fun _ =>
    ((hp.flatMap_right Call.todo).mem_iff).2

theorem Accounted.advance {call : Call} {now : TimePoint} {pick : Nat} {outcome : Outcome}
    (h : Accounted cfg ⟨m, call :: rest⟩) (ha : call.advance cfg now pick m = (left, outcome)) :
    Accounted cfg ⟨left, outcome.calls ++ rest⟩ := by
  unfold Accounted at h ⊢
  rw [flatMap_append, flatMap_append]
  exact MetadataManager.Owned.advance h ha

end Threads

namespace Worker
variable {cfg : ServerConfig} {others C : List Call} {shared after : Shared}
  {worker next : Worker}

theorem Step.accounted (hs : Step cfg others shared worker after next)
    (h : Threads.Accounted cfg.metadata ⟨shared.manager, worker.calls ++ C⟩) :
    Threads.Accounted cfg.metadata ⟨after.manager, next.calls ++ C⟩ := by
  cases hs with
  | pop now =>
    rw [(start_empty cfg now shared.clock _).1]
    exact h
  | stopRead => split <;> exact h
  | storeBegin _ hn =>
    cases hn
    exact MetadataManager.Owned.newEntry h
  | storeAdvance _ _ _ ha | storeReturn _ _ _ ha | deleteAdvance _ _ _ ha
  | deleteReturn _ _ _ ha => exact h.advance ha
  | dumpEnd =>
    unfold finishDump
    split <;> exact h
  | loadBegin _ hl | loadRefused _ hl =>
    exact MetadataManager.Owned.visit h (fun _ _ => Entry.used_of_tryIncRef) hl
  | loadTooLong =>
    exact MetadataManager.Owned.visit h (fun _ _ => Entry.used_of_tryDecRef) rfl
  | loadEnd =>
    unfold finishLoad
    split <;> exact h
  | exist _ _ he =>
    split <;> exact MetadataManager.Owned.visit h (fun _ _ => Entry.used_of_tryMarkHit) he
  | delete hd => exact MetadataManager.Owned.tryDelete h hd
  | deleteRefused hd =>
    rw [visit_error hd]
    exact h
  | release => exact MetadataManager.Owned.visit h (fun _ _ => Entry.used_of_tryDecRef) rfl
  | _ => exact h

end Worker

namespace Poller
variable {cfg : ServerConfig} {others C : List Call} {shared after : Shared}
  {poller next : Poller}

theorem Step.accounted (hs : Step cfg others shared poller after next)
    (h : Threads.Accounted cfg.metadata ⟨shared.manager, poller.calls ++ C⟩) :
    Threads.Accounted cfg.metadata ⟨after.manager, next.calls ++ C⟩ := by
  cases hs with
  | stopRead =>
    split
    · split <;> exact h
    · exact h
  | storeEnd _ ht | storeEndRefused _ ht =>
    exact MetadataManager.Owned.visit h (fun _ _ => Entry.used_of_tryMarkReady) ht
  | delete hd => exact MetadataManager.Owned.tryDelete h hd
  | deleteRefused hd =>
    rw [visit_error hd]
    exact h
  | deleteAdvance _ _ _ ha | deleteReturn _ _ _ ha => exact h.advance ha
  | loadEnd _ hl =>
    exact MetadataManager.Owned.visit h (fun _ _ => Entry.used_of_tryDecRef) hl
  | _ => exact h

end Poller

namespace Server
variable {cfg : ServerConfig} {setup : Setup} {s t : Server}

theorem Move.accounted (hm : Move cfg s t) (h : Threads.Accounted cfg.metadata ⟨s.shared.manager,
    s.calls⟩) : Threads.Accounted cfg.metadata ⟨t.shared.manager, t.calls⟩ := by
  cases hm with
  | worker hs =>
    rw [calls, append_assoc] at h ⊢
    exact hs.accounted h
  | poller hs =>
    exact (hs.accounted (h.perm (calls_perm _ s))).perm (calls_perm _ s).symm
  | gcStart now hg =>
    have hc : s.calls.Perm (s.worker.calls ++ s.poller.calls) := by
      simp [calls, hg]
    have ht : Threads.Accounted cfg.metadata ⟨s.shared.manager,
        .evict (Eviction.start cfg.metadata 0 false now s.shared.manager)
          (List.range' 1 (kShardCnt - 1)) :: s.calls⟩ := MetadataManager.Owned.start h
    exact ht.perm ((hc.cons _).trans (perm_append_singleton _ _).symm)
  | gcAdvance now hg hu hp ha =>
    rename_i c p ma o
    have hn := (h.perm (calls_of_gc hg)).advance ha
    change Threads.Accounted cfg.metadata
      ⟨ma, s.worker.calls ++ s.poller.calls ++ o.calls.head?.toList⟩
    rw [head?_calls]
    exact hn.perm perm_append_comm
  | _ => exact h

section
variable (h : Transition.Reachable (system cfg setup) s)
include h

theorem reachable_accounted : Threads.Accounted cfg.metadata ⟨s.shared.manager, s.calls⟩ := by
  apply h.invariant (I := fun s => Threads.Accounted cfg.metadata ⟨s.shared.manager, s.calls⟩)
  · rintro s ⟨b, flagBufferPool, _, _, hb, -, rfl⟩
    exact MetadataManager.Owned.create (BufferManager.Covers.create hb)
  · rintro s _ _ - hs ⟨u, hm, rfl⟩
    exact hm.accounted hs

theorem reachable_formed : s.Formed := by
  apply h.invariant (I := Formed)
  · exact fun s hs => hs.formed
  · rintro s _ _ - hs ⟨u, hm, rfl⟩
    have hu := hm.formed hs
    exact { hu with }

end
end Server
end UnifiedCache.DramPool
