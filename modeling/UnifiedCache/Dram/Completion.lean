import UnifiedCache.Dram.NodeRuns

/-! Each request handed to an actor is pending, active or completed, and never
two of these; no completion is queued for anything else. -/
namespace UnifiedCache.Dram.NodeActor
open List

/-- In every run with pairwise distinct request ids, however stale, doubled or
reordered the events: a request handed in is pending, active or completed, one of
them and once, and nothing else is ever completed. -/
theorem request_accounted_once (config : Config) (dependencies : NodeDependencies)
    (calls : List Call) (distinct : ((handed calls).map Request.requestId).Nodup) :
    (∀ request ∈ handed calls, (after config dependencies calls).pendingKeys.count request.key +
        (after config dependencies calls).activeKeys.count request.key +
        (after config dependencies calls).completedKeys.count request.key = 1) ∧
    (∀ completion ∈ (after config dependencies calls).completions,
      ∃ request ∈ handed calls, completion.key = request.key) ∧
    (after config dependencies calls).completedIds.Nodup := by
  obtain ⟨⟨h, _⟩, hr⟩ := after_sound config dependencies calls distinct
  have hp := h.partition
  rw [hr] at hp
  refine ⟨?_, ?_, ?_⟩
  · intro request hm
    have hn : ((handed calls).reverse.map Request.key).Nodup := by
      refine List.Nodup.of_map Prod.snd ?_
      rw [map_map, ← hr]
      exact h.distinct
    have hc := hp.count_eq request.key
    rw [count_append, count_append] at hc
    rw [hc]
    refine count_eq_one_of_mem hn ?_
    exact mem_map_of_mem (mem_reverse.2 hm)
  · intro completion hm
    have hk : completion.key ∈ (handed calls).reverse.map Request.key := by
      refine hp.subset (mem_append_right _ ?_)
      exact mem_map_of_mem hm
    obtain ⟨request, he, hk⟩ := mem_map.1 hk
    exact ⟨request, mem_reverse.1 he, hk.symm⟩
  · exact (nodup_append.1 h.nodup_ids).2.1

def granting : NodeDependencies where
  submitTransport _ _ := { status := .OK }
  acquireReplySlot _ _ _ _ := .ok { localAddr := 4096, length := 64, slotIndex := 0 }
  queryPrerequisite _ _ := .returned (.ok true)
  walk _ ids := ids
  walk_perm _ _ := .refl _

def twoRequests : List Call :=
  [.request { requestId := 1, deadline := 0 } 5, .request { requestId := 2, deadline := 9 } 5,
    .advance 6]

theorem twoRequests_accounted_once : ((handed twoRequests).map Request.requestId).Nodup ∧
      (after {} granting twoRequests).completedIds.Nodup :=
  ⟨by decide, (request_accounted_once {} granting twoRequests (by decide)).2.2⟩

end UnifiedCache.Dram.NodeActor
