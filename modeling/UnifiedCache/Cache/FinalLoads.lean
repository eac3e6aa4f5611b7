import UnifiedCache.Cache.Flight

/-! The end of a load in the `v2` core: once `Wait` has returned, nothing is copied to the
task's addresses any more, provided that the backend refuses loads only for the first shard
of a task. -/
namespace UnifiedCache.Cache
open Store

/-- The backend refuses no load in the middle of a task, and no queued shard is discarded by
`Close`. -/
def Process.early (process : Process) : Move → Bool
  | .load .drainRunning => false
  | .load move => process.load.early move
  | _ => true

namespace Host

def early (host : Host) (label : Label) : Bool :=
  match host.processes[label.index]? with
  | some process => process.early label.move
  | none => true

variable {configs : Nat → Config} {host : Host}

theorem final_of_reachable (hc : ∀ i, (configs i).core = .v2) (h : Transition.Reachable
      ((system configs).restrict fun host la _ => host.early la = true) host) :
    ∀ p ∈ host.processes, p.Final := by
  apply h.invariant (I := fun host => ∀ p ∈ host.processes, p.Final)
  · rintro _ ⟨s, count, rfl⟩ p hm
    rw [List.eq_of_mem_replicate hm]
    exact Process.final_start
  intro host la n hr ha hs
  obtain ⟨hs, hea⟩ := hs
  have ht := typed_of_reachable hr.of_restrict
  apply each_step (P := fun _ p => p.Final) hs ha
  · intro p hm u hp hd hf
    have he : p.early la.move = true := by
      simpa [Host.early, hp] using hea
    apply hf.advances (ht p hm) hd
    intro l hl
    rw [hl] at he
    refine ⟨?_, ?_, ?_⟩
    · cases l <;> first | rfl | exact he
    · rintro rfl
      cases he
    unfold LoadState.Tame
    split
    · exact .inl (hc _)
    · exact hc _
    · exact .inl (hc _)
    · trivial
  · intro p m u hf _
    exact hf

/-- If `Wait` has returned for a load, no shard of it is in the pipeline and no copy of it is
under way. -/
theorem loads_final (hcore : ∀ index, (configs index).core = .v2) (h : Transition.Reachable
      ((system configs).restrict fun host label _ => host.early label = true) host)
    {process : Process} (hmem : process ∈ host.processes) {handle : TaskHandle} {status : Status}
    (hreturned : process.wrapper.result? handle = some status) :
    handle ∉ process.load.underWay ∧ ∀ copy ∈ process.load.copies, copy.2 ≠ handle := by
  have hf := final_of_reachable hcore h process hmem
  constructor
  · intro hn
    rw [hf.latched.result? hn] at hreturned
    cases hreturned
  · rintro copy hc rfl
    rw [hf.result? hc] at hreturned
    cases hreturned

def loadOutcome (host : Host) : Option (Option Status × List (Nat × TaskHandle)) :=
  host.processes[0]?.map fun process => (process.wrapper.result? 1, process.load.copies)

def twoShards : Label := ⟨0, .submit { type := .LOAD, desc := [⟨Vector.replicate 16 0, 0⟩,
  ⟨Vector.replicate 16 0, 1⟩] } false⟩

def finishedRun : List Label :=
  [twoShards] ++ loading 0 [.take, .get 0, .load true, .push, .get 1, .load true, .push,
    .pop, .check, .wait true, .event true, .copy true true, .pop, .check, .wait true, .event true,
    .copy true true, .sync true, .clear, .clear, .finish] ++ waiting 0 1

theorem loads_final_two : ∃ host, Transition.Reachable
    ((system fun _ => { core := .v2, nShardPerBlock := 2 }).restrict
      fun host label _ => host.early label = true) host ∧
    ∃ process ∈ host.processes, process.wrapper.result? 1 = some .OK ∧
      1 ∉ process.load.underWay ∧ ∀ copy ∈ process.load.copies, copy.2 ≠ 1 := by
  have hu : (Transition.replay (step fun _ => { core := .v2, nShardPerBlock := 2 }) early
      (start 2 1) finishedRun).bind loadOutcome = some (some .OK, []) := by decide +kernel
  obtain ⟨host, hr, ho⟩ := exists_of_replay hu
  obtain ⟨process, hn, hp⟩ := Option.map_eq_some_iff.1 ho
  have hm := List.mem_of_getElem? hn
  have he := (Prod.mk.inj hp).1
  exact ⟨host, hr, process, hm, he, loads_final (fun _ => rfl) hr hm he⟩

/-- The backend refuses the second shard of a task, `Wait` reports the failure and takes the
task out of the failure set, and the first shard is copied afterwards. -/
def refusedRun : List Label :=
  [twoShards] ++ loading 0 [.take, .get 0, .load true, .push, .get 1, .load false, .fail] ++
  waiting 0 1 ++ loading 0 [.pop, .check, .wait true, .event true, .copy true true]

theorem load_unfinished :
    ∃ host, Transition.Reachable (system fun _ => { core := .v2, nShardPerBlock := 2 }) host ∧
    ∃ process ∈ host.processes, process.wrapper.result? 1 = some (.Error "") ∧
      process.load.copies = [(0, 1)] := by
  have hu : (Transition.replay (step fun _ => { core := .v2, nShardPerBlock := 2 })
      (fun _ _ => true) (start 2 1) refusedRun).bind loadOutcome =
        some (some (.Error ""), [(0, 1)]) := by decide +kernel
  obtain ⟨host, hr, ho⟩ := exists_of_replay_free hu
  obtain ⟨process, hn, hp⟩ := Option.map_eq_some_iff.1 ho
  obtain ⟨he, hc⟩ := Prod.mk.inj hp
  exact ⟨host, hr, process, List.mem_of_getElem? hn, he, hc⟩

end Host
end UnifiedCache.Cache
