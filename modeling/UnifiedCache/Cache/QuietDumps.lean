import UnifiedCache.Cache.Handles

/-! The memory that a dump queue works on: a copy that the stream was not waited for writes
to a node that the dump holds, and a backend dump that was not waited for reads nodes whose
handles are queued. This rests on a copy failing only when the stream has nothing to do. -/
namespace UnifiedCache.Cache
open Store List DumpQueue

def DumpQueue.calm (core : Core) (queue : DumpQueue) : DumpMove → Bool
  | .copy false issued => queue.copies.isEmpty && (core = .v2 || !issued)
  | _ => true

def DumpPhase.gathers : DumpPhase → Bool
  | .looking => true
  | .holding _ _ => true
  | .syncing => true
  | _ => false

def DumpQueue.unwaited (queue : DumpQueue) : List DumpCtx :=
  (queue.stage.toList.filter fun stage => stage.2).map Prod.fst ++ queue.dumping

structure DumpQueue.Gathered (queue : DumpQueue) : Prop where
  copies : queue.copies ≠ [] → ∃ dumper, queue.dumper = some dumper ∧
    dumper.phase.gathers = true ∧ 0 < dumper.copiedShards ∧
    ∀ node ∈ queue.copies, ∃ entry ∈ dumper.ctx, entry.2.node = node

structure DumpQueue.Covered (nextBackend : TaskHandle) (queue : DumpQueue) : Prop where
  dumps : ∀ dump ∈ queue.dumps, ∃ ctx ∈ queue.unwaited, ctx.backend = dump.1 ∧
    ∀ node ∈ dump.2, ∃ entry ∈ ctx.handles, entry.2.node = node
  sorted : (queue.finishedBackendTaskHandle :: queue.unwaited.map DumpCtx.backend).Pairwise
    fun earlier later => earlier < later
  bound : ∀ backend ∈ queue.finishedBackendTaskHandle :: queue.unwaited.map DumpCtx.backend,
    backend < nextBackend

variable {queue : DumpQueue}

theorem DumpQueue.Covered.mono {before after : TaskHandle} (h : queue.Covered before)
    (hl : before ≤ after) : queue.Covered after :=
  ⟨h.dumps, h.sorted, fun b hm => Nat.lt_of_lt_of_le (h.bound b hm) hl⟩

theorem DumpQueue.Covered.same {next : DumpQueue} {nextBackend : TaskHandle}
    (h : queue.Covered nextBackend) (hd : next.dumps = queue.dumps)
    (hu : next.unwaited = queue.unwaited)
    (hf : next.finishedBackendTaskHandle = queue.finishedBackendTaskHandle) :
    next.Covered nextBackend := by
  refine ⟨?_, ?_, ?_⟩
  · rw [hd, hu]
    exact h.dumps
  · rw [hf, hu]
    exact h.sorted
  · rw [hf, hu]
    exact h.bound

section
variable {cfg : Config} {state next : DumpState} {move : DumpMove}

theorem DumpStep.gathered_covered (h : DumpStep cfg state move next)
    (hca : state.queue.calm cfg.core move = true) (hg : state.queue.Gathered) :
    next.queue.Gathered := by
  -- a task that is not at its copies has none
  have hno : ∀ {dumper : Dumper}, state.queue.dumper = some dumper →
      dumper.phase.gathers = false → state.queue.copies = [] := by
    intro dumper hd hp
    by_contra hs
    obtain ⟨o, ht, ha, -⟩ := hg.copies hs
    rw [hd] at ht
    cases ht
    rw [hp] at ha
    cases ha
  have hid : state.queue.dumper = none → state.queue.copies = [] := by
    intro hd
    by_contra hs
    obtain ⟨o, ht, -⟩ := hg.copies hs
    rw [hd] at ht
    cases ht
  cases h with
  | take hd _ _ _ => exact ⟨fun hs => absurd (hid hd) hs⟩
  | event _ hd | mark hd | marked hd | submit hd | refuse hd
  | condemn hd | condemned hd | drop hd | dropped hd
  | finish hd => exact ⟨fun hs => absurd (hno hd rfl) hs⟩
  | get hd | skip hd | gathered hd =>
    refine ⟨fun hs => ?_⟩
    obtain ⟨dumper, hf, -, ho, hc⟩ := hg.copies hs
    rw [hd] at hf
    cases hf
    exact ⟨_, rfl, rfl, ho, hc⟩
  | keep hd =>
    refine ⟨fun hs => ?_⟩
    obtain ⟨dumper, hf, -, ho, hc⟩ := hg.copies hs
    rw [hd] at hf
    cases hf
    refine ⟨_, rfl, rfl, ho, fun n hn => ?_⟩
    obtain ⟨e, he, hsa⟩ := hc n hn
    exact ⟨e, List.mem_append_left _ he, hsa⟩
  | @copy _ _ _ _ key got _ hd =>
    refine ⟨fun _ => ⟨_, rfl, rfl, Nat.succ_pos _, fun n hn => ?_⟩⟩
    obtain hn | hn := List.mem_append.1 hn
    · obtain ⟨dumper, hf, -, -, hc⟩ := hg.copies (List.ne_nil_of_mem hn)
      rw [hd] at hf
      cases hf
      obtain ⟨e, he, hsa⟩ := hc n hn
      exact ⟨e, List.mem_append_left _ he, hsa⟩
    · rw [List.mem_singleton] at hn
      exact ⟨(key, got), List.mem_append_right _ (List.mem_singleton_self _), hn.symm⟩
  | copyFailed =>
    simp only [DumpQueue.calm, Bool.and_eq_true, List.isEmpty_iff] at hca
    exact ⟨fun hs => absurd hca.1 hs⟩
  | copyBroken _ _ _ hco =>
    simp [DumpQueue.calm, hco] at hca
  | nothing hd =>
    refine ⟨fun hs => ?_⟩
    obtain ⟨dumper, hf, -, _, hc⟩ := hg.copies hs
    rw [hd] at hf
    cases hf
    obtain ⟨n, hn⟩ := List.exists_mem_of_ne_nil _ hs
    obtain ⟨e, he, -⟩ := hc n hn
    cases he
  | unsynced hd =>
    refine ⟨fun hs => ?_⟩
    obtain ⟨dumper, hf, -, ho, -⟩ := hg.copies hs
    rw [hd] at hf
    cases hf
    dsimp only at ho
    omega
  | sync ok _ => exact ⟨fun hs => absurd rfl hs⟩
  | _ => exact ⟨hg.copies⟩

theorem DumpStep.covered (h : DumpStep cfg state move next)
    (hc : state.queue.Covered state.shared.nextBackend) :
    next.queue.Covered next.shared.nextBackend := by
  cases h with
  | @submit handle rest ctx copied =>
    have hu : ({ state.queue with
        dumps := state.queue.dumps ++
          [(state.shared.nextBackend, (cfg.backendDesc ctx).map (·.2.node))]
        dumping := state.queue.dumping ++ [⟨state.shared.nextBackend, ctx⟩]
        dumper := some ⟨handle, rest, [], copied, .finishing false⟩ } : DumpQueue).unwaited =
          state.queue.unwaited ++ [⟨state.shared.nextBackend, ctx⟩] := by
      simp [unwaited]
    refine ⟨?_, ?_, ?_⟩
    · rw [hu]
      intro d hd
      obtain hd | hd := mem_append.1 hd
      · obtain ⟨f, hf, hsa⟩ := hc.dumps d hd
        exact ⟨f, mem_append_left _ hf, hsa⟩
      rw [mem_singleton] at hd
      subst hd
      refine ⟨_, mem_append_right _ (mem_singleton_self _), rfl, ?_⟩
      intro n hn
      obtain ⟨e, he, rfl⟩ := mem_map.1 hn
      exact ⟨e, (mem_filter.1 he).1, rfl⟩
    · rw [hu, map_append, ← cons_append, pairwise_append]
      refine ⟨hc.sorted, pairwise_singleton _ _, ?_⟩
      intro ea hea l hl
      rw [map_cons, map_nil, mem_singleton] at hl
      rw [hl]
      exact hc.bound ea hea
    rw [hu, map_append, ← cons_append]
    intro b hm
    obtain hm | hm := mem_append.1 hm
    · exact Nat.lt_succ_of_lt (hc.bound b hm)
    · rw [map_cons, map_nil, mem_singleton] at hm
      rw [hm]
      exact Nat.lt_succ_self _
  | pop hs hdu =>
    refine hc.same rfl ?_ rfl
    simp [unwaited, hs, hdu]
  | @wait ctx hs =>
    have hu : state.queue.unwaited = ctx :: state.queue.dumping := by
      simp [unwaited, hs]
    have hr := hc.sorted
    have hb := hc.bound
    rw [hu, map_cons] at hr hb
    refine ⟨?_, ?_, ?_⟩
    · intro d hd
      obtain ⟨hd, ho⟩ := mem_filter.1 hd
      obtain ⟨f, hf, ha, hno⟩ := hc.dumps d hd
      rw [hu] at hf
      refine ⟨f, ?_, ha, hno⟩
      obtain rfl | hf := mem_cons.1 hf
      · simp [ha] at ho
      · simpa [unwaited] using hf
    · simpa [unwaited] using hr.tail
    intro b hm
    apply hb b
    apply mem_cons_of_mem
    simpa [unwaited] using hm
  | @waitless ctx hs _ hle =>
    have hu : state.queue.unwaited = ctx :: state.queue.dumping := by
      simp [unwaited, hs]
    have hr := hc.sorted
    rw [hu, map_cons, pairwise_cons] at hr
    exact absurd (hr.1 ctx.backend mem_cons_self) (Nat.not_lt.2 hle)
  | release hs | released hs => exact hc.same rfl (by simp [unwaited, hs]) rfl
  | _ => exact hc.same rfl rfl rfl

end
end UnifiedCache.Cache
