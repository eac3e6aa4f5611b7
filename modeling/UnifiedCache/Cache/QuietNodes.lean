import UnifiedCache.Cache.FinalLoads
import UnifiedCache.Cache.HonestDumps
import UnifiedCache.Cache.Stakes

/-! Memory is quiet when it can be handed to somebody else: where the calm condition holds, a
node that a backend or a stream still works on has a live handle. -/
namespace UnifiedCache.Cache
open List Transition LoadQueue
open Store

/-- Tasks fail only when nothing of theirs is left to begin, and copies only when they leave
nothing behind. -/
def Process.calm (core : Core) (process : Process) : Move → Bool
  | .load move => process.load.calm core move
  | .dump move => process.dump.calm core move
  | .wait handle true => !process.load.unbegun.contains handle
  | _ => true

structure Process.Quiet (shared : Shared) (process : Process) : Prop where
  ordered : process.load.Ordered
  clean : process.load.Clean process.wrapper
  backed : process.load.Backed
  gathered : process.dump.Gathered
  covered : process.dump.Covered shared.nextBackend

theorem Concludes.failureSet {t : List TaskHandle} {w next : TaskWrapper TransTask}
    (h : Concludes t w next) {handle : TaskHandle} (hn : handle ∉ t) :
    next.failureSet handle = w.failureSet handle := by
  have he : ∀ {other : TaskHandle}, other ∈ t → handle ≠ other := by
    rintro other hm rfl
    exact hn hm
  cases h with
  | nothing | done => rfl
  | fail hm | failDone hm => exact failureSet_fail_of_ne (he hm)

namespace Process
variable {cfg : Config} {shared after : Shared} {proc next : Process} {move : Move}

theorem quiet_start (shared : Shared) (h : 0 < shared.nextBackend) : ({} : Process).Quiet shared
    := by
  refine ⟨final_start.ordered, ⟨?_, ?_, ?_⟩, ?_, ⟨?_⟩, ⟨?_, ?_, ?_⟩⟩
  · simp [Dispatcher.tasks]
  · simp
  · simp
  · simp [LoadQueue.Backed]
  · simp
  · simp
  · simp [DumpQueue.unwaited]
  · simpa [DumpQueue.unwaited] using h

theorem Advances.nextBackend_le (h : proc.Advances cfg shared move after next) :
    shared.nextBackend ≤ after.nextBackend := by
  cases h with
  | submit | wait => exact Nat.le_refl _
  | load hl =>
    cases hl with
    | load => exact Nat.le_succ _
    | _ => exact Nat.le_refl _
  | dump hd =>
    cases hd with
    | submit => exact Nat.le_succ _
    | _ => exact Nat.le_refl _

section
variable (h : proc.Quiet shared)
include h

theorem Quiet.submit (ht : proc.Typed) (task : TransTask) (full : Bool) :
    (proc.submit task full).Quiet shared := by
  have hn : proc.nextId ∉ proc.load.unbegun := fun hm => ht.nextId_notMem (tasks_of_unbegun hm)
  have ho := Ordered.submit h.ordered ht task full
  revert ho
  unfold Process.submit
  cases full with
  | true =>
    intro ho
    refine { h with ordered := ho, clean := h.clean.mono ?_ }
    intro handle hm ha
    have he : handle ≠ proc.nextId := by
      rintro rfl
      exact hn hm
    exact (failureSet_fail_of_ne he).symm.trans ha
  | false =>
    cases task.type with
    | LOAD =>
      intro ho
      exact { h with ordered := ho, clean := ⟨h.clean.dispatcher, h.clean.running, h.clean.start⟩ }
    | DUMP =>
      intro ho
      exact ⟨ho, ⟨h.clean.dispatcher, h.clean.running, h.clean.start⟩, h.backed,
        ⟨h.gathered.copies⟩, h.covered.same rfl rfl rfl⟩

theorem Quiet.advances (ht : proc.Typed) (hc : proc.calm cfg.core move = true)
    (hs : proc.Advances cfg shared move after next) : next.Quiet after := by
  have ha := h.covered.mono hs.nextBackend_le
  cases hs with
  | submit t f => exact h.submit ht t f
  | load hl =>
    exact ⟨hl.ordered (early_of_calm hc) h.ordered,
      hl.clean hc h.ordered h.clean, hl.backed hc h.clean h.backed, h.gathered, ha⟩
  | dump hd =>
    refine ⟨h.ordered, h.clean.mono ?_, h.backed, hd.gathered_covered hc h.gathered,
      hd.covered h.covered⟩
    intro handle hm hf
    have hn := ht.disjoint (tasks_of_unbegun hm)
    exact (hd.concludes.failureSet hn).symm.trans hf
  | @wait _ _ _ hw =>
    refine { h with clean := h.clean.mono ?_ }
    intro o hm hf
    obtain hb | ⟨hx, he⟩ := TaskWrapper.failureSet_of_advance hw hf
    · exact hb
    · subst hx he
      simp [calm, hm] at hc

theorem Quiet.load_held {l : TaskHandle × Nat} (hl : l ∈ proc.load.loads) :
    ∃ got ∈ proc.handles, got.node = l.2 := by
  obtain ⟨i, ht, -, hn⟩ := h.backed l hl
  exact ⟨i.handle, handles_of_stakes (mem_append_left _ (stake_of_unwaited ht)), hn⟩

theorem Quiet.gather_held {node : Nat} (hn : node ∈ proc.dump.copies) :
    ∃ got ∈ proc.handles, got.node = node := by
  obtain ⟨d, hd, -, -, hc⟩ := h.gathered.copies (ne_nil_of_mem hn)
  obtain ⟨e, he, hs⟩ := hc node hn
  exact ⟨e.2, handles_of_stakes (mem_append_right _ (DumpQueue.stake_of_ctx hd he)), hs⟩

theorem Quiet.dump_held {d : TaskHandle × List Nat} (hd : d ∈ proc.dump.dumps)
    {node : Nat} (hn : node ∈ d.2) : ∃ got ∈ proc.handles, got.node = node := by
  obtain ⟨ctx, hc, -, ho⟩ := h.covered.dumps d hd
  obtain ⟨e, he, hs⟩ := ho node hn
  exact ⟨e.2, handles_of_stakes (mem_append_right _ (DumpQueue.stake_of_unwaited hc he)), hs⟩

end

theorem Settled.copy_held (h : proc.load.Settled) {c : Nat × TaskHandle}
    (hc : c ∈ proc.load.copies) : ∃ got ∈ proc.handles, got.node = c.1 := by
  obtain ⟨i, ht, hn, -⟩ := h.copies c hc
  refine ⟨i.handle, ?_, hn⟩
  unfold handles LoadQueue.handles LoadQueue.items
  simp only [mem_append, map_append]
  obtain ht | ht := mem_append.1 ht
  · exact .inl (.inr (.inl (mem_map_of_mem ht)))
  · obtain ⟨t, hr, rfl⟩ := mem_map.1 ht
    refine .inl (.inr (.inr (.inl ?_)))
    exact mem_map_of_mem (mem_map_of_mem (mem_filter.1 hr).1)

theorem Quiet.tame (h : proc.Quiet shared) {loading : LoadMove}
    (hc : proc.load.calm cfg.core loading = true) :
    LoadState.Tame cfg ⟨shared, proc.wrapper, proc.load⟩ loading := by
  unfold LoadState.Tame
  split
  · exact .inr h.clean.start
  · simpa [LoadQueue.calm] using hc
  · by_cases ho : cfg.core = .v2
    · exact .inl ho
    right
    intro s hr e he ht
    have hn : proc.load.transfer = some ⟨s, .failing⟩ := hr
    simp only [LoadQueue.calm, hn, Bool.and_eq_true, Bool.or_eq_true, decide_eq_true_eq,
      Bool.not_eq_true', contains_eq_mem, decide_eq_false_iff_not] at hc
    exact hc.2.resolve_left ho (ht ▸ mem_map_of_mem he)
  · trivial

end Process

namespace Host

def calm (configs : Nat → Config) (host : Host) (label : Label) : Bool :=
  match host.processes[label.index]? with
  | some process => process.calm (configs label.index).core label.move
  | none => true

variable {configs : Nat → Config} {host : Host}

theorem quiet_of_reachable (h : Transition.Reachable
      ((system configs).restrict fun host l _ => host.calm configs l = true) host) :
    ∀ proc ∈ host.processes, proc.Quiet host.shared := by
  apply h.invariant (I := fun host => ∀ proc ∈ host.processes, proc.Quiet host.shared)
  · rintro _ ⟨s, count, rfl⟩ proc hm
    rw [eq_of_mem_replicate hm]
    exact Process.quiet_start _ Nat.one_pos
  intro host l next hr hl hs
  obtain ⟨hs, hc⟩ := hs
  have ht := typed_of_reachable hr.of_restrict
  apply each_step (P := fun shared proc => proc.Quiet shared) hs hl
  · intro proc hm u hp ha hq
    apply hq.advances (ht proc hm) _ ha
    simpa [Host.calm, hp] using hc
  · intro proc m u hq ha
    exact { hq with covered := hq.covered.mono ha.nextBackend_le }

theorem final_of_calm (hc : ∀ i, (configs i).core = .cc) (h : Transition.Reachable
      ((system configs).restrict fun host la _ => host.calm configs la = true) host) :
    ∀ proc ∈ host.processes, proc.Final := by
  apply h.invariant (I := fun host => ∀ proc ∈ host.processes, proc.Final)
  · rintro _ ⟨s, count, rfl⟩ proc hm
    rw [eq_of_mem_replicate hm]
    exact Process.final_start
  intro host la next hr ha hs
  obtain ⟨hs, hca⟩ := hs
  have ht := typed_of_reachable hr.of_restrict
  have hq := quiet_of_reachable hr
  apply each_step (P := fun _ proc => proc.Final) hs ha
  · intro proc hm u hp hd hf
    have he : proc.calm (configs la.index).core la.move = true := by
      simpa [Host.calm, hp] using hca
    apply hf.advances (ht proc hm) hd
    intro l hl
    rw [hl] at he
    refine ⟨LoadQueue.early_of_calm he, ?_, (hq proc hm).tame he⟩
    rintro rfl
    simp [Process.calm, LoadQueue.calm, hc] at he
  · intro proc m u hf _
    exact hf

/-- A slot that a backend load or a gather still writes to is pinned by the process that has
started it, so that it cannot be given to another block. -/
theorem slots_quiet (h : Transition.Reachable
      ((system configs).restrict fun host label _ => host.calm configs label = true) host)
    {process : Process} (hmem : process ∈ host.processes) :
    (∀ load ∈ process.load.loads, (∃ got ∈ process.handles, got.node = load.2) ∧
      0 < host.shared.buffer.references load.2) ∧
    ∀ node ∈ process.dump.copies, (∃ got ∈ process.handles, got.node = node) ∧
      0 < host.shared.buffer.references node := by
  have hq := quiet_of_reachable h process hmem
  have hp : ∀ {node : Nat}, (∃ got ∈ process.handles, got.node = node) →
      0 < host.shared.buffer.references node := by
    rintro node ⟨got, hg, rfl⟩
    exact references_pos h.of_restrict hmem hg
  refine ⟨fun load hl => ?_, fun node hn => ?_⟩
  · exact ⟨hq.load_held hl, hp (hq.load_held hl)⟩
  · exact ⟨hq.gather_held hn, hp (hq.gather_held hn)⟩

/-- In `cc`, no backend and no stream works on a node whose reference count is zero, and no
copy of a load is under way once `Wait` has returned for it. -/
theorem nodes_quiet (hcore : ∀ index, (configs index).core = .cc) (h : Transition.Reachable
      ((system configs).restrict fun host label _ => host.calm configs label = true) host)
    {process : Process} (hmem : process ∈ host.processes) :
    (∀ node, host.shared.buffer.references node = 0 → (∀ load ∈ process.load.loads, load.2 ≠ node) ∧
      (∀ dump ∈ process.dump.dumps, node ∉ dump.2) ∧
      (∀ copy ∈ process.load.copies, copy.1 ≠ node) ∧ node ∉ process.dump.copies) ∧
    ∀ handle status, process.wrapper.result? handle = some status →
      ∀ copy ∈ process.load.copies, copy.2 ≠ handle := by
  have hq := quiet_of_reachable h process hmem
  have hf := final_of_calm hcore h process hmem
  have hp : ∀ {node : Nat}, (∃ got ∈ process.handles, got.node = node) →
      host.shared.buffer.references node ≠ 0 := by
    rintro node ⟨got, hg, rfl⟩
    exact Nat.ne_of_gt (references_pos h.of_restrict hmem hg)
  constructor
  · intro node hz
    refine ⟨?_, ?_, ?_, ?_⟩
    · rintro load hl rfl
      exact hp (hq.load_held hl) hz
    · intro dump hd hn
      exact hp (hq.dump_held hd hn) hz
    · rintro copy hc rfl
      exact hp (Process.Settled.copy_held hf.settled hc) hz
    · intro hn
      exact hp (hq.gather_held hn) hz
  · rintro handle status hr copy hc rfl
    rw [hf.result? hc] at hr
    cases hr

structure Traffic where
  loads : List (TaskHandle × Nat)
  copies : List (Nat × TaskHandle)
  gathers : List Nat
  dumps : List (TaskHandle × List Nat)
  references : Nat × Nat
  deriving DecidableEq

def traffic (host : Host) : Option Traffic :=
  host.processes[0]?.map fun process => {
    loads := process.load.loads
    copies := process.load.copies
    gathers := process.dump.copies
    dumps := process.dump.dumps
    references := (host.shared.buffer.references 0, host.shared.buffer.references 1) }

theorem exists_traffic {t : Traffic} (h : host.traffic = some t) : ∃ proc ∈ host.processes,
    proc.load.loads = t.loads ∧ proc.load.copies = t.copies ∧ proc.dump.copies =
    t.gathers ∧ proc.dump.dumps = t.dumps ∧ host.shared.buffer.references 0 = t.references.1 ∧
    host.shared.buffer.references 1 = t.references.2 := by
  obtain ⟨proc, hn, rfl⟩ := Option.map_eq_some_iff.1 h
  exact ⟨proc, mem_of_getElem? hn, rfl, rfl, rfl, rfl, rfl, rfl⟩

def busyRun : List Label :=
  [⟨0, .submit { type := .LOAD, desc := [shard 0] } false⟩,
    ⟨0, .submit { type := .DUMP, desc := [shard 1] } false⟩] ++
  loading 0 [.take, .get 0, .load true, .push, .rest, .pop] ++
  dumping 0 [.take, .event true, .get 1, .copy true true]

theorem slots_quiet_busy : ∃ host, Transition.Reachable ((system fun _ => { core := .v2 }).restrict
      fun host label _ => host.calm (fun _ => { core := .v2 }) label = true) host ∧
    ∃ process ∈ host.processes, process.load.loads = [(1, 0)] ∧ process.dump.copies = [1] ∧
      (∀ load ∈ process.load.loads, (∃ got ∈ process.handles, got.node = load.2) ∧
        0 < host.shared.buffer.references load.2) ∧
      ∀ node ∈ process.dump.copies, (∃ got ∈ process.handles, got.node = node) ∧
        0 < host.shared.buffer.references node := by
  have hu : (replay (step fun _ => { core := .v2 }) (calm fun _ => { core := .v2 })
      (start 2 1) busyRun).bind traffic = some ⟨[(1, 0)], [], [1], [], (1, 1)⟩ := by decide +kernel
  obtain ⟨host, hr, ht⟩ := exists_of_replay hu
  obtain ⟨process, hm, hl, -, hg, -⟩ := exists_traffic ht
  exact ⟨host, hr, process, hm, hl, hg, slots_quiet hr hm⟩

/-- The first of two shards fails in the backend, and the second is thrown away while the
backend still fills its slot. -/
def discardedRun : List Label :=
  [twoShards] ++ loading 0 [.take, .get 0, .load true, .push, .get 1, .load true, .push,
    .pop, .check, .wait false, .report, .finish, .discard, .pop, .check, .report, .finish, .discard]

def gatherRun : List Label :=
  [⟨0, .submit { type := .DUMP, desc := [shard 0, shard 1] } false⟩] ++
  dumping 0 [.take, .event true, .get 0, .copy true true, .get 1, .copy false false,
    .condemn, .condemn, .condemn, .drop, .drop]

/-- A slot has no reference, although a backend load fills it or a gather writes to it. -/
theorem slots_written :
    (∃ host, Transition.Reachable (system fun _ => { core := .v2, nShardPerBlock := 2 }) host ∧
      ∃ process ∈ host.processes, process.load.loads = [(2, 1)] ∧
        host.shared.buffer.references 1 = 0) ∧
    ∃ host, Transition.Reachable (system fun _ => { core := .v2, nShardPerBlock := 2 }) host ∧
      ∃ process ∈ host.processes, process.dump.copies = [0] ∧
        host.shared.buffer.references 0 = 0 := by
  have hd : (replay (step fun _ => { core := .v2, nShardPerBlock := 2 })
      (fun _ _ => true) (start 2 1) discardedRun).bind traffic =
        some ⟨[(2, 1)], [], [], [], (0, 0)⟩ := by decide +kernel
  have hg : (replay (step fun _ => { core := .v2, nShardPerBlock := 2 })
      (fun _ _ => true) (start 2 1) gatherRun).bind traffic =
        some ⟨[], [], [0], [], (0, 0)⟩ := by decide +kernel
  obtain ⟨first, hf, hl⟩ := exists_of_replay_free hd
  obtain ⟨second, hs, ha⟩ := exists_of_replay_free hg
  obtain ⟨process, hm, ho, -, -, -, -, hz⟩ := exists_traffic hl
  obtain ⟨other, ht, -, -, hc, -, hn, -⟩ := exists_traffic ha
  exact ⟨⟨first, hf, process, hm, ho, hz⟩, ⟨second, hs, other, ht, hc, hn⟩⟩

theorem nodes_quiet_busy : ∃ host, Transition.Reachable ((system fun _ => { core := .cc }).restrict
      fun host label _ => host.calm (fun _ => { core := .cc }) label = true) host ∧
    ∃ process ∈ host.processes, process.load.loads = [(1, 0)] ∧ process.dump.copies = [1] ∧
      (∀ node, host.shared.buffer.references node = 0 →
        (∀ load ∈ process.load.loads, load.2 ≠ node) ∧
        (∀ dump ∈ process.dump.dumps, node ∉ dump.2) ∧
        (∀ copy ∈ process.load.copies, copy.1 ≠ node) ∧ node ∉ process.dump.copies) ∧
      ∀ handle status, process.wrapper.result? handle = some status →
        ∀ copy ∈ process.load.copies, copy.2 ≠ handle := by
  have hu : (replay (step fun _ => { core := .cc }) (calm fun _ => { core := .cc })
      (start 2 1) busyRun).bind traffic = some ⟨[(1, 0)], [], [1], [], (1, 1)⟩ := by decide +kernel
  obtain ⟨host, hr, ht⟩ := exists_of_replay hu
  obtain ⟨process, hm, hl, -, hg, -⟩ := exists_traffic ht
  exact ⟨host, hr, process, hm, hl, hg, nodes_quiet (fun _ => rfl) hr hm⟩

def skippedLoadRun : List Label :=
  [twoShards] ++ loading 0 [.take, .get 0, .load true, .push, .get 1, .load true, .push,
    .pop, .check, .wait false, .report, .finish, .discard, .pop, .check, .clear, .finish, .discard]

/-- The first of two shards is being copied when the second fails, and the waiter is told
without waiting for the stream. -/
def heldRun : List Label :=
  [twoShards] ++ loading 0 [.take, .get 0, .load true, .push, .get 1, .load true, .push,
    .pop, .check, .wait true, .event true, .copy true true, .pop, .check, .wait false, .report,
    .finish] ++ waiting 0 1

/-- A node has no reference while the backend fills it, and a copy is under way after `Wait`
has returned. -/
theorem nodes_busy :
    (∃ host, Transition.Reachable (system fun _ => { core := .cc, nShardPerBlock := 2 }) host ∧
      ∃ process ∈ host.processes, process.load.loads = [(2, 1)] ∧
        host.shared.buffer.references 1 = 0) ∧
    ∃ host, Transition.Reachable (system fun _ => { core := .cc, nShardPerBlock := 2 }) host ∧
      ∃ process ∈ host.processes, process.wrapper.result? 1 = some (.Error "") ∧
        process.load.copies = [(0, 1)] := by
  have hs : (replay (step fun _ => { core := .cc, nShardPerBlock := 2 })
      (fun _ _ => true) (start 2 1) skippedLoadRun).bind traffic =
        some ⟨[(2, 1)], [], [], [], (0, 0)⟩ := by decide +kernel
  have hh : (replay (step fun _ => { core := .cc, nShardPerBlock := 2 })
      (fun _ _ => true) (start 2 1) heldRun).bind loadOutcome =
        some (some (.Error ""), [(0, 1)]) := by decide +kernel
  obtain ⟨first, hf, hl⟩ := exists_of_replay_free hs
  obtain ⟨second, he, ho⟩ := exists_of_replay_free hh
  obtain ⟨process, hm, hlo, -, -, -, -, hz⟩ := exists_traffic hl
  obtain ⟨other, ht, hp⟩ := Option.map_eq_some_iff.1 ho
  obtain ⟨hr, hc⟩ := Prod.mk.inj hp
  exact ⟨⟨first, hf, process, hm, hlo, hz⟩, ⟨second, he, other, mem_of_getElem? ht, hr, hc⟩⟩

end Host
end UnifiedCache.Cache
