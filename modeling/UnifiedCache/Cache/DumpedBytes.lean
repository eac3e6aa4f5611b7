import UnifiedCache.Cache.NodeContents

/-! The bytes of a dump in the `cc` core. The memory of the nodes is watched beside the host:
whoever has a backend load or a copy under way may write to its node at any time, and what is
there when the backend accepts a dump is recorded. -/
namespace UnifiedCache.Cache
open List Store Transition Function

def Process.deposits (process : Process) : Move → List (Nat × Key)
  | .load move => process.load.deposits move
  | .dump move => process.dump.deposits move
  | _ => []

def Process.hands (config : Config) (process : Process) : Move → List (Key × Handle)
  | .dump (.submit true) =>
    process.dump.dumper.toList.flatMap fun dumper => config.backendDesc dumper.ctx
  | _ => []

/-- Whether a backend load or a copy of the process may still write to a node. -/
def Process.writes (node : Nat) (process : Process) : Bool :=
  process.load.loads.any (fun load => load.2 = node) || process.dump.copies.contains node

structure Watched where
  host : Host
  memory : Memory := fun _ => none
  /-- The shards that the backend has accepted, each with the bytes its node had. -/
  dumped : List (Key × Option Key) := []

inductive Watched.Label where
  | step (label : Cache.Label)
  | write (node : Nat) (bytes : Option Key)

namespace Watched

def step (configs : Nat → Config) (watched : Watched) : Label → Option Watched
  | .step label =>
    match watched.host.processes[label.index]? with
    | none => none
    | some process =>
      (watched.host.step configs label).map fun host => {
        host
        memory := watched.memory.deposit (process.deposits label.move)
        dumped := watched.dumped ++ (process.hands (configs label.index) label.move).map
          fun entry => (entry.1, watched.memory entry.2.node) }
  | .write node bytes =>
    if watched.host.processes.any (Process.writes node) then
      some { watched with memory := update watched.memory node bytes }
    else none

def system (configs : Nat → Config) : System Watched Label where
  init watched := ∃ size count, watched = { host := Host.start size count }
  step watched label next := watched.step configs label = some next

/-- The condition on the steps; the writes are free. -/
def regular (configs : Nat → Config) (watched : Watched) : Label → Bool
  | .step label => watched.host.alone label && watched.host.calm configs label
  | .write _ _ => true

end Watched

section
variable {cfg : Config} {shared after : Shared} {proc next : Process} {move : Move}
  {memory : Memory}

@[simp] theorem Process.stakes_submit (task : TransTask) (full : Bool) (proc : Process) :
    (proc.submit task full).stakes = proc.stakes := by
  unfold submit
  cases full with
  | true => rfl
  | false => cases task.type <;> rfl

theorem Firm.mono {before after : Buffer} {memory written : Memory} {handles all : List Handle}
    {stakes more : List Stake} (h : Firm before after memory written handles stakes)
    (ha : handles ⊆ all) (hm : ∀ stake ∈ more, stake.Holds after written) :
    Firm before after memory written all more :=
  ⟨h.key, fun node hp hn => h.rest node hp fun got hg => hn got (ha hg), h.ready, hm⟩

/-- What a process knows in `cc` before it takes a step. -/
structure Process.Steady (shared : Shared) (memory : Memory) (proc : Process) : Prop where
  gathered : proc.dump.Gathered
  dumper : ∀ dumper, proc.dump.dumper = some dumper → dumper.Steady
  sole : Sole proc.handles
  pinned : ∀ got ∈ proc.handles, 0 < shared.buffer.references got.node
  stakes : ∀ stake ∈ proc.stakes, stake.Holds shared.buffer memory

theorem Process.Advances.firm (hc : cfg.core = .cc) (h : proc.Advances cfg shared move after next)
    (hs : proc.Steady shared memory) (hf : shared.buffer.Filled memory) :
    Firm shared.buffer after.buffer memory (memory.deposit (proc.deposits move)) proc.handles
      next.stakes := by
  have hlo : proc.load.handles ⊆ proc.handles := subset_append_left _ _
  have hdu : proc.dump.handles ⊆ proc.handles := subset_append_right _ _
  have hls : ∀ stake ∈ proc.load.stakes, stake.handle ∈ proc.load.handles :=
    fun stake hn => proc.load.stakes_sublist.subset (mem_map_of_mem hn)
  have hds : ∀ stake ∈ proc.dump.stakes, stake.handle ∈ proc.dump.handles :=
    fun stake hn => proc.dump.stakes_subperm.subset (mem_map_of_mem hn)
  cases h with
  | submit task full =>
    rw [stakes_submit]
    exact .still (.refl _) hs.stakes
  | wait => exact .still (.refl _) hs.stakes
  | load ho =>
    have hfi := ho.firm hc (hs.sole.sublist (sublist_append_left _ _))
      (fun got hg => hs.pinned got (hlo hg)) fun stake hn => hs.stakes stake (mem_append_left _ hn)
    refine hfi.mono hlo fun stake hn => ?_
    obtain hn | hn := mem_append.1 hn
    · exact hfi.stakes stake hn
    · refine hfi.holds (hs.stakes stake (mem_append_right _ hn)) (hs.pinned _ (hdu (hds stake hn))) ?_
      exact fun hso got hg hgo => hs.sole.apart hg (hds stake hn) hgo hso
  | dump hm =>
    have hfi := hm.firm hc (hs.sole.sublist (sublist_append_right _ _)) hs.gathered hs.dumper hf
      (fun got hg => hs.pinned got (hdu hg)) fun stake hn => hs.stakes stake (mem_append_right _ hn)
    refine hfi.mono hdu fun stake hn => ?_
    obtain hn | hn := mem_append.1 hn
    · refine hfi.holds (hs.stakes stake (mem_append_left _ hn)) (hs.pinned _ (hlo (hls stake hn))) ?_
      exact fun hso got hg hgo => (hs.sole.apart (hls stake hn) hg hso hgo).symm
    · exact hfi.stakes stake hn

theorem Process.Steady.hands (hs : proc.Steady shared memory) (hc : cfg.core = .cc)
    (h : proc.Advances cfg shared move after next) :
    ∀ entry ∈ proc.hands cfg move, memory entry.2.node = some entry.1 := by
  intro entry he
  cases h with
  | dump hm =>
    cases hm with
    | submit hd =>
      have hd : proc.dump.dumper = some _ := hd
      simp only [Process.hands, hd, Option.toList_some, flatMap_cons, flatMap_nil, append_nil,
        Config.backendDesc_cc hc] at he
      exact (hs.stakes _ (mem_append_right _ (DumpQueue.stake_of_ctx hd he))).filled rfl
    | _ => cases he
  | _ => cases he

theorem Process.Advances.accepted (h : proc.Advances cfg shared move after next) :
    ∀ key ∈ after.accepted, key ∈ shared.accepted ∨ ∃ entry ∈ proc.hands cfg move, entry.1 = key
    := by
  intro key hk
  cases h with
  | submit | wait => exact .inl hk
  | load ho => cases ho <;> exact .inl hk
  | dump hm =>
    cases hm with
    | submit hd =>
      have hd : proc.dump.dumper = some _ := hd
      refine (mem_append.1 hk).imp_right fun hk => ?_
      simpa [Process.hands, hd] using hk
    | _ => exact .inl hk

theorem Process.Quiet.writing (hq : proc.Quiet shared) {node : Nat} (h : proc.writes node = true) :
    ∃ stake ∈ proc.stakes, stake.handle.node = node ∧ stake.role = .writing := by
  simp only [Process.writes, Bool.or_eq_true, List.any_eq_true, decide_eq_true_eq,
    contains_iff_mem] at h
  obtain ⟨load, hl, rfl⟩ | h := h
  · obtain ⟨item, hi, hb, hn⟩ := hq.backed load hl
    exact ⟨item.stake, mem_append_left _ (LoadQueue.stake_of_unwaited hi), hn,
      by simp [ShardTask.stake, hb]⟩
  · obtain ⟨dumper, hd, hp, -, hc⟩ := hq.gathered.copies (ne_nil_of_mem h)
    obtain ⟨entry, he, rfl⟩ := hc node h
    refine ⟨_, mem_append_right _ (DumpQueue.stake_of_ctx hd he), rfl, ?_⟩
    cases hph : dumper.phase <;> simp_all [DumpPhase.stake, DumpPhase.role, DumpPhase.gathers]

end

namespace Host
variable {configs : Nat → Config} {host : Host}

theorem sole_of_reachable (hc : ∀ index, (configs index).core = .cc)
    (h : Reachable (system configs) host) : Sole host.handles := by
  apply h.invariant (I := fun host => Sole host.handles)
  · rintro _ ⟨size, count, rfl⟩
    rw [handles_start]
    exact nodup_nil
  · intro host label next hr hs ht
    obtain ⟨hti, hco⟩ := counted_of_reachable hr
    have hk := keeps_of_step ht hti
    rw [hc] at hk
    exact hk.sole hs hco

theorem sole_stakes (hc : ∀ index, (configs index).core = .cc)
    (h : Reachable (system configs) host) :
    Sole ((host.processes.flatMap Process.stakes).map Stake.handle) := by
  refine (sole_of_reachable hc h).subperm ?_
  unfold Host.handles
  induction host.processes with
  | nil => exact Subperm.refl _
  | cons process rest ih =>
    rw [flatMap_cons, flatMap_cons, map_append]
    exact process.stakes_subperm.append ih

end Host

namespace Watched
variable {configs : Nat → Config} {watched next : Watched}

theorem step_step {label : Cache.Label} (h : watched.step configs (.step label) = some next) :
    ∃ process, watched.host.processes[label.index]? = some process ∧
      watched.host.step configs label = some next.host ∧
      next.memory = watched.memory.deposit (process.deposits label.move) ∧
      next.dumped = watched.dumped ++ (process.hands (configs label.index) label.move).map
        fun entry => (entry.1, watched.memory entry.2.node) := by
  simp only [step] at h
  split at h
  · cases h
  · rename_i process hp
    obtain ⟨host, hs, rfl⟩ := Option.map_eq_some_iff.1 h
    exact ⟨process, hp, hs, rfl, rfl⟩

theorem step_write {node : Nat} {bytes : Option Key}
    (h : watched.step configs (.write node bytes) = some next) :
    (∃ process ∈ watched.host.processes, process.writes node = true) ∧
      next = { watched with memory := update watched.memory node bytes } := by
  simp only [step] at h
  split at h
  · rename_i ha
    cases h
    exact ⟨List.any_eq_true.1 ha, rfl⟩
  · cases h

section
variable (h : Reachable
  ((system configs).restrict fun watched label _ => watched.regular configs label = true) watched)
include h

theorem host_reachable {ok : Host → Cache.Label → Prop}
    (hok : ∀ host label, host.alone label = true → host.calm configs label = true → ok host label) :
    Reachable ((Host.system configs).restrict fun host label _ => ok host label) watched.host := by
  induction h with
  | start hs =>
    obtain ⟨size, count, rfl⟩ := hs
    exact .start ⟨size, count, rfl⟩
  | @next _ label _ _ ht ih =>
    obtain ⟨ht, hr⟩ := ht
    cases label with
    | step label =>
      obtain ⟨-, -, hs, -⟩ := step_step ht
      simp only [regular, Bool.and_eq_true] at hr
      exact ih.next ⟨hs, hok _ _ hr.1 hr.2⟩
    | write =>
      obtain ⟨-, rfl⟩ := step_write ht
      exact ih

theorem alone_reachable : Reachable
    ((Host.system configs).restrict fun host label _ => host.alone label = true) watched.host :=
  host_reachable h fun _ _ ha _ => ha

theorem calm_reachable : Reachable
    ((Host.system configs).restrict fun host label _ => host.calm configs label = true)
    watched.host :=
  host_reachable h fun _ _ _ hc => hc

end

structure Sound (watched : Watched) : Prop where
  filled : watched.host.shared.buffer.Filled watched.memory
  stakes : ∀ process ∈ watched.host.processes, ∀ stake ∈ process.stakes,
    stake.Holds watched.host.shared.buffer watched.memory
  dumped : ∀ key ∈ watched.host.shared.accepted, (key, some key) ∈ watched.dumped

section
variable (hcore : ∀ index, (configs index).core = .cc) (h : Reachable
  ((system configs).restrict fun watched label _ => watched.regular configs label = true) watched)
include hcore h

theorem steady_of_reachable (hs : watched.Sound) : ∀ process ∈ watched.host.processes,
    process.Steady watched.host.shared watched.memory := by
  intro process hm
  have hr := (calm_reachable h).of_restrict
  have ho := Host.honest_of_reachable hcore (alone_reachable h) process hm
  refine ⟨(Host.quiet_of_reachable (calm_reachable h) process hm).gathered, ?_, ?_,
    fun got hg => Host.references_pos hr hm hg, hs.stakes process hm⟩
  · intro dumper hd
    refine ⟨(Host.counted_of_reachable hr).1 process hm dumper hd,
      (Host.bound_of_reachable hr process hm).marks dumper hd, fun left hp => ?_⟩
    obtain ⟨task, ht, -⟩ := (Host.typed_of_reachable hr process hm).dumps dumper.task
      (by simp [DumpQueue.tasks, hd])
    have hc := ho.complete dumper task hd ht
    simp [Dumper.Complete, hp] at hc
  · obtain ⟨front, rest, hb⟩ := append_of_mem hm
    refine (Host.sole_of_reachable hcore hr).sublist ?_
    simp only [Host.handles, hb, flatMap_append, flatMap_cons]
    exact (sublist_append_left _ _).trans (sublist_append_right _ _)

theorem Sound.step {label : Cache.Label} (hs : watched.Sound)
    (ht : watched.step configs (.step label) = some next) : next.Sound := by
  obtain ⟨process, hp, hst, hm, hd⟩ := step_step ht
  obtain ⟨front, mover, updated, rest, hb, hl, hf, ha⟩ := Host.step_cases hst
  obtain rfl : mover = process := by
    rw [hb, ← hl] at hp
    simpa using hp
  have hr := (calm_reachable h).of_restrict
  have hin : mover ∈ watched.host.processes := mem_of_getElem? hp
  have hsd := steady_of_reachable hcore h hs mover hin
  have hfi := ha.firm (hcore _) hsd hs.filled
  rw [← hm] at hfi
  have hsole : Sole (mover.handles ++ (front ++ rest).flatMap Process.handles) := by
    refine (Host.sole_of_reachable hcore hr).perm ?_
    simp only [Host.handles, hb, flatMap_append, flatMap_cons]
    exact perm_append_comm_assoc _ _ _
  refine ⟨hfi.ready hs.filled, ?_, ?_⟩
  · intro process hn stake hk
    have hn : process = updated ∨ process ∈ front ++ rest := by
      simpa [hf, or_left_comm] using hn
    obtain rfl | hn := hn
    · exact hfi.stakes stake hk
    have hmem : process ∈ watched.host.processes := by
      rw [hb]
      exact ((Sublist.refl front).append (sublist_cons_self mover rest)).subset hn
    have hg := Process.handles_of_stakes hk
    refine hfi.holds (hs.stakes process hmem stake hk) (Host.references_pos hr hmem hg) ?_
    exact fun ho got hgm hgo => hsole.apart hgm (mem_flatMap.2 ⟨process, hn, hg⟩) hgo ho
  · intro key hk
    rw [hd]
    obtain hk | ⟨entry, he, rfl⟩ := ha.accepted key hk
    · exact mem_append_left _ (hs.dumped key hk)
    · refine mem_append_right _ (mem_map.2 ⟨entry, he, ?_⟩)
      rw [hsd.hands (hcore _) ha entry he]

theorem Sound.write {node : Nat} {bytes : Option Key} (hs : watched.Sound)
    (ht : watched.step configs (.write node bytes) = some next) : next.Sound := by
  obtain ⟨⟨process, hm, hw⟩, rfl⟩ := step_write ht
  obtain ⟨stake, hn, rfl, hro⟩ :=
    (Host.quiet_of_reachable (calm_reachable h) process hm).writing hw
  have hh := hs.stakes process hm stake hn
  refine ⟨?_, ?_, hs.dumped⟩
  · intro node key hr hk
    have hne : node ≠ stake.handle.node := by
      rintro rfl
      exact hh.writing hro hr
    exact (update_of_ne hne _ _).trans (hs.filled node key hr hk)
  · intro other ho others hot
    have hold := hs.stakes other ho others hot
    refine ⟨hold.key, hold.owner, hold.writing, fun hfi => ?_, hold.ready⟩
    have hne : others.handle.node ≠ stake.handle.node := by
      intro he
      have heq := (Host.sole_stakes hcore (calm_reachable h).of_restrict).eq_of_node
        (mem_flatMap.2 ⟨other, ho, hot⟩) (mem_flatMap.2 ⟨process, hm, hn⟩)
        (hold.owner (by simp [hfi])) (hh.owner (by simp [hro])) he
      rw [heq, hro] at hfi
      cases hfi
    exact (update_of_ne hne _ _).trans (hold.filled hfi)

end

open Host (shard loading dumping waiting skippedLoadRun)

structure Outcome where
  type : TaskType
  desc : List Key
  result : Option Status
  dumped : List (Key × Option Key)
  loaded : List Key
  /-- What the backend still reads. -/
  read : List (Key × Option Key)
  /-- The tasks of the process that are still under way. -/
  left : List TaskHandle
  deriving DecidableEq

def outcome (watched : Watched) : Option Outcome :=
  watched.host.processes[0]?.bind fun process =>
    (process.wrapper.task? 2).map fun task => {
      type := task.type
      desc := task.desc
      result := process.wrapper.result? 2
      dumped := watched.dumped
      loaded := watched.host.shared.loaded
      read := (process.dump.unwaited.flatMap DumpCtx.handles).map fun entry =>
        (entry.1, watched.memory entry.2.node)
      left := process.load.tasks ++ process.dump.tasks }

theorem exists_of_replay {check : Watched → Label → Bool} {labels : List Label} {size : Nat}
    {out : Outcome} (h : (replay (step configs) check { host := .start size 1 } labels).bind
      outcome = some out) : ∃ watched, Reachable
        ((system configs).restrict fun watched label _ => check watched label = true) watched ∧
      watched.dumped = out.dumped ∧ watched.host.shared.loaded = out.loaded ∧
      ∃ process ∈ watched.host.processes, ∃ task, process.wrapper.task? 2 = some task ∧
        task.type = out.type ∧ task.desc = out.desc ∧ process.wrapper.result? 2 = out.result ∧
        (process.dump.unwaited.flatMap DumpCtx.handles).map
          (fun entry => (entry.1, watched.memory entry.2.node)) = out.read ∧
        process.load.tasks ++ process.dump.tasks = out.left := by
  obtain ⟨watched, hw, ho⟩ := Option.bind_eq_some_iff.1 h
  obtain ⟨process, hn, hp⟩ := Option.bind_eq_some_iff.1 ho
  obtain ⟨task, ht, rfl⟩ := Option.map_eq_some_iff.1 hp
  exact ⟨watched, reachable_of_replay (fun _ _ _ => id) (fun _ _ _ => id) (.start ⟨size, 1, rfl⟩) hw,
    rfl, rfl, process, mem_of_getElem? hn, task, ht, rfl, rfl, rfl, rfl, rfl⟩

def steps (labels : List Cache.Label) : List Label := labels.map .step

end Watched
end UnifiedCache.Cache
