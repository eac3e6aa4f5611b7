import Mathlib.Data.List.Perm.Lattice
import UnifiedCache.P2p.ThreadPool

/-! The tasks of the peers of a channel manager. The queue of a peer is known by the peer and a
number, as by its pointer; it is a task of the thread pool that runs `RunTasks`. -/
namespace UnifiedCache.P2p
open List Function Transition

structure ChannelManager (π τ : Type) where
  taskQueues : π → Option Nat := fun _ => none
  tasks : π × Nat → List τ := fun _ => []
  nextQueue : Nat := 0
  pool : ThreadPool (π × Nat)
  /-- The calls of `SubmitTask` that are in `ThreadPool::Submit`, and those that it has failed. -/
  calling : List ((π × Nat) × τ) := []
  failed : List (π × Nat) := []
  current : π × Nat → Option τ := fun _ => none
  /-- The tasks for which `SubmitTask` returned OK, and those that have been started. -/
  accepted : π → List τ := fun _ => []
  ran : π → List τ := fun _ => []

namespace ChannelManager

inductive Move (π τ : Type) where
  | submitTask (peer : π) (task : τ)
  | submit (call : (π × Nat) × τ) (ok : Bool)
  | giveUp (queue : π × Nat)
  | look
  | wake (timedOut : Bool)
  | runTasks (queue : π × Nat)
  | shutdown

variable {π τ : Type} [DecidableEq π] (m : ChannelManager π τ)

def erase (queue : π × Nat) : ChannelManager π τ :=
  if m.taskQueues queue.1 = some queue.2 then
    { m with taskQueues := update m.taskQueues queue.1 none }
  else m

def submitTask (peer : π) (task : τ) : ChannelManager π τ :=
  match m.taskQueues peer with
  | some number => { m with
      tasks := update m.tasks (peer, number) (m.tasks (peer, number) ++ [task])
      accepted := update m.accepted peer (m.accepted peer ++ [task]) }
  | none => { m with
      tasks := update m.tasks (peer, m.nextQueue) [task]
      taskQueues := update m.taskQueues peer (some m.nextQueue)
      nextQueue := m.nextQueue + 1
      calling := ((peer, m.nextQueue), task) :: m.calling }

/-- `ThreadPool::Submit` fails when the pool stops or a new thread cannot be created. -/
def submit [DecidableEq τ] (call : (π × Nat) × τ) (ok : Bool) : Option (ChannelManager π τ) :=
  if call ∈ m.calling then
    if ok then
      if m.pool.stopping then none
      else some { m with
        calling := m.calling.erase call
        pool := m.pool.submit call.1
        accepted := update m.accepted call.1.1 (m.accepted call.1.1 ++ [call.2]) }
    else if m.pool.stopping ∨ m.pool.idleCount = 0 ∧ m.pool.workerCount < m.pool.maxThreads then
      some { m with calling := m.calling.erase call, failed := call.1 :: m.failed }
    else none
  else none

def runTasks (queue : π × Nat) : Option (ChannelManager π τ) :=
  if queue ∈ m.pool.running then
    match m.current queue, m.tasks queue with
    | some _, _ => some { m with current := update m.current queue none }
    | none, [] => (m.pool.perform (.finish queue)).map fun pool => { m.erase queue with pool }
    | none, task :: rest => some { m with
        tasks := update m.tasks queue rest
        current := update m.current queue (some task)
        ran := update m.ran queue.1 (m.ran queue.1 ++ [task]) }
  else none

def perform [DecidableEq τ] : Move π τ → Option (ChannelManager π τ)
  | .submitTask peer task => some (m.submitTask peer task)
  | .submit call ok => m.submit call ok
  | .giveUp queue =>
    if queue ∈ m.failed then some { m.erase queue with failed := m.failed.erase queue } else none
  | .look => (m.pool.perform .look).map fun pool => { m with pool }
  | .wake timedOut => (m.pool.perform (.wake timedOut)).map fun pool => { m with pool }
  | .runTasks queue => m.runTasks queue
  | .shutdown => (m.pool.perform .shutdown).map fun pool => { m with pool }

def system (π τ : Type) [DecidableEq π] [DecidableEq τ] (maxThreads : Nat) :
    System (ChannelManager π τ) (Move π τ) where
  init m := m = { pool := { maxThreads } }
  step m move next := m.perform move = some next

/-- No call joins a queue while the call that made it is still in `SubmitTask`. -/
def Apart : Move π τ → Prop
  | .submitTask peer _ => ∀ number, m.taskQueues peer = some number →
    (peer, number) ∉ m.calling.map Prod.fst ∧ (peer, number) ∉ m.failed
  | _ => True

/-- What is to be shown of the peers' tasks; `Shutdown` returns when no worker is left. -/
structure Orderly : Prop where
  ordered : ∀ peer, m.ran peer <+: m.accepted peer
  single : ∀ (peer : π) (i j : Nat), m.current (peer, i) ≠ none → m.current (peer, j) ≠ none → i = j
  finished : m.pool.workerCount = 0 →
    ∀ peer, m.ran peer = m.accepted peer ∧ ∀ i, m.current (peer, i) = none

def jobs : List (π × Nat) := m.pool.tasks ++ m.pool.running

def queues : List (π × Nat) := m.jobs ++ m.calling.map Prod.fst ++ m.failed

structure Sound (maxThreads : Nat) : Prop where
  counted : m.pool.Counted maxThreads
  nodup : m.queues.Nodup
  listed : ∀ queue : π × Nat, m.taskQueues queue.1 = some queue.2 ↔ queue ∈ m.queues
  own : ∀ call ∈ m.calling, m.tasks call.1 = [call.2]
  ledger : ∀ queue ∈ m.jobs, m.ran queue.1 ++ m.tasks queue = m.accepted queue.1
  settled : ∀ peer, (∀ i, (peer, i) ∉ m.jobs) → m.ran peer = m.accepted peer
  current : ∀ queue, m.current queue ≠ none → queue ∈ m.pool.running

variable {m} {n : ChannelManager π τ} {maxThreads : Nat} {peer : π} {queue other : π × Nat}

section
omit [DecidableEq π]

theorem mem_queues_of_mem_jobs (h : queue ∈ m.jobs) : queue ∈ m.queues :=
  mem_append_left _ (mem_append_left _ h)

theorem jobs_submit {σ : Type} {p : ThreadPool σ} (h : ¬ p.stopping) (task : σ) :
    (p.submit task).tasks ++ (p.submit task).running ~ task :: (p.tasks ++ p.running) ∧
    (p.submit task).running = p.running := by
  unfold ThreadPool.submit
  rw [if_neg h]
  dsimp only
  split <;> simp

theorem jobs_proceed {σ : Type} (pool : ThreadPool σ) : pool.proceed.tasks ++ pool.proceed.running ~
    pool.tasks ++ pool.running ∧ pool.running ⊆ pool.proceed.running := by
  unfold ThreadPool.proceed
  split
  · exact ⟨.refl _, fun _ => id⟩
  · rename_i ht
    rw [ht]
    exact ⟨perm_middle, subset_cons_self ..⟩

theorem jobs_finish {σ : Type} [DecidableEq σ] {pool next : ThreadPool σ} {task : σ}
    (hs : pool.perform (.finish task) = some next) : pool.tasks ++ pool.running ~ task ::
    (next.tasks ++ next.running) ∧ ∀ other ∈ pool.running, other ≠ task → other ∈ next.running := by
  dsimp only [ThreadPool.perform] at hs
  split at hs <;> cases hs
  rename_i hr
  exact ⟨((perm_cons_erase hr).append_left _).trans perm_middle,
    fun _ ho hn => (mem_erase_of_ne hn).2 ho⟩

theorem jobs_look {σ : Type} [DecidableEq σ] {pool next : ThreadPool σ} {move : ThreadPool.Move σ}
    (hm : move = .look ∨ ∃ t, move = .wake t) (hs : pool.perform move = some next) :
    next.tasks ++ next.running ~ pool.tasks ++ pool.running ∧ pool.running ⊆ next.running := by
  rcases hm with rfl | ⟨t, rfl⟩
  all_goals
    dsimp only [ThreadPool.perform] at hs
    split at hs
    · cases hs
    · split at hs <;> cases hs
      · exact jobs_proceed _
      · exact ⟨.refl _, fun _ => id⟩

namespace Sound
variable (h : m.Sound maxThreads)
include h

theorem unique (hq : queue ∈ m.queues) (ho : other ∈ m.queues) (he : queue.1 = other.1) :
    queue = other := by
  have h1 := (h.listed _).2 hq
  rw [he, (h.listed _).2 ho] at h1
  exact Prod.ext he (Option.some.inj h1).symm

theorem peer_ne {c : (π × Nat) × τ} (hc : c ∈ m.calling) (hj : queue ∈ m.jobs) :
    queue.1 ≠ c.1.1 := by
  intro he
  have hd := (nodup_append.1 (nodup_append.1 h.nodup).1).2.2
  have hm := mem_map_of_mem (f := Prod.fst) hc
  exact hd _ hj _ hm (h.unique (mem_queues_of_mem_jobs hj)
    (mem_append_left _ (mem_append_right _ hm)) he)

theorem repool {pool : ThreadPool (π × Nat)} (hc : pool.Counted maxThreads)
    (hp : pool.tasks ++ pool.running ~ m.jobs) (hr : m.pool.running ⊆ pool.running) :
    Sound { m with pool } maxThreads := by
  have hq : queues { m with pool } ~ m.queues := (hp.append_right _).append_right _
  exact { h with
    counted := hc
    nodup := hq.nodup_iff.2 h.nodup
    listed := fun queue => (h.listed queue).trans hq.mem_iff.symm
    ledger := fun queue hj => h.ledger queue (hp.mem_iff.1 hj)
    settled := fun peer hj => h.settled peer fun i hi => hj i (hp.mem_iff.2 hi)
    current := fun queue hn => hr (h.current queue hn) }

end Sound
end

namespace Sound
variable (h : m.Sound maxThreads)
include h

theorem join {number : Nat} (task : τ) (hj : (peer, number) ∈ m.jobs)
    (hc : (peer, number) ∉ m.calling.map Prod.fst) : Sound { m with
      tasks := update m.tasks (peer, number) (m.tasks (peer, number) ++ [task])
      accepted := update m.accepted peer (m.accepted peer ++ [task]) } maxThreads := by
  refine { h with own := fun c hm => ?_, ledger := fun queue hq => ?_, settled := fun p hp => ?_ }
  · have hn : c.1 ≠ (peer, number) := fun he => hc (he ▸ mem_map_of_mem hm)
    simpa [hn] using h.own c hm
  · rcases eq_or_ne queue.1 peer with he | hn
    · obtain rfl := h.unique (mem_queues_of_mem_jobs hq) (mem_queues_of_mem_jobs hj) he
      simp [← h.ledger _ hj]
    · have : queue ≠ (peer, number) := fun he => hn (he ▸ rfl)
      simpa [hn, this] using h.ledger queue hq
  · have hn : p ≠ peer := fun he => hp number (he ▸ hj)
    simpa [hn] using h.settled p hp

theorem create (t : τ) (hq : m.taskQueues peer = none) : Sound { m with
      tasks := update m.tasks (peer, m.nextQueue) [t]
      taskQueues := update m.taskQueues peer (some m.nextQueue)
      nextQueue := m.nextQueue + 1
      calling := ((peer, m.nextQueue), t) :: m.calling } maxThreads := by
  have hw : ∀ queue ∈ m.queues, queue.1 ≠ peer := by
    rintro queue hi rfl
    have := (h.listed queue).2 hi
    simp [hq] at this
  have hne : ∀ queue ∈ m.queues, queue ≠ (peer, m.nextQueue) :=
    fun queue hi he => hw queue hi (he ▸ rfl)
  have hp : m.jobs ++ (peer, m.nextQueue) :: m.calling.map Prod.fst ++ m.failed ~
      (peer, m.nextQueue) :: m.queues := perm_middle.append_right _
  refine { h with
    nodup := hp.nodup_iff.2 (nodup_cons.2 ⟨fun hi => hne _ hi rfl, h.nodup⟩)
    listed := fun queue => Iff.trans ?_ hp.mem_iff.symm
    own := fun c hc => ?_
    ledger := fun queue hj => ?_ }
  · rcases eq_or_ne queue.1 peer with rfl | hn
    · have : queue ∉ m.queues := fun hi => hw queue hi rfl
      simp [this, Prod.ext_iff, eq_comm]
    · have : queue ≠ (peer, m.nextQueue) := fun he => hn (he ▸ rfl)
      simpa [hn, this] using h.listed queue
  · rcases mem_cons.1 hc with rfl | hc
    · simp
    · have := hne c.1 (mem_append_left _ (mem_append_right _ (mem_map_of_mem hc)))
      simpa [this] using h.own c hc
  · simpa [hne queue (mem_queues_of_mem_jobs hj)] using h.ledger queue hj

theorem accept [DecidableEq τ] {c : (π × Nat) × τ} (hc : c ∈ m.calling)
    {pool : ThreadPool (π × Nat)} (hp : pool.Counted maxThreads)
    (hj : pool.tasks ++ pool.running ~ c.1 :: m.jobs) (hr : pool.running = m.pool.running) :
    Sound { m with
      calling := m.calling.erase c
      pool
      accepted := update m.accepted c.1.1 (m.accepted c.1.1 ++ [c.2]) } maxThreads := by
  have he := (perm_cons_erase hc).map Prod.fst
  have hq : pool.tasks ++ pool.running ++ (m.calling.erase c).map Prod.fst ++ m.failed ~ m.queues :=
    ((hj.append_right _).trans (perm_middle.symm.trans (he.symm.append_left _))).append_right _
  have hn : ∀ queue ∈ m.jobs, queue.1 ≠ c.1.1 := fun queue => h.peer_ne hc
  refine { h with
    counted := hp
    nodup := hq.nodup_iff.2 h.nodup
    listed := fun queue => (h.listed queue).trans hq.mem_iff.symm
    own := fun other ho => h.own other (mem_of_mem_erase ho)
    ledger := fun queue hm => ?_
    settled := fun p hs => ?_
    current := fun queue hne => hr ▸ h.current queue hne }
  · rcases mem_cons.1 (hj.mem_iff.1 hm) with rfl | hm
    · have := h.settled c.1.1 fun i hi => hn _ hi rfl
      simp [h.own c hc, this]
    · simpa [hn queue hm] using h.ledger queue hm
  · have hne : p ≠ c.1.1 := fun he => hs c.1.2 (hj.mem_iff.2 (by simp [he]))
    have := h.settled p fun i hi => hs i (hj.mem_iff.2 (mem_cons_of_mem _ hi))
    simpa [hne] using this

theorem refuse [DecidableEq τ] {c : (π × Nat) × τ} (hc : c ∈ m.calling) : Sound { m with
    calling := m.calling.erase c, failed := c.1 :: m.failed } maxThreads := by
  have he := (perm_cons_erase hc).map Prod.fst
  have hq : m.jobs ++ (m.calling.erase c).map Prod.fst ++ c.1 :: m.failed ~ m.queues := by
    refine perm_middle.trans ?_
    exact (perm_middle.symm.trans (he.symm.append_left _)).append_right m.failed
  exact { h with
    nodup := hq.nodup_iff.2 h.nodup
    listed := fun queue => (h.listed queue).trans hq.mem_iff.symm
    own := fun other ho => h.own other (mem_of_mem_erase ho) }

theorem erase_eq {queues : List (π × Nat)} (hq : m.queues ~ queue :: queues) :
    m.erase queue = { m with taskQueues := update m.taskQueues queue.1 none } ∧ queues.Nodup ∧
      ∀ other : π × Nat,
        update m.taskQueues queue.1 none other.1 = some other.2 ↔ other ∈ queues := by
  have hn := nodup_cons.1 (hq.nodup_iff.1 h.nodup)
  have hm : queue ∈ m.queues := hq.mem_iff.2 mem_cons_self
  refine ⟨if_pos ((h.listed queue).2 hm), hn.2, fun other => ?_⟩
  rcases eq_or_ne other.1 queue.1 with he | hne
  · have : other ∉ queues := by
      intro ho
      obtain rfl := h.unique (hq.mem_iff.2 (mem_cons_of_mem _ ho)) hm he
      exact hn.1 ho
    simp [he, this]
  · have : other ≠ queue := fun he => hne (he ▸ rfl)
    simp [hne, h.listed, hq.mem_iff, this]

theorem giveUp (hf : queue ∈ m.failed) :
    Sound { m.erase queue with failed := m.failed.erase queue } maxThreads := by
  have hq : m.queues ~ queue :: (m.jobs ++ m.calling.map Prod.fst ++ m.failed.erase queue) :=
    ((perm_cons_erase hf).append_left _).trans perm_middle
  obtain ⟨he, hn, hl⟩ := h.erase_eq hq
  rw [he]
  exact { h with nodup := hn, listed := hl }

theorem leave (hu : m.current queue = none) (ht : m.tasks queue = []) {pool : ThreadPool (π × Nat)}
    (hc : pool.Counted maxThreads) (hj : m.jobs ~ queue :: (pool.tasks ++ pool.running))
    (hr : ∀ other ∈ m.pool.running, other ≠ queue → other ∈ pool.running) : Sound
    { m.erase queue with pool } maxThreads := by
  obtain ⟨he, hn, hl⟩ := h.erase_eq ((hj.append_right _).append_right _)
  rw [he]
  refine { h with
    counted := hc
    nodup := hn
    listed := hl
    ledger := fun other ho => h.ledger other (hj.mem_iff.2 (mem_cons_of_mem _ ho))
    settled := fun p hs => ?_
    current := fun other ho => ?_ }
  · rcases eq_or_ne p queue.1 with rfl | hne
    · simpa [ht] using h.ledger queue (hj.mem_iff.2 mem_cons_self)
    · refine h.settled p fun i hi => ?_
      rcases mem_cons.1 (hj.mem_iff.1 hi) with rfl | hi
      · exact hne rfl
      · exact hs i hi
  · exact hr other (h.current other ho) fun he => ho (he ▸ hu)

theorem take {t : τ} {r : List τ} (hr : queue ∈ m.pool.running)
    (ht : m.tasks queue = t :: r) : Sound { m with
      tasks := update m.tasks queue r
      current := update m.current queue (some t)
      ran := update m.ran queue.1 (m.ran queue.1 ++ [t]) } maxThreads := by
  have hj : queue ∈ m.jobs := mem_append_right _ hr
  refine { h with
    own := fun c hc => ?_
    ledger := fun other ho => ?_
    settled := fun p hs => ?_
    current := fun other ho => ?_ }
  · have : c.1 ≠ queue := fun he => h.peer_ne hc hj (he ▸ rfl)
    simpa [this] using h.own c hc
  · rcases eq_or_ne other.1 queue.1 with he | hn
    · obtain rfl := h.unique (mem_queues_of_mem_jobs ho) (mem_queues_of_mem_jobs hj) he
      simpa [ht] using h.ledger other hj
    · have : other ≠ queue := fun he => hn (he ▸ rfl)
      simpa [hn, this] using h.ledger other ho
  · have hn : p ≠ queue.1 := by
      rintro rfl
      exact hs queue.2 hj
    simpa [hn] using h.settled p hs
  · rcases eq_or_ne other queue with rfl | hn
    · exact hr
    · exact h.current other (by simpa [hn] using ho)

theorem runTasks (hm : 0 < maxThreads) (hs : m.runTasks queue = some n) : n.Sound maxThreads := by
  unfold ChannelManager.runTasks at hs
  split at hs
  · rename_i hr
    split at hs
    · cases hs
      refine { h with current := fun other ho => h.current other ?_ }
      rcases eq_or_ne other queue with rfl | hn
      · simp at ho
      · simpa [hn] using ho
    · rename_i hc ht
      obtain ⟨p, hp, rfl⟩ := Option.map_eq_some_iff.1 hs
      have hj := jobs_finish hp
      exact h.leave hc ht (h.counted.step hm hp).1 hj.1 hj.2
    · cases hs
      exact h.take hr ‹_›
  · cases hs

theorem step [DecidableEq τ] {move : Move π τ} (hm : 0 < maxThreads) (ha : m.Apart move)
    (hs : m.perform move = some n) : n.Sound maxThreads := by
  cases move with
  | submitTask peer ta =>
    cases hs
    unfold ChannelManager.submitTask
    split
    · rename_i i hq
      have ⟨hc, hf⟩ := ha i hq
      refine h.join ta ?_ hc
      have := (h.listed (peer, i)).1 hq
      simpa [queues, hc, hf] using this
    · exact h.create ta ‹_›
  | submit c ok =>
    dsimp only [perform, submit] at hs
    split at hs
    · rename_i hc
      split at hs
      · split at hs
        · cases hs
        · rename_i ht
          cases hs
          have hp := jobs_submit ht c.1
          have hq : m.pool.perform (.submit c.1) = _ := rfl
          exact h.accept hc (h.counted.step hm hq).1 hp.1 hp.2
      · split at hs <;> cases hs
        exact h.refuse hc
    · cases hs
  | giveUp queue =>
    dsimp only [perform] at hs
    split at hs <;> cases hs
    exact h.giveUp ‹_›
  | look =>
    obtain ⟨p, hp, rfl⟩ := Option.map_eq_some_iff.1 hs
    have hj := jobs_look (.inl rfl) hp
    exact h.repool (h.counted.step hm hp).1 hj.1 hj.2
  | wake t =>
    obtain ⟨p, hp, rfl⟩ := Option.map_eq_some_iff.1 hs
    have hj := jobs_look (.inr ⟨_, rfl⟩) hp
    exact h.repool (h.counted.step hm hp).1 hj.1 hj.2
  | runTasks queue => exact h.runTasks hm hs
  | shutdown =>
    cases hs
    have hq : m.pool.perform .shutdown = _ := rfl
    exact h.repool (h.counted.step hm hq).1 (.refl _) fun _ => id

omit [DecidableEq π] in
theorem orderly : m.Orderly := by
  refine ⟨fun peer => ?_, fun peer i j hi hj => ?_, fun hw peer => ?_⟩
  · by_cases he : ∃ i, (peer, i) ∈ m.jobs
    · obtain ⟨i, hi⟩ := he
      exact ⟨_, h.ledger _ hi⟩
    · exact h.settled peer (not_exists.1 he) ▸ prefix_rfl
  · have hm : ∀ i, m.current (peer, i) ≠ none → (peer, i) ∈ m.queues :=
      fun i hi => mem_queues_of_mem_jobs (mem_append_right _ (h.current _ hi))
    exact congrArg Prod.snd (h.unique (hm i hi) (hm j hj) rfl)
  · have hr : m.pool.running = [] := by
      have := h.counted.workers
      exact length_eq_zero_iff.1 (by omega)
    refine ⟨h.settled peer fun i => ?_, fun i => ?_⟩
    · simp [jobs, hr, h.counted.drained hw]
    · by_contra hc
      simpa [hr] using h.current _ hc

end Sound

variable [DecidableEq τ]

theorem tasks_orderly (hm : 0 < maxThreads)
    (h : Reachable ((system π τ maxThreads).restrict fun m move _ => m.Apart move) m) :
    m.Orderly := by
  refine Sound.orderly (h.invariant (I := fun m => m.Sound maxThreads) ?_
    fun _ _ _ _ hi hs => hi.step hm hs.2 hs.1)
  rintro _ rfl
  exact {
    counted := ⟨rfl, rfl, Nat.zero_le _, rfl, rfl, fun _ => rfl⟩
    nodup := nodup_nil
    listed := by simp [queues, jobs]
    own := by simp
    ledger := by simp [jobs]
    settled := fun _ _ => rfl
    current := by simp }

/-- A second task joins the queue of the first one. -/
def oneQueue : List (Move Nat Nat) :=
  [.submitTask 0 5, .submit ((0, 0), 5) true, .look, .submitTask 0 6, .runTasks (0, 0)]

theorem tasks_orderly_one : ∃ m : ChannelManager Nat Nat,
    m.accepted 0 = [5, 6] ∧ m.ran 0 = [5] ∧ m.Orderly := by
  have hr : replay (fun m : ChannelManager Nat Nat => m.perform) (fun m move => match move with
      | .submitTask _ _ => m.calling.isEmpty && m.failed.isEmpty
      | _ => true) { pool := { maxThreads := 1 } } oneQueue = some _ := rfl
  refine ⟨_, ?_, ?_, tasks_orderly (by decide)
    (reachable_of_replay (fun _ _ _ => id) ?_ (.start rfl) hr)⟩
  · rfl
  · rfl
  · intro m move _ hc
    cases move with
    | submitTask =>
      simp only [Bool.and_eq_true, List.isEmpty_iff] at hc
      simp [Apart, hc]
    | _ => trivial

/-- The second call joins the queue that the first one has made, and returns OK; then no thread can
be created, and the first call takes the queue away. -/
theorem task_lost : ∃ m : ChannelManager Nat Nat, Reachable (system Nat Nat 1) m ∧
    m.pool.workerCount = 0 ∧ m.taskQueues 0 = none ∧ m.accepted 0 = [6] ∧ m.ran 0 = [] := by
  have hr : replay (fun m : ChannelManager Nat Nat => m.perform) (fun _ _ => true)
      { pool := { maxThreads := 1 } }
      [.submitTask 0 5, .submitTask 0 6, .submit ((0, 0), 5) false, .giveUp (0, 0), .shutdown] =
        some _ := rfl
  exact ⟨_, reachable_of_replay_free (fun _ _ _ => id) rfl hr, rfl, rfl, rfl, rfl⟩

end ChannelManager
end UnifiedCache.P2p
