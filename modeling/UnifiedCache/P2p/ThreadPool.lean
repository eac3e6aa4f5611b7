import UnifiedCache.Lib.Replay

/-! The thread pool of the P2P transport. Its workers are all alike, so that a state says how many
of them are about to lock the mutex, how many wait for a task, and which tasks the others run. The
steps are the critical sections of `Submit`, `RunWorker` and `Shutdown`. -/
namespace UnifiedCache.P2p
open Transition

structure ThreadPool (τ : Type) where
  tasks : List τ := []
  maxThreads : Nat
  workerCount : Nat := 0
  idleCount : Nat := 0
  stopping : Bool := false
  looking : Nat := 0
  waiting : Nat := 0
  running : List τ := []
  /-- The tasks that `Submit` has accepted, and those that a worker has taken, in this order. -/
  accepted : List τ := []
  ran : List τ := []

namespace ThreadPool

inductive Move (τ : Type) where
  | submit (task : τ)
  | look
  | wake (timedOut : Bool)
  | finish (task : τ)
  | shutdown

variable {τ : Type} [DecidableEq τ] (pool : ThreadPool τ)

def submit (task : τ) : ThreadPool τ :=
  if pool.stopping then pool
  else
    let pool := { pool with
      tasks := pool.tasks ++ [task], accepted := pool.accepted ++ [task] }
    if pool.idleCount = 0 ∧ pool.workerCount < pool.maxThreads then
      { pool with workerCount := pool.workerCount + 1, looking := pool.looking + 1 }
    else pool

def ready : Bool := pool.stopping || !pool.tasks.isEmpty

/-- What a worker does when its wait is over. -/
def proceed : ThreadPool τ :=
  match pool.tasks with
  | [] => { pool with workerCount := pool.workerCount - 1 }
  | task :: rest => { pool with
      tasks := rest, running := task :: pool.running, ran := pool.ran ++ [task] }

def perform : Move τ → Option (ThreadPool τ)
  | .submit task => some (pool.submit task)
  | .look =>
    if pool.looking = 0 then none
    else
      let pool := { pool with looking := pool.looking - 1 }
      if pool.ready then some pool.proceed
      else some { pool with waiting := pool.waiting + 1, idleCount := pool.idleCount + 1 }
  | .wake timedOut =>
    if pool.waiting = 0 then none
    else if pool.ready || timedOut then
      some (proceed { pool with waiting := pool.waiting - 1, idleCount := pool.idleCount - 1 })
    else some pool
  | .finish task =>
    if task ∈ pool.running then
      some { pool with running := pool.running.erase task, looking := pool.looking + 1 }
    else none
  | .shutdown => some { pool with stopping := true }

def system (τ : Type) [DecidableEq τ] (maxThreads : Nat) : System (ThreadPool τ) (Move τ) where
  init pool := pool = { maxThreads }
  step pool move next := pool.perform move = some next

/-- The counters are right, no accepted task is lost or taken twice, and none is left when
`Shutdown` returns. -/
structure Counted (maxThreads : Nat) : Prop where
  limit : pool.maxThreads = maxThreads
  workers : pool.workerCount = pool.looking + pool.waiting + pool.running.length
  bounded : pool.workerCount ≤ pool.maxThreads
  idle : pool.idleCount = pool.waiting
  once : pool.ran ++ pool.tasks = pool.accepted
  drained : pool.workerCount = 0 → pool.tasks = []

/-- A queued task has a worker that will look at the queue, unless all workers exist. -/
def Conserving : Prop :=
  pool.tasks ≠ [] → 0 < pool.looking + pool.waiting ∨ pool.workerCount = pool.maxThreads

/-- `Submit` finds no idle worker, or one for each queued task and one more. -/
def Spare : Move τ → Prop
  | .submit _ => pool.idleCount = 0 ∨ pool.tasks.length < pool.idleCount
  | _ => True

/-- The workers that will look at the queue are enough for all of it. -/
def Served : Prop :=
  pool.tasks.length ≤ pool.looking + pool.waiting ∨ pool.workerCount = pool.maxThreads

variable {pool} {next : ThreadPool τ} {maxThreads : Nat} {move : Move τ}

section
omit [DecidableEq τ]
variable {looking waiting idleCount : Nat}
  (hl : looking + waiting + 1 = pool.looking + pool.waiting)
include hl

theorem Counted.proceed (h : pool.Counted maxThreads) (hi : idleCount = waiting) :
    (proceed { pool with looking, waiting, idleCount }).Counted maxThreads ∧ (pool.Served →
    (proceed { pool with looking, waiting, idleCount }).Served) := by
  have hw := h.workers
  have hb := h.bounded
  have ho := h.once
  unfold ThreadPool.proceed Served
  split
  · rename_i ht
    replace ht : pool.tasks = [] := ht
    refine ⟨{ h with
      workers := ?_, bounded := ?_, idle := hi, drained := fun _ => ht }, fun _ => .inl ?_⟩
    · dsimp
      omega
    · dsimp
      omega
    · simp [ht]
  · rename_i t rest ht
    rw [ht] at ho ⊢
    refine ⟨{ h with workers := ?_, idle := hi, once := ?_, drained := ?_ }, .imp ?_ id⟩
    · simp
      omega
    · simp [← ho]
    · dsimp
      omega
    · simp
      omega

end

theorem Counted.step (h : pool.Counted maxThreads) (hm : 0 < maxThreads)
    (hs : pool.perform move = some next) : next.Counted maxThreads ∧
    (pool.Spare move → pool.Served → next.Served) := by
  have hw := h.workers
  have hi := h.idle
  have hl := h.limit
  have hb := h.bounded
  unfold Spare
  cases move with
  | submit ta =>
    cases hs
    unfold submit
    have ho : pool.ran ++ (pool.tasks ++ [ta]) = pool.accepted ++ [ta] := by
      rw [← List.append_assoc, h.once]
    split
    · exact ⟨h, fun _ => id⟩
    · unfold Served
      dsimp only
      split
      · refine ⟨{ h with workers := ?_, bounded := ?_, once := ho, drained := ?_ }, ?_⟩ <;>
          simp <;> omega
      · refine ⟨{ h with once := ho, drained := ?_ }, ?_⟩ <;> simp <;> omega
  | look =>
    dsimp only [perform] at hs
    split at hs
    · cases hs
    · split at hs <;> cases hs
      · exact And.imp_right (fun hv _ => hv) (h.proceed (by omega) hi)
      · refine ⟨{ h with workers := ?_, idle := ?_ }, fun _ => .imp ?_ id⟩ <;> dsimp <;> omega
  | wake t =>
    dsimp only [perform] at hs
    split at hs
    · cases hs
    · split at hs <;> cases hs
      · exact And.imp_right (fun hv _ => hv) (h.proceed (by omega) (by omega))
      · exact ⟨h, fun _ => id⟩
  | finish ta =>
    dsimp only [perform] at hs
    split at hs <;> cases hs
    rename_i ht
    have := List.length_pos_of_mem ht
    refine ⟨{ h with workers := ?_ }, fun _ => .imp ?_ id⟩
    · simp [List.length_erase_of_mem ht]
      omega
    · dsimp
      omega
  | shutdown =>
    cases hs
    exact ⟨{ h with }, fun _ => id⟩

theorem counted (hm : 0 < maxThreads) (h : Reachable (system τ maxThreads) pool) :
    pool.Counted maxThreads := by
  refine h.invariant (I := fun pool => pool.Counted maxThreads) ?_
    fun _ _ _ _ hc hs => (hc.step hm hs).1
  rintro _ rfl
  exact ⟨rfl, rfl, Nat.zero_le _, rfl, rfl, fun _ => rfl⟩

theorem work_conserving (hm : 0 < maxThreads)
    (h : Reachable ((system τ maxThreads).restrict fun pool move _ => pool.Spare move) pool) :
    pool.Counted maxThreads ∧ pool.Conserving := by
  have he : pool.Served := by
    apply h.invariant
    · rintro _ rfl
      exact .inl (Nat.zero_le _)
    · exact fun _ _ _ hr hv hs => ((counted hm hr.of_restrict).step hm hs.1).2 hs.2 hv
  refine ⟨counted hm h.of_restrict, fun ht => ?_⟩
  have := List.length_pos_iff.2 ht
  exact he.imp (by omega) id

/-- One worker runs a task and waits for the next one; then a second task finds it waiting. -/
def oneWaiting : List (Move Nat) := [.submit 0, .look, .finish 0, .look, .submit 1]

theorem work_conserving_one : ∃ pool : ThreadPool Nat, pool.tasks = [1] ∧
    pool.Counted 2 ∧ pool.Conserving := by
  have hr : replay perform (fun pool move => match move with
      | .submit _ => pool.idleCount = 0 ∨ pool.tasks.length < pool.idleCount
      | _ => true) { maxThreads := 2 } oneWaiting = some _ := rfl
  refine ⟨_, ?_, work_conserving (by decide)
    (reachable_of_replay (fun _ _ _ => id) ?_ (.start rfl) hr)⟩
  · rfl
  · intro pool move _ hc
    cases move with
    | submit => simpa [Spare] using hc
    | _ => trivial

/-- A third task is submitted before the waiting worker has woken up: it stays behind the second
one, which may block, although another worker may still be started. -/
theorem task_left_waiting : ∃ pool : ThreadPool Nat, Reachable (system Nat 2) pool ∧
    pool.tasks = [2] ∧ pool.running = [1] ∧ ¬ pool.Conserving := by
  have hr : replay perform (fun _ _ => true) { maxThreads := 2 }
      (oneWaiting ++ [.submit 2, .wake false]) = some _ := rfl
  refine ⟨_, reachable_of_replay_free (fun _ _ _ => id) rfl hr, rfl, rfl, fun hc => ?_⟩
  have := hc (by decide)
  revert this
  decide

end ThreadPool
end UnifiedCache.P2p
