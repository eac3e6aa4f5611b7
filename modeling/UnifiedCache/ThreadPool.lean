import UnifiedCache.Lib.Replay

/-! `ThreadPool`: a queue of tasks for its workers. `TraverseWaitQueue` takes the whole queue,
gives the tasks that its filter selects to a visitor and puts the others back in batches; what is
pushed meanwhile waits. Each step is what a thread does under the lock or with its own list. -/
namespace UnifiedCache.ThreadPool
open List Transition

structure Worker (α : Type u) where
  current : Option α := none
  stop : Bool := false

/-- The snapshot of a traversal: what was passed since the last batch, and the rest. -/
structure Snapshot (α : Type u) where
  passed : List α := []
  rest : List α

structure Pool (α : Type u) where
  taskQ : List α := []
  taskPending : List α := []
  /-- Set while `drain_` is. -/
  snapshot : Option (Snapshot α) := none
  /-- Also those that the monitor has detached. -/
  workers : List (Worker α) := []
  /-- All tasks that were pushed, taken by a worker and given to a visitor. -/
  pushed : List α := []
  taken : List α := []
  visited : List α := []

inductive Move (α : Type u) where
  | push (tasks : List α)
  | addOneWorker
  | take (worker : Nat)
  | finish (worker : Nat)
  /-- The monitor finds the worker past its time. -/
  | requestStop (worker : Nat)
  | traverse
  | filter (selected : Bool)
  /-- The snapshot is at its end, or `earlyStopper` has ended the loop. -/
  | leave

namespace Pool
variable {α : Type u} (pool : Pool α)

def push (tasks : List α) : Pool α :=
  let pushed := pool.pushed ++ tasks
  if pool.snapshot.isSome then { pool with pushed, taskPending := pool.taskPending ++ tasks }
  else { pool with pushed, taskQ := pool.taskQ ++ tasks }

/-- One turn of the loop of `TraverseWaitQueue`. -/
def look (nWorker : Nat) (selected : Bool) : Option (Pool α) :=
  match pool.snapshot with
  | some ⟨passed, task :: rest⟩ =>
    if selected then some { pool with
      snapshot := some ⟨passed, rest⟩
      visited := pool.visited ++ [task] }
    else if passed.length + 1 = nWorker then some { pool with
      taskQ := pool.taskQ ++ (passed ++ [task])
      snapshot := some ⟨[], rest⟩ }
    else some { pool with snapshot := some ⟨passed ++ [task], rest⟩ }
  | _ => none

def leave : Option (Pool α) :=
  pool.snapshot.map fun snapshot => { pool with
    taskQ := pool.taskQ ++ (snapshot.passed ++ snapshot.rest) ++ pool.taskPending
    taskPending := []
    snapshot := none }

def step (nWorker : Nat) : Move α → Option (Pool α)
  | .push tasks => some (pool.push tasks)
  | .addOneWorker => some { pool with workers := pool.workers ++ [{}] }
  | .take index =>
    match pool.workers[index]?, pool.taskQ with
    | some ⟨none, false⟩, task :: rest => some { pool with
        taskQ := rest
        workers := pool.workers.set index { current := some task }
        taken := pool.taken ++ [task] }
    | _, _ => none
  | .finish index => pool.workers[index]?.map fun worker => { pool with
      workers := pool.workers.set index { worker with current := none } }
  | .requestStop index => pool.workers[index]?.map fun worker => { pool with
      workers := pool.workers.set index { worker with stop := true } }
  | .traverse =>
    if pool.snapshot.isSome then some pool
    else some { pool with taskQ := [], snapshot := some { rest := pool.taskQ } }
  | .filter selected => pool.look nWorker selected
  | .leave => pool.leave

def line : List α :=
  pool.taskQ ++ (pool.snapshot.elim [] fun snapshot => snapshot.passed ++ snapshot.rest) ++
    pool.taskPending

def system (α : Type u) (nWorker : Nat) : System (Pool α) (Move α) where
  init pool := pool = {}
  step pool move next := pool.step nWorker move = some next

structure Kept : Prop where
  pending : pool.snapshot = none → pool.taskPending = []
  all : (pool.taken ++ pool.line ++ pool.visited).Perm pool.pushed
  order : (pool.taken ++ pool.line).Sublist pool.pushed

variable {pool} {next : Pool α} {nWorker : Nat}

theorem Kept.hand (h : pool.Kept) (he : next.snapshot = none → next.taskPending = [])
    (hl : next.taken ++ next.line = pool.taken ++ pool.line)
    (hv : next.visited = pool.visited) (hp : next.pushed = pool.pushed) : next.Kept := by
  refine ⟨he, ?_, ?_⟩
  · rw [hl, hv, hp]
    exact h.all
  · rw [hl, hp]
    exact h.order

theorem Kept.push (h : pool.Kept) (tasks : List α) : (pool.push tasks).Kept := by
  have hl : (pool.push tasks).line = pool.line ++ tasks := by
    unfold Pool.push line
    cases hs : pool.snapshot with
    | none => simp [h.pending hs]
    | some s => simp
  have ha : (pool.push tasks).taken = pool.taken ∧ (pool.push tasks).visited = pool.visited ∧
      (pool.push tasks).pushed = pool.pushed ++ tasks ∧
      (pool.push tasks).snapshot = pool.snapshot := by
    unfold Pool.push
    split <;> exact ⟨rfl, rfl, rfl, rfl⟩
  obtain ⟨ht, hv, hp, hs⟩ := ha
  refine ⟨?_, ?_, ?_⟩
  · intro hn
    rw [hs] at hn
    simpa [Pool.push, hn] using h.pending hn
  · rw [ht, hl, hv, hp, ← append_assoc, append_assoc (_ ++ _)]
    refine (perm_append_comm.append_left _).trans ?_
    rw [← append_assoc]
    exact h.all.append_right tasks
  · rw [ht, hl, hp, ← append_assoc]
    exact h.order.append_right tasks

theorem Kept.look (h : pool.Kept) {s : Bool} (hl : pool.look nWorker s = some next) :
    next.Kept := by
  unfold Pool.look at hl
  split at hl
  · rename_i p t r hs
    split at hl
    · cases hl
      refine ⟨by simp, ?_, ?_⟩
      · refine List.Perm.trans ?_ h.all
        simp only [line, hs, Option.elim_some, append_assoc, cons_append]
        refine .append_left _ (.append_left _ (.append_left _ ?_))
        simp only [← append_assoc]
        exact perm_append_singleton t _
      · refine List.Sublist.trans ?_ h.order
        simp [line, hs]
    split at hl
    · cases hl
      exact h.hand (by simp) (by simp [line, hs]) rfl rfl
    · cases hl
      exact h.hand (by simp) (by simp [line, hs]) rfl rfl
  · cases hl

theorem Kept.step (h : pool.Kept) {m : Move α} (hs : pool.step nWorker m = some next) :
    next.Kept := by
  cases m with
  | push t =>
    cases hs
    exact h.push t
  | addOneWorker =>
    cases hs
    exact h.hand h.pending rfl rfl rfl
  | take i =>
    simp only [Pool.step] at hs
    split at hs
    · rename_i hq
      cases hs
      exact h.hand h.pending (by simp [line, hq]) rfl rfl
    · cases hs
  | finish i | requestStop i =>
    obtain ⟨w, _, rfl⟩ := Option.map_eq_some_iff.1 hs
    exact h.hand h.pending rfl rfl rfl
  | traverse =>
    simp only [Pool.step] at hs
    split at hs
    · cases hs
      exact h
    · rename_i hn
      cases hs
      simp only [Bool.not_eq_true, Option.isSome_eq_false_iff, Option.isNone_iff_eq_none] at hn
      exact h.hand (by simp) (by simp [line, hn]) rfl rfl
  | filter s => exact h.look hs
  | leave =>
    obtain ⟨sn, hsn, rfl⟩ := Option.map_eq_some_iff.1 hs
    exact h.hand (fun _ => rfl) (by simp [line, hsn]) rfl rfl

/-- Every task that was pushed is taken once, given to a visitor once, or still in line; what
is taken leaves in order; and without a traversal the line is the queue. -/
theorem tasks_once (h : Reachable (system α nWorker) pool) :
    (pool.taken ++ pool.line ++ pool.visited).Perm pool.pushed ∧
      pool.taken.Sublist pool.pushed ∧ (pool.snapshot = none → pool.line = pool.taskQ) := by
  have hk : pool.Kept := by
    apply h.invariant
    · rintro _ rfl
      exact ⟨fun _ => rfl, .refl _, .refl _⟩
    · exact fun _ _ _ _ hk hs => hk.step hs
  refine ⟨hk.all, (sublist_append_left _ _).trans hk.order, ?_⟩
  intro hn
  simp [line, hn, hk.pending hn]

/-- The second task is visited, the first is taken before the third. -/
theorem tasks_once_three : ∃ pool, Reachable (system Nat 2) pool ∧ pool.pushed = [1, 2, 3] ∧
    pool.taken = [1, 3] ∧ pool.visited = [2] ∧
      (pool.taken ++ pool.line ++ pool.visited).Perm pool.pushed ∧
      pool.taken.Sublist pool.pushed ∧ (pool.snapshot = none → pool.line = pool.taskQ) := by
  obtain ⟨pool, hp, hl⟩ : ∃ pool, replay (fun pool move => step pool 2 move)
      (fun _ _ => true) {} [.addOneWorker, .push [1, 2], .traverse, .filter false, .push [3],
        .filter true, .leave, .take 0, .requestStop 0, .addOneWorker, .take 1] = some pool ∧
      pool.pushed = [1, 2, 3] ∧ pool.taken = [1, 3] ∧ pool.visited = [2] :=
    ⟨_, rfl, rfl, rfl, rfl⟩
  have hr : Reachable (system Nat 2) pool :=
    reachable_of_replay_free (fun _ _ _ hs => hs) rfl hp
  exact ⟨pool, hr, hl.1, hl.2.1, hl.2.2, tasks_once hr⟩

end Pool
end UnifiedCache.ThreadPool
