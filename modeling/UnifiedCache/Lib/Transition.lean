import Mathlib.Data.List.Induction

/-! Transition systems and their runs. Components driven call by call are folded
over their calls; components that interleave are labelled relations. Both come
with one invariant rule, so that no later module repeats the induction. -/
namespace UnifiedCache.Transition

/-- A deterministic component: the calls are applied one after the other. -/
def run (step : σ → α → σ) (s : σ) (calls : List α) : σ :=
  calls.foldl step s

@[simp] theorem run_nil (step : σ → α → σ) (s : σ) : run step s [] = s := rfl

@[simp] theorem run_concat (step : σ → α → σ) (s : σ) (calls : List α) (last : α) :
    run step s (calls ++ [last]) = step (run step s calls) last := by
  simp [run]

/-- The invariant may speak about the calls made so far, newest last. -/
theorem run_invariant {step : σ → α → σ} {s : σ} {I : List α → σ → Prop} (base : I [] s)
    (keep : ∀ calls t a,
    I calls t → I (calls ++ [a]) (step t a)) (calls : List α) : I calls (run step s calls) := by
  induction calls using List.reverseRecOn with
  | nil => exact base
  | append_singleton calls l ih =>
    rw [run_concat]
    exact keep calls _ l ih

structure System (σ : Type u) (α : Type v) where
  init : σ → Prop
  step : σ → α → σ → Prop

inductive Reachable (M : System σ α) : σ → Prop where
  | start : M.init s → Reachable M s
  | next : Reachable M s → M.step s a t → Reachable M t

variable {M : System σ α}

/-- The rule every safety result below is an instance of. The step obligation
may use that the source state is reachable. -/
theorem Reachable.invariant {I : σ → Prop} (b : ∀ s, M.init s → I s)
    (k : ∀ s a t, Reachable M s → I s → M.step s a t → I t) (h : Reachable M s) : I s := by
  induction h with
  | start hs => exact b _ hs
  | next hr ht ih => exact k _ _ _ hr ih ht

def System.restrict (M : System σ α) (ok : σ → α → σ → Prop) : System σ α where
  init := M.init
  step s a t := M.step s a t ∧ ok s a t

theorem Reachable.of_restrict {ok : σ → α → σ → Prop} (h : Reachable (M.restrict ok) s) :
    Reachable M s := by
  induction h with
  | start hs => exact .start hs
  | next _ ht ih => exact .next ih ht.1

end UnifiedCache.Transition
