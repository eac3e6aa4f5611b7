import UnifiedCache.Lib.Transition

/-! Runs of a system whose step is computed: a list of labels is played back, and the
state that comes out is reachable. -/
namespace UnifiedCache.Transition

/-- The state after the labels, each of which has to pass a check before it is taken. -/
def replay (perform : σ → α → Option σ) (check : σ → α → Bool) (s : σ) : List α → Option σ
  | [] => some s
  | a :: rest =>
    if check s a then
      match perform s a with
      | some t => replay perform check t rest
      | none => none
    else none

variable {M : System σ α} {perform : σ → α → Option σ} {check : σ → α → Bool}
  {ok : σ → α → σ → Prop} {s t : σ} {labels : List α}

section
variable (hstep : ∀ s a t, perform s a = some t → M.step s a t)
include hstep

theorem reachable_of_replay (hc : ∀ s a t, check s a = true → ok s a t)
    (hs : Reachable (M.restrict ok) s) (h : replay perform check s labels = some t) :
    Reachable (M.restrict ok) t := by
  induction labels generalizing s with
  | nil =>
    cases h
    exact hs
  | cons a _ ih =>
    unfold replay at h
    split at h
    · rename_i hp
      split at h
      · rename_i n hn
        exact ih (hs.next ⟨hstep s a n hn, hc s a n hp⟩) h
      · cases h
    · cases h

theorem reachable_of_replay_free (hs : M.init s)
    (h : replay perform (fun _ _ => true) s labels = some t) : Reachable M t := by
  have ha : Reachable (M.restrict fun _ _ _ => True) t :=
    reachable_of_replay hstep (fun _ _ _ _ => trivial) (.start hs) h
  exact ha.of_restrict

end
end UnifiedCache.Transition
