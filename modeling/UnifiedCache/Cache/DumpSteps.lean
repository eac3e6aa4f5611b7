import UnifiedCache.Cache.DumpQueue

/-! What the threads of a dump queue can do: the branches of `DumpState.step`. -/
namespace UnifiedCache.Cache
open Store

inductive DumpStep (config : Config) (state : DumpState) : DumpMove → DumpState → Prop where
  | turnAway : state.queue.dumper = none → state.queue.waiting = handle :: rest →
    state.wrapper.failureSet handle = true →
    DumpStep config state .take { state with
      wrapper := state.wrapper.done handle
      queue := { state.queue with waiting := rest } }
  | take : state.queue.dumper = none → state.queue.waiting = handle :: rest →
    state.wrapper.task? handle = some task → state.wrapper.failureSet handle = false →
    DumpStep config state .take { state with queue := { state.queue with
      waiting := rest
      dumper := some ⟨handle, task.desc, [], 0, .event⟩ } }
  | event (ok : Bool) : state.queue.dumper = some ⟨handle, rest, ctx, copied, .event⟩ →
    DumpStep config state (.event ok) (state.turnTo
      (some ⟨handle, rest, ctx, copied, if ok then .looking else .finishing true⟩))
  | get : state.queue.dumper = some ⟨handle, key :: rest, ctx, copied, .looking⟩ →
    state.shared.buffer.get config.core ⟨key, false, true⟩ victim = some (got, buffer) →
    DumpStep config state (.get victim)
      ((state.setBuffer buffer).turnTo (some ⟨handle, rest, ctx, copied, .holding key got⟩))
  | skip : state.queue.dumper = some ⟨handle, rest, ctx, copied, .holding key got⟩ →
    got.owner = false →
    DumpStep config state .skip
      ((state.setBuffer (state.shared.buffer.release config.core got)).turnTo
        (some ⟨handle, rest, ctx, copied, .looking⟩))
  | keep : state.queue.dumper = some ⟨handle, rest, ctx, copied, .holding key got⟩ →
    got.owner = true → state.shared.state got = .READY →
    DumpStep config state .keep
      (state.turnTo (some ⟨handle, rest, ctx ++ [(key, got)], copied, .looking⟩))
  | copy (issued : Bool) :
    state.queue.dumper = some ⟨handle, rest, ctx, copied, .holding key got⟩ →
    got.owner = true → state.shared.state got ≠ .READY →
    DumpStep config state (.copy true issued) { state with queue := { state.queue with
      copies := state.queue.copies ++ [got.node]
      dumper := some ⟨handle, rest, ctx ++ [(key, got)], copied + 1, .looking⟩ } }
  | copyFailed : state.queue.dumper = some ⟨handle, rest, ctx, copied, .holding key got⟩ →
    got.owner = true → state.shared.state got ≠ .READY → (issued && config.core = .cc) = false →
    DumpStep config state (.copy false issued) (state.turnTo
      (some ⟨handle, rest, ctx ++ [(key, got)], copied, config.core.giveUp (ctx ++ [(key, got)])⟩))
  | copyBroken : state.queue.dumper = some ⟨handle, rest, ctx, copied, .holding key got⟩ →
    got.owner = true → state.shared.state got ≠ .READY → config.core = .cc →
    DumpStep config state (.copy false true) { state with queue := { state.queue with
      copies := state.queue.copies ++ [got.node]
      dumper := some ⟨handle, rest, ctx ++ [(key, got)], copied,
        config.core.giveUp (ctx ++ [(key, got)])⟩ } }
  | nothing : state.queue.dumper = some ⟨handle, [], [], copied, .looking⟩ →
    DumpStep config state .gathered (state.turnTo (some ⟨handle, [], [], copied, .finishing false⟩))
  | gathered : state.queue.dumper = some ⟨handle, [], ctx, copied, .looking⟩ → ctx ≠ [] →
    (config.core = .cc ∨ 0 < copied) →
    DumpStep config state .gathered (state.turnTo (some ⟨handle, [], ctx, copied, .syncing⟩))
  | unsynced : state.queue.dumper = some ⟨handle, [], ctx, copied, .looking⟩ → ctx ≠ [] →
    config.core = .v2 → copied = 0 →
    DumpStep config state .gathered
      (state.turnTo (some ⟨handle, [], ctx, copied, .marking (ctx.map Prod.snd)⟩))
  | sync (ok : Bool) : state.queue.dumper = some ⟨handle, rest, ctx, copied, .syncing⟩ →
    DumpStep config state (.sync ok) { state with queue := { state.queue with
      copies := []
      dumper := some ⟨handle, rest, ctx, copied,
        if ok then .marking (ctx.map Prod.snd) else config.core.giveUp ctx⟩ } }
  | mark : state.queue.dumper = some ⟨handle, rest, ctx, copied, .marking (got :: left)⟩ →
    DumpStep config state .mark
      ((state.setBuffer (state.shared.buffer.markBy config.core got .READY)).turnTo
        (some ⟨handle, rest, ctx, copied, .marking left⟩))
  | marked : state.queue.dumper = some ⟨handle, rest, ctx, copied, .marking []⟩ →
    DumpStep config state .mark (state.turnTo (some ⟨handle, rest, ctx, copied,
      if config.backendDesc ctx = [] then .dropping false else .submitting⟩))
  | submit : state.queue.dumper = some ⟨handle, rest, ctx, copied, .submitting⟩ →
    DumpStep config state (.submit true) {
      shared := { state.shared with
        nextBackend := state.shared.nextBackend + 1
        accepted := state.shared.accepted ++ (config.backendDesc ctx).map Prod.fst }
      wrapper := state.wrapper
      queue := { state.queue with
        dumps := state.queue.dumps ++
          [(state.shared.nextBackend, (config.backendDesc ctx).map (·.2.node))]
        dumping := state.queue.dumping ++ [⟨state.shared.nextBackend, ctx⟩]
        dumper := some ⟨handle, rest, [], copied, .finishing false⟩ } }
  | refuse : state.queue.dumper = some ⟨handle, rest, ctx, copied, .submitting⟩ →
    DumpStep config state (.submit false)
      (state.turnTo (some ⟨handle, rest, ctx, copied, .dropping true⟩))
  | condemn : state.queue.dumper = some ⟨handle, rest, ctx, copied, .condemning (got :: left)⟩ →
    DumpStep config state .condemn
      ((state.setBuffer (state.shared.buffer.markBy config.core got .FAILED)).turnTo
        (some ⟨handle, rest, ctx, copied, .condemning left⟩))
  | condemned : state.queue.dumper = some ⟨handle, rest, ctx, copied, .condemning []⟩ →
    DumpStep config state .condemn (state.turnTo (some ⟨handle, rest, ctx, copied, .dropping true⟩))
  | drop : state.queue.dumper = some ⟨handle, rest, held :: ctx, copied, .dropping failed⟩ →
    DumpStep config state .drop
      ((state.setBuffer (state.shared.buffer.release config.core held.2)).turnTo
        (some ⟨handle, rest, ctx, copied, .dropping failed⟩))
  | dropped : state.queue.dumper = some ⟨handle, rest, [], copied, .dropping failed⟩ →
    DumpStep config state .drop (state.turnTo (some ⟨handle, rest, [], copied, .finishing failed⟩))
  | finish : state.queue.dumper = some ⟨handle, rest, ctx, copied, .finishing failed⟩ →
    DumpStep config state .finish { state with
      wrapper := (if failed then state.wrapper.fail handle else state.wrapper).done handle
      queue := { state.queue with dumper := none } }
  | pop : state.queue.stage = none → state.queue.dumping = ctx :: rest →
    DumpStep config state .pop { state with queue := { state.queue with
      dumping := rest
      stage := some (ctx, true) } }
  | wait : state.queue.stage = some (ctx, true) →
    (config.core = .v2 ∨ state.queue.finishedBackendTaskHandle < ctx.backend) →
    DumpStep config state .wait { state with queue := { state.queue with
      dumps := state.queue.dumps.filter fun dump => dump.1 ≠ ctx.backend
      finishedBackendTaskHandle := ctx.backend
      stage := some (ctx, false) } }
  | waitless : state.queue.stage = some (ctx, true) → config.core = .cc →
    ctx.backend ≤ state.queue.finishedBackendTaskHandle →
    DumpStep config state .wait
      { state with queue := { state.queue with stage := some (ctx, false) } }
  | release : state.queue.stage = some (⟨backend, held :: handles⟩, false) →
    DumpStep config state .release {
      shared := state.shared.setBuffer (state.shared.buffer.release config.core held.2)
      wrapper := state.wrapper
      queue := { state.queue with stage := some (⟨backend, handles⟩, false) } }
  | released : state.queue.stage = some (⟨backend, []⟩, false) →
    DumpStep config state .release { state with queue := { state.queue with stage := none } }
  | close : config.core = .v2 →
    DumpStep config state .close { state with queue := { state.queue with stop := true } }
  | drainWaiting : state.queue.dumper = none → state.queue.waiting = handle :: rest →
    state.queue.stop = true →
    DumpStep config state .drainWaiting {
      shared := state.shared
      wrapper := (state.wrapper.fail handle).done handle
      queue := { state.queue with waiting := rest } }

namespace DumpStep
variable {cfg : Config} {state next : DumpState}

section

theorem of_take (h : state.take = some next) : DumpStep cfg state .take next := by
  unfold DumpState.take at h
  split at h
  · rename_i hn hw
    split at h
    · cases h
    split at h
    · cases h
    rename_i ht
    split at h
    · rename_i hf
      cases h
      exact .turnAway hn hw hf
    · rename_i hc
      cases h
      exact .take hn hw ht (by simpa using hc)
  · cases h

variable {ok : Bool}

theorem of_event (h : state.event ok = some next) : DumpStep cfg state (.event ok) next := by
  unfold DumpState.event at h
  split at h
  · rename_i hd
    split at h
    · rename_i ho
      cases h
      subst ho
      exact .event true hd
    rename_i ho
    rw [Bool.not_eq_true] at ho
    subst ho
    split at h
    · cases h
      exact .event false hd
    · cases h
  · cases h

theorem of_get {v : Nat} (h : state.get cfg v = some next) : DumpStep cfg state (.get v) next := by
  unfold DumpState.get at h
  split at h
  · rename_i hd
    obtain ⟨⟨got, b⟩, hg, rfl⟩ := Option.map_eq_some_iff.1 h
    exact .get hd hg
  · cases h

theorem of_skip (h : state.skip cfg = some next) : DumpStep cfg state .skip next := by
  unfold DumpState.skip at h
  split at h
  · rename_i hd
    split at h
    · cases h
    · rename_i ho
      cases h
      exact .skip hd (by simpa using ho)
  · cases h

theorem of_keep (h : state.keep = some next) : DumpStep cfg state .keep next := by
  unfold DumpState.keep at h
  split at h
  · rename_i hd
    split at h
    · rename_i hk
      simp only [Bool.and_eq_true, decide_eq_true_eq] at hk
      cases h
      exact .keep hd hk.1 hk.2
    · cases h
  · cases h

theorem of_copy {i : Bool} (h : state.copy cfg ok i = some next) :
    DumpStep cfg state (.copy ok i) next := by
  unfold DumpState.copy at h
  split at h
  · rename_i hd
    split at h
    · rename_i hn
      simp only [Bool.and_eq_true, decide_eq_true_eq] at hn
      obtain ⟨ho, hs⟩ := hn
      cases ok with
      | true =>
        cases h
        exact .copy i hd ho hs
      | false =>
        cases h
        by_cases hb : (i && cfg.core = .cc) = true
        · rw [if_pos hb]
          simp only [Bool.and_eq_true, decide_eq_true_eq] at hb
          obtain ⟨rfl, hc⟩ := hb
          exact .copyBroken hd ho hs hc
        · rw [if_neg hb]
          exact .copyFailed hd ho hs (by simpa using hb)
    · cases h
  · cases h

theorem of_gathered (h : state.gathered cfg = some next) : DumpStep cfg state .gathered next := by
  unfold DumpState.gathered at h
  split at h
  · rename_i hd
    split at h
    · rename_i he
      subst he
      cases h
      exact .nothing hd
    rename_i hm
    split at h
    · rename_i hs
      cases h
      exact .gathered hd hm hs
    rename_i hs
    cases h
    have hc : cfg.core = .v2 := by
      cases hc : cfg.core with
      | cc => exact absurd (.inl hc) hs
      | v2 => rfl
    exact .unsynced hd hm hc (by omega)
  · cases h

theorem of_submit {a : Bool} (h : state.submit cfg a = some next) :
    DumpStep cfg state (.submit a) next := by
  unfold DumpState.submit at h
  split at h
  · rename_i hd
    cases a with
    | true =>
      cases h
      exact .submit hd
    | false =>
      cases h
      exact .refuse hd
  · cases h

end

section

theorem of_pop (h : state.pop = some next) : DumpStep cfg state .pop next := by
  unfold DumpState.pop at h
  split at h
  · rename_i hs hd
    split at h
    · cases h
    · cases h
      exact .pop hs hd
  · cases h

theorem of_wait (h : state.wait cfg = some next) : DumpStep cfg state .wait next := by
  unfold DumpState.wait at h
  split at h
  · rename_i hs
    split at h
    · rename_i hw
      cases h
      exact .wait hs hw
    rename_i hw
    cases h
    have hc : cfg.core = .cc := by
      cases hc : cfg.core with
      | cc => rfl
      | v2 => exact absurd (.inl hc) hw
    exact .waitless hs hc (Nat.le_of_not_lt fun hl => hw (.inr hl))
  · cases h

end

theorem of_close (h : state.close cfg = some next) : DumpStep cfg state .close next := by
  unfold DumpState.close at h
  split at h
  · cases h
  · rename_i hc
    cases h
    exact .close hc

theorem of_step {m : DumpMove} (h : state.step cfg m = some next) : DumpStep cfg state m next := by
  cases m with
  | take => exact of_take h
  | event => exact of_event h
  | get => exact of_get h
  | skip => exact of_skip h
  | keep => exact of_keep h
  | copy => exact of_copy h
  | gathered => exact of_gathered h
  | submit => exact of_submit h
  | pop => exact of_pop h
  | wait => exact of_wait h
  | close => exact of_close h
  | drainWaiting =>
    simp only [DumpState.step, DumpState.drainWaiting] at h
    split at h
    · split at h <;> cases h
      constructor <;> assumption
    · cases h
  | sync | mark | condemn | drop | finish | release =>
    simp only [DumpState.step, DumpState.sync, DumpState.mark, DumpState.condemn, DumpState.drop,
      DumpState.finish, DumpState.release] at h
    split at h <;> cases h
    all_goals
      constructor
      assumption

end DumpStep
end UnifiedCache.Cache
