import UnifiedCache.Cache.LoadQueue

/-! What the threads of a load queue can do: the branches of `LoadState.step`, each with the
condition under which it is taken. Every invariant of the queue goes by these cases. -/
namespace UnifiedCache.Cache
open Store

inductive LoadStep (config : Config) (state : LoadState) : LoadMove → LoadState → Prop where
  | turnAway : state.queue.dispatcher = .idle → state.queue.waiting = handle :: rest →
    state.queue.stop = false → state.wrapper.failureSet handle = true →
    LoadStep config state .take { state with
      wrapper := state.wrapper.done handle
      queue := { state.queue with waiting := rest } }
  | take : state.queue.dispatcher = .idle → state.queue.waiting = handle :: rest →
    state.queue.stop = false → state.wrapper.task? handle = some task →
    state.wrapper.failureSet handle = false →
    LoadStep config state .take { state with queue := { state.queue with
      waiting := rest
      dispatcher := .go handle 0 (config.upcoming task) (config.order task) } }
  | get : state.queue.dispatcher = .shards handle position index rest →
    state.wrapper.task? handle = some task → task.desc[index]? = some key →
    state.shared.buffer.get config.core
      ⟨key, config.cacheLoadBackendOnly, config.mayOwn task index⟩ victim = some (got, buffer) →
    LoadStep config state (.get victim)
      ((state.setBuffer buffer).goTo (.holding handle position rest key got))
  | load : state.queue.dispatcher = .holding handle position rest key got →
    state.missing got = true → config.reaches got.node = true →
    LoadStep config state (.load true) {
      shared := { state.shared with nextBackend := state.shared.nextBackend + 1 }
      wrapper := state.wrapper
      queue := { state.queue with
        dispatcher := .pushing (LoadState.item handle position rest key got
          (some state.shared.nextBackend)) position rest
        loads := state.queue.loads ++ [(state.shared.nextBackend, got.node)] } }
  | refuse : state.queue.dispatcher = .holding handle position rest key got →
    state.missing got = true →
    LoadStep config state (.load false)
      ((state.setBuffer (state.shared.buffer.markBy config.core got .FAILED)).goTo
        (.refused handle got))
  | pass : state.queue.dispatcher = .holding handle position rest key got →
    state.missing got = false →
    LoadStep config state .pass
      (state.goTo (.pushing (LoadState.item handle position rest key got none) position rest))
  | push : state.queue.dispatcher = .pushing shard position rest →
    state.wrapper.task? shard.task = some task →
    LoadStep config state .push { state with queue := { state.queue with
      dispatcher := .go shard.task (position + 1) (config.upcoming task) rest
      running := state.queue.running ++ [shard] } }
  | fail : state.queue.dispatcher = .refused handle got → LoadStep config state .fail
      ((state.setWrapper ((state.wrapper.fail handle).done handle)).goTo (.dropping got))
  | drop : state.queue.dispatcher = .dropping got → LoadStep config state .drop
      ((state.setBuffer (state.shared.buffer.release config.core got)).goTo .idle)
  | prealloc : state.queue.dispatcher = .preallocating (key :: keys) →
    state.shared.buffer.prealloc config.core key victim = some buffer →
    LoadStep config state (.prealloc victim) ((state.setBuffer buffer).goTo (.preallocating keys))
  | rest : state.queue.dispatcher = .preallocating [] →
    LoadStep config state .rest (state.goTo .idle)
  | pop : state.queue.transfer = none → state.queue.running = shard :: rest →
    state.queue.stop = false →
    LoadStep config state .pop { state with queue := { state.queue with
      running := rest
      transfer := some ⟨shard, .start⟩ } }
  | skip : state.queue.transfer = some ⟨shard, .start⟩ →
    state.wrapper.failureSet shard.task = true → config.core = .cc →
    LoadStep config state .check
      (state.turnTo (some ⟨shard, if shard.last then .clearing false else .dropping⟩))
  | condemn : state.queue.transfer = some ⟨shard, .start⟩ →
    state.wrapper.failureSet shard.task = true → config.core = .v2 →
    LoadStep config state .check
      ((state.setBuffer (state.condemned config shard)).turnTo (some ⟨shard, .failing⟩))
  | proceed : state.queue.transfer = some ⟨shard, .start⟩ →
    state.wrapper.failureSet shard.task = false →
    LoadStep config state .check (state.turnTo (some ⟨shard, .waiting⟩))
  | wait (ok : Bool) : state.queue.transfer = some ⟨shard, .waiting⟩ →
    shard.backend = some backend →
    LoadStep config state (.wait ok) (state.waited config shard backend ok)
  | found : state.queue.transfer = some ⟨shard, .waiting⟩ → shard.backend = none →
    state.shared.state shard.handle = .READY →
    LoadStep config state .poll (state.turnTo (some ⟨shard, .event⟩))
  | lost : state.queue.transfer = some ⟨shard, .waiting⟩ → shard.backend = none →
    LoadStep config state .poll (state.turnTo (some ⟨shard, .failing⟩))
  | event (ok : Bool) : state.queue.transfer = some ⟨shard, .event⟩ →
    LoadStep config state (.event ok)
      (state.turnTo (some ⟨shard, if ok then .copying else .failing⟩))
  | copyLast (issued : Bool) : state.queue.transfer = some ⟨shard, .copying⟩ → shard.last = true →
    LoadStep config state (.copy true issued) { state with queue := { state.queue with
      copies := state.queue.copies ++ [(shard.handle.node, shard.task)]
      transfer := some ⟨shard, .syncing⟩ } }
  | copy (issued : Bool) : state.queue.transfer = some ⟨shard, .copying⟩ → shard.last = false →
    LoadStep config state (.copy true issued) { state with queue := { state.queue with
      copies := state.queue.copies ++ [(shard.handle.node, shard.task)]
      transfer := none
      holder := state.queue.holder ++ [shard] } }
  | copyFailed : state.queue.transfer = some ⟨shard, .copying⟩ →
    (issued && config.core = .cc) = false →
    LoadStep config state (.copy false issued) (state.turnTo (some ⟨shard, .failing⟩))
  | copyBroken : state.queue.transfer = some ⟨shard, .copying⟩ → config.core = .cc →
    LoadStep config state (.copy false true) { state with queue := { state.queue with
      copies := state.queue.copies ++ [(shard.handle.node, shard.task)]
      transfer := some ⟨shard, .failing⟩ } }
  | sync (ok : Bool) : state.queue.transfer = some ⟨shard, .syncing⟩ →
    LoadStep config state (.sync ok) { state with queue := { state.queue with
      copies := []
      transfer := some ⟨shard, .clearing (!ok)⟩ } }
  | clear : state.queue.transfer = some ⟨shard, .clearing failed⟩ →
    state.queue.holder = held :: rest →
    LoadStep config state .clear {
      shared := state.shared.setBuffer (state.shared.buffer.release config.core held.handle)
      wrapper := state.wrapper
      queue := { state.queue with holder := rest } }
  | cleared : state.queue.transfer = some ⟨shard, .clearing failed⟩ → state.queue.holder = [] →
    LoadStep config state .clear
      (state.turnTo (some ⟨shard, if failed then .failing else .finishing⟩))
  | report : state.queue.transfer = some ⟨shard, .failing⟩ → LoadStep config state .report
      ((state.setWrapper (state.wrapper.fail shard.task)).turnTo (some ⟨shard,
        if config.core = .v2 ∧ state.queue.holder ≠ [] then .releasing else .finishing⟩))
  | resync : state.queue.transfer = some ⟨shard, .releasing⟩ →
    LoadStep config state .resync { state with queue := { state.queue with
      copies := []
      transfer := some ⟨shard, .clearing false⟩ } }
  | finish : state.queue.transfer = some ⟨shard, .finishing⟩ →
    LoadStep config state .finish ((state.setWrapper
      (if shard.last then state.wrapper.done shard.task else state.wrapper)).turnTo
        (some ⟨shard, .dropping⟩))
  | discard : state.queue.transfer = some ⟨shard, .dropping⟩ → LoadStep config state .discard
      ((state.setBuffer (state.shared.buffer.release config.core shard.handle)).turnTo none)
  | close : config.core = .v2 →
    LoadStep config state .close { state with queue := { state.queue with stop := true } }
  | drainWaiting : state.queue.dispatcher = .idle → state.queue.waiting = handle :: rest →
    state.queue.stop = true →
    LoadStep config state .drainWaiting {
      shared := state.shared
      wrapper := (state.wrapper.fail handle).done handle
      queue := { state.queue with waiting := rest } }
  | drainRunning : state.queue.dispatcher = .idle → state.queue.waiting = [] →
    state.queue.transfer = none → state.queue.running = shard :: rest →
    state.queue.stop = true →
    LoadStep config state .drainRunning {
      shared := state.shared.setBuffer (state.shared.buffer.release config.core shard.handle)
      wrapper := if shard.last then (state.wrapper.fail shard.task).done shard.task
        else state.wrapper.fail shard.task
      queue := { state.queue with running := rest } }

namespace LoadStep
variable {cfg : Config} {state next : LoadState}

section

theorem of_take (h : state.take cfg = some next) : LoadStep cfg state .take next := by
  unfold LoadState.take at h
  split at h
  · rename_i hd hw
    split at h
    · cases h
    rename_i hs
    split at h
    · cases h
    rename_i ht
    split at h
    · rename_i hf
      cases h
      exact .turnAway hd hw (by simpa using hs) hf
    · rename_i hc
      cases h
      exact .take hd hw (by simpa using hs) ht (by simpa using hc)
  · cases h

theorem of_get {v : Nat} (h : state.get cfg v = some next) : LoadStep cfg state (.get v) next := by
  unfold LoadState.get at h
  split at h
  · rename_i hd
    split at h
    · cases h
    rename_i ht
    split at h
    · cases h
    · rename_i hk
      obtain ⟨⟨got, b⟩, hg, rfl⟩ := Option.map_eq_some_iff.1 h
      exact .get hd ht hk hg
  · cases h

theorem of_load {a : Bool} (h : state.load cfg a = some next) :
    LoadStep cfg state (.load a) next := by
  unfold LoadState.load at h
  split at h
  · rename_i hd
    split at h
    · rename_i hm
      cases a with
      | false =>
        cases h
        exact .refuse hd hm
      | true =>
        rw [if_pos rfl] at h
        split at h
        · rename_i hr
          cases h
          exact .load hd hm hr
        · cases h
    · cases h
  · cases h

theorem of_pass (h : state.pass = some next) : LoadStep cfg state .pass next := by
  unfold LoadState.pass at h
  split at h
  · rename_i hd
    split at h
    · cases h
    · rename_i ht
      cases h
      exact .pass hd (by simpa using ht)
  · cases h

theorem of_prealloc {v : Option Nat} (h : state.prealloc cfg v = some next) :
    LoadStep cfg state (.prealloc v) next := by
  unfold LoadState.prealloc at h
  split at h
  · rename_i hd
    obtain ⟨b, hp, rfl⟩ := Option.map_eq_some_iff.1 h
    exact .prealloc hd hp
  · cases h

end

section

theorem of_pop (h : state.pop = some next) : LoadStep cfg state .pop next := by
  unfold LoadState.pop at h
  split at h
  · rename_i hn hr
    split at h
    · cases h
    · rename_i hs
      cases h
      exact .pop hn hr (by simpa using hs)
  · cases h

theorem of_check (h : state.check cfg = some next) : LoadStep cfg state .check next := by
  unfold LoadState.check at h
  split at h
  · rename_i ht
    split at h
    · rename_i hf
      split at h
      · rename_i hc
        cases h
        exact .skip ht hf hc
      · rename_i hc
        cases h
        exact .condemn ht hf hc
    · rename_i hl
      cases h
      exact .proceed ht (by simpa using hl)
  · cases h

variable {ok : Bool}

theorem of_poll (h : state.poll = some next) : LoadStep cfg state .poll next := by
  unfold LoadState.poll at h
  split at h
  · rename_i ht
    split at h
    · cases h
    rename_i hb
    split at h
    · rename_i hr
      cases h
      exact .found ht hb hr
    split at h
    · cases h
      exact .lost ht hb
    · cases h
  · cases h

theorem of_event (h : state.event ok = some next) : LoadStep cfg state (.event ok) next := by
  unfold LoadState.event at h
  split at h
  · rename_i ht
    split at h
    · rename_i ho
      cases h
      subst ho
      exact .event true ht
    rename_i ho
    rw [Bool.not_eq_true] at ho
    subst ho
    split at h
    · cases h
      exact .event false ht
    · cases h
  · cases h

theorem of_copy {i : Bool} (h : state.copy cfg ok i = some next) :
    LoadStep cfg state (.copy ok i) next := by
  unfold LoadState.copy at h
  split at h
  · rename_i ht
    cases ok with
    | true =>
      rw [if_pos rfl] at h
      split at h
      · rename_i hl
        cases h
        exact .copyLast i ht hl
      · rename_i hl
        cases h
        exact .copy i ht (by simpa using hl)
    | false =>
      cases h
      by_cases hb : (i && cfg.core = .cc) = true
      · rw [if_pos hb]
        simp only [Bool.and_eq_true, decide_eq_true_eq] at hb
        obtain ⟨rfl, hc⟩ := hb
        exact .copyBroken ht hc
      · rw [if_neg hb]
        exact .copyFailed ht (by simpa using hb)
  · cases h

theorem of_clear (h : state.clear cfg = some next) : LoadStep cfg state .clear next := by
  unfold LoadState.clear at h
  split at h
  · rename_i ht
    split at h
    · rename_i hh
      cases h
      exact .clear ht hh
    · rename_i hh
      cases h
      exact .cleared ht hh
  · cases h

end

theorem of_close (h : state.close cfg = some next) : LoadStep cfg state .close next := by
  unfold LoadState.close at h
  split at h
  · cases h
  · rename_i hc
    cases h
    exact .close hc

theorem of_step {m : LoadMove} (h : state.step cfg m = some next) : LoadStep cfg state m next := by
  cases m with
  | take => exact of_take h
  | get => exact of_get h
  | load => exact of_load h
  | pass => exact of_pass h
  | prealloc => exact of_prealloc h
  | pop => exact of_pop h
  | check => exact of_check h
  | poll => exact of_poll h
  | event => exact of_event h
  | copy => exact of_copy h
  | clear => exact of_clear h
  | close => exact of_close h
  | push | wait | drainWaiting | drainRunning =>
    simp only [LoadState.step, LoadState.push, LoadState.wait, LoadState.drainWaiting,
      LoadState.drainRunning] at h
    split at h
    · split at h <;> cases h
      constructor <;> assumption
    · cases h
  | fail | drop | rest | sync | report | resync | finish | discard =>
    simp only [LoadState.step, LoadState.fail, LoadState.drop, LoadState.rest, LoadState.sync,
      LoadState.report, LoadState.resync, LoadState.finish, LoadState.discard] at h
    split at h <;> cases h
    constructor
    assumption

end LoadStep
end UnifiedCache.Cache
