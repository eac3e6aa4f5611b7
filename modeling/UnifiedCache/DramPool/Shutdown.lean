import UnifiedCache.DramPool.Schedules
import UnifiedCache.DramPool.ServerThreads

/-! What is left in the queues when the threads of a server have returned. -/
namespace UnifiedCache.DramPool
open Dram SpscQueue

structure Shared.SameFlags (shared after : Shared) : Prop where
  workerStop : after.workerStop = shared.workerStop
  pollerStop : after.pollerStop = shared.pollerStop

namespace Worker
variable {cfg : ServerConfig} {others : List Call} {shared after : Shared}
  {worker next : Worker}

section
variable (hst : Step cfg others shared worker after next)
include hst

theorem Step.sameFlags : shared.SameFlags after := by
  cases hst <;> exact ⟨rfl, rfl⟩

theorem Step.not_exited : worker ≠ .exited := by
  cases hst <;> simp

end

theorem start_ne_exited (now : TimePoint) (clock : Nat) (task : RequestTask) :
    start cfg now clock task ≠ .exited ∧ start cfg now clock task ≠ .polled := by
  unfold start
  split
  · simp
  · split <;> split <;> simp

section
variable (hst : Step cfg others shared worker after next)
include hst

theorem Step.requests (h : shared.requestQueue.contents = []) :
    after.requestQueue.contents = [] := by
  cases hst with
  | pop _ hp =>
    rw [tryPop_eq_none.2 h] at hp
    cases hp
  | _ => exact h

theorem Step.polled (h : next = .polled) : shared.requestQueue.contents = [] := by
  cases hst with
  | popEmpty hp => exact tryPop_eq_none.1 hp
  | pop now => exact absurd h (start_ne_exited now _ _).2
  | stopRead =>
    split at h <;> cases h
  | dumpEnd =>
    unfold finishDump at h
    split at h <;> cases h
  | loadEnd =>
    unfold finishLoad at h
    split at h <;> cases h
  | exist | _ => cases h

theorem Step.exited (h : next = .exited) : worker = .polled ∧ shared.workerStop = true := by
  cases hst with
  | pop now => exact absurd h (start_ne_exited now _ _).1
  | stopRead =>
    split at h
    · exact ⟨rfl, ‹_›⟩
    · cases h
  | dumpEnd =>
    unfold finishDump at h
    split at h <;> cases h
  | loadEnd =>
    unfold finishLoad at h
    split at h <;> cases h
  | _ => cases h

end
end Worker

namespace Poller
variable {cfg : ServerConfig} {others : List Call} {shared after : Shared}
  {poller next : Poller}

section
variable (hst : Step cfg others shared poller after next)
include hst

theorem Step.sameFlags : shared.SameFlags after ∧ after.requestQueue = shared.requestQueue := by
  cases hst <;> exact ⟨⟨rfl, rfl⟩, rfl⟩

theorem Step.completions (h : shared.completionQueue.contents = []) :
    after.completionQueue.contents = [] := by
  cases hst with
  | fill _ hp =>
    rw [tryPop_eq_none.2 h] at hp
    cases hp
  | _ => exact h

theorem Step.filled (hd : 0 < cfg.pollerPendingDepth) (h : next = .filled []) :
    shared.completionQueue.contents = [] := by
  cases hst with
  | fillEmpty _ hp => exact tryPop_eq_none.1 hp
  | fillFull hf =>
    cases h
    exact absurd hd (by simpa using hf)
  | stopRead =>
    split at h
    · split at h <;> cases h
    · cases h
  | _ => cases h

theorem Step.exited (h : next = .exited) : poller = .filled [] ∧ shared.pollerStop = true := by
  cases hst with
  | stopRead =>
    split at h
    · rename_i he
      split at h
      · exact ⟨by rw [he], ‹_›⟩
      · cases h
    · cases h
  | _ => cases h

end

/-- The record that is looked at has no unsettled item and its response is over, or
cannot be sent. -/
def Finishing : Poller → Prop
  | .responding cursor => cursor.record.transfer_items = []
  | .scanning _ (record :: _) =>
    record.stage = .pollResponseTransfer ∧ record.transfer_items = []
  | _ => False

theorem Step.finishing (hst : Step cfg others shared poller after next) (hf : poller.Formed)
    (hl : after.completionQueue.contents.length + next.window.length <
      shared.completionQueue.contents.length + poller.window.length) : poller.Finishing := by
  cases hst with
  | fill _ hp =>
    simp [contents_of_pop hp, window] at hl
    omega
  | stopRead =>
    split at hl
    · split at hl <;> simp_all [window]
    · simp [window] at hl
  | submitResponse => exact hf.2
  | responseTerminal hs =>
    have hd := hf.1 _ (List.mem_append_right _ List.mem_cons_self)
    exact ⟨hs, hd (by simp [hs])⟩
  | _ => simp [window] at hl

end Poller

theorem Worker.Step.records {cfg : ServerConfig} {others : List Call} {shared after : Shared}
    {worker next : Worker} (hst : Worker.Step cfg others shared worker after next) :
    shared.completionQueue.contents.length ≤ after.completionQueue.contents.length := by
  cases hst with
  | push hp => simp [contents_of_push hp]
  | _ => exact Nat.le_refl _

namespace Server
variable {config : ServerConfig} {setup : Setup} {s t : Server}

def records (s : Server) : Nat :=
  s.shared.completionQueue.contents.length + s.poller.window.length

/-- When `Stop` sets the flag of a consumer, that consumer is not between an empty
poll and the read of its flag while something waits in its queue. -/
def Timely (s t : Server) : Prop :=
  (s.shared.workerStop = false → t.shared.workerStop = true → s.worker = .polled →
    s.shared.requestQueue.contents = []) ∧
  (s.shared.pollerStop = false → t.shared.pollerStop = true → s.poller = .filled [] →
    s.shared.completionQueue.contents = [])

structure Draining (s : Server) : Prop where
  worker : s.shared.workerStop = true → s.receiver = .exited ∧
    (s.worker = .polled ∨ s.worker = .exited → s.shared.requestQueue.contents = [])
  workerExited : s.worker = .exited → s.shared.workerStop = true
  poller : s.shared.pollerStop = true → s.worker = .exited ∧
    (s.poller = .filled [] ∨ s.poller = .exited → s.shared.completionQueue.contents = [])
  pollerExited : s.poller = .exited → s.shared.pollerStop = true

theorem Draining.receiver_step (h : s.Draining) (hr : s.receiver ≠ .exited)
    (receiver : Receiver) (requestQueue : SpscQueue RequestTask) :
    Draining { s with shared := { s.shared with requestQueue }, receiver } where
  worker hs := absurd (h.worker hs).1 hr
  workerExited := h.workerExited
  poller := h.poller
  pollerExited := h.pollerExited

theorem Draining.worker_step {after : Shared} {next : Worker} (h : s.Draining)
    (hst : Worker.Step config (s.poller.calls ++ s.gc.toList) s.shared s.worker after next) :
    Draining { s with shared := after, worker := next } := by
  obtain ⟨hw, ho⟩ := hst.sameFlags
  constructor
  · intro hs
    obtain ⟨hr, hq⟩ := h.worker (hw ▸ hs)
    refine ⟨hr, ?_⟩
    rintro (hp | he)
    · exact hst.requests (hst.polled hp)
    · exact hst.requests (hq (.inl (hst.exited he).1))
  · exact fun he => hw.trans (hst.exited he).2
  · exact fun hs => absurd (h.poller (ho ▸ hs)).1 hst.not_exited
  · exact fun he => ho.trans (h.pollerExited he)

theorem Draining.poller_step {after : Shared} {next : Poller} (h : s.Draining)
    (hd : 0 < config.pollerPendingDepth)
    (hst : Poller.Step config (s.worker.calls ++ s.gc.toList) s.shared s.poller after next) :
    Draining { s with shared := after, poller := next } := by
  obtain ⟨⟨ho, hp⟩, hr⟩ := hst.sameFlags
  constructor
  · intro hs
    obtain ⟨hc, hq⟩ := h.worker (ho ▸ hs)
    exact ⟨hc, fun hw => (congrArg _ hr).trans (hq hw)⟩
  · exact fun he => ho.trans (h.workerExited he)
  · intro hs
    obtain ⟨hw, hq⟩ := h.poller (hp ▸ hs)
    refine ⟨hw, ?_⟩
    rintro (hf | he)
    · exact hst.completions (hst.filled hd hf)
    · exact hst.completions (hq (.inl (hst.exited he).1))
  · exact fun he => hp.trans (hst.exited he).2

theorem Move.draining (hm : Move config s t) (hd : 0 < config.pollerPendingDepth)
    (ht : Timely s t) (h : s.Draining) : t.Draining := by
  cases hm with
  | receive _ _ hr | allowTask hr | abandonTask hr | pushTask hr
  | pushFull hr => exact h.receiver_step (by simp [hr]) _ _
  | receiverExit =>
    exact { h with worker := fun hsp => ⟨rfl, (h.worker hsp).2⟩ }
  | worker hst => exact h.worker_step hst
  | poller hst => exact h.poller_step hd hst
  | stopWorker _ hr =>
    refine ⟨fun _ => ⟨hr, ?_⟩, fun _ => rfl, h.poller, h.pollerExited⟩
    rintro (hp | he)
    · cases hs : s.shared.workerStop with
      | true => exact (h.worker hs).2 (.inl hp)
      | false => exact ht.1 hs rfl hp
    · exact (h.worker (h.workerExited he)).2 (.inr he)
  | stopPoller _ hw =>
    refine ⟨h.worker, h.workerExited, fun _ => ⟨hw, ?_⟩, fun _ => rfl⟩
    rintro (hf | he)
    · cases hs : s.shared.pollerStop with
      | true => exact (h.poller hs).2 (.inl hf)
      | false => exact ht.2 hs rfl hf
    · exact (h.poller (h.pollerExited he)).2 (.inr he)
  | _ => exact { h with }

theorem reachable_draining (hd : 0 < config.pollerPendingDepth)
    (h : Transition.Reachable ((system config setup).restrict fun s _ t => Timely s t) s) :
    s.Draining := by
  apply h.invariant (I := Draining)
  · rintro s ⟨b, flagBufferPool, _, _, -, -, rfl⟩
    exact ⟨nofun, nofun, nofun, nofun⟩
  · rintro s _ _ - hs ⟨⟨u, hm, rfl⟩, ht⟩
    have hu := hm.draining hd ht hs
    exact { hu with }

theorem Move.finishing (hm : Move config s t) (hf : s.Formed)
    (hl : t.records < s.records) : s.poller.Finishing := by
  cases hm with
  | worker hst =>
    have hr := hst.records
    simp only [records] at hl
    omega
  | poller hst => exact hst.finishing hf.poller hl
  | _ => exact absurd hl (Nat.lt_irrefl _)

/-- In every run in which the stop flags are set in time: nothing is left for a
thread that has returned, and a record leaves only when it is settled and answered. -/
theorem stop_drains (hdepth : 0 < config.pollerPendingDepth)
    (h : Transition.Reachable ((system config setup).restrict fun s _ t => Timely s t) s) :
    (s.worker = .exited → s.shared.requestQueue.contents = []) ∧
    (s.poller = .exited → s.worker = .exited ∧ s.shared.completionQueue.contents = [] ∧
      s.poller.window = []) ∧
    ∀ t, (system config setup).step s () t → t.records < s.records → s.poller.Finishing := by
  have hs := reachable_draining hdepth h
  refine ⟨?_, ?_, ?_⟩
  · exact fun he => (hs.worker (hs.workerExited he)).2 (.inr he)
  · intro he
    obtain ⟨hw, hq⟩ := hs.poller (hs.pollerExited he)
    exact ⟨hw, hq (.inr he), by rw [he]; rfl⟩
  · rintro _ ⟨u, hm, rfl⟩ hl
    exact hm.finishing (reachable_formed h.of_restrict) hl

theorem Timely.of_same (h : s.shared.SameFlags t.shared) : Timely s t := by
  constructor
  · intro hf ht
    rw [h.workerStop, hf] at ht
    cases ht
  · intro hf ht
    rw [h.pollerStop, hf] at ht
    cases ht

theorem Move.receiving (hm : Move config s t) (h : t.receiver ≠ .exited) :
    s.receiver ≠ .exited := by
  cases hm <;> simp_all

/-- As long as the receiver runs, no stop flag of a consumer is set. -/
theorem reachable_timely (h : Transition.Reachable (system config setup) s)
    (hd : 0 < config.pollerPendingDepth) (hr : s.receiver ≠ .exited) :
    Transition.Reachable ((system config setup).restrict fun s _ t => Timely s t) s := by
  induction h with
  | start hi => exact .start hi
  | next _ hst ih =>
    obtain ⟨u, hm, rfl⟩ := hst
    have hp := hm.receiving hr
    have hs := ih hp
    have hg := reachable_draining hd hs
    refine hs.next (a := ()) ⟨⟨u, hm, rfl⟩, ?_⟩
    cases hm with
    | worker hst => exact .of_same ⟨hst.sameFlags.workerStop, hst.sameFlags.pollerStop⟩
    | poller hst => exact .of_same ⟨hst.sameFlags.1.workerStop, hst.sameFlags.1.pollerStop⟩
    | stopWorker _ he => exact absurd he hp
    | stopPoller _ he => exact absurd (hg.worker (hg.workerExited he)).1 hp
    | _ => exact .of_same ⟨rfl, rfl⟩

theorem submitted_stocked {pool : BufferPool}
    (hp : BufferPool.init "drampool_flag_buffer_pool" oneSlot.flagBufferSlotSizeBytes
      deepQueues.flagBufferSlotCount deepQueues.flagBufferSlotAlignment
        (deepQueues.localAddr 0) = .ok pool)
    (record : CompletionRecord) (ho : record.opcode = .dump) (hi : record.request_id = 1)
    (hr : record.results = [DumpLoadResult.ok.toByte]) :
    ∃ bytes taken sent, Poller.submitResponse 1 bytes pool record = (taken, some sent) ∧
      sent.opcode = .dump ∧ sent.request_id = 1 ∧ sent.stage = .pollResponseTransfer := by
  cases ha : pool.allocate with
  | error status =>
    have hn := ((BufferPool.partition_init hp).allocate_error ha).1
    rw [(BufferPool.slotNum_init hp).1] at hn
    cases hn
  | ok slot =>
    obtain ⟨bytes, packed, hk⟩ : ∃ bytes packed, packResponse (some bytes) .dump
        ⟨1, [DumpLoadResult.ok.toByte]⟩ = .ok packed := ⟨List.replicate 16 0, _, rfl⟩
    exact ⟨bytes, slot.2, { record with
      response_handle := 1, local_resp_slot := slot.1.slotIndex, results := []
      stage := .pollResponseTransfer },
      by simp [Poller.submitResponse, ha, ho, hi, hr, hk, kInvalidTransferHandle], ho, hi, rfl⟩

theorem stopped_idle {shared : Shared} (hd : 0 < config.pollerPendingDepth)
    (h : Transition.Reachable ((system config setup).restrict fun s _ t => Timely s t)
      { shared, worker := .polling, poller := .filling [] })
    (hq : shared.requestQueue.contents = []) (hc : shared.completionQueue.contents = []) :
    ∃ s, Transition.Reachable ((system config setup).restrict fun s _ t => Timely s t) s ∧
      s.worker = .exited ∧ s.poller = .exited ∧ s.shared.manager = shared.manager := by
  have ho := tryPop_eq_none.2 hq
  have hm := tryPop_eq_none.2 hc
  have h := reach_move h .stopReceiver (.of_same ⟨rfl, rfl⟩)
  have h := reach_move h (.receiverExit rfl) (.of_same ⟨rfl, rfl⟩)
  have h := reach_move h (.stopWorker rfl rfl) ⟨by simp, by simp⟩
  have h := reach_move h (.worker (.popEmpty ho)) (.of_same ⟨rfl, rfl⟩)
  have h := reach_move h (.worker .stopRead) (.of_same ⟨rfl, rfl⟩)
  have h := reach_move h (.stopPoller rfl rfl) ⟨by simp [observe], by simp⟩
  have h := reach_move h (.poller (.fillEmpty hd hm)) (.of_same ⟨rfl, rfl⟩)
  have h := reach_move h (.poller .stopRead) (.of_same ⟨rfl, rfl⟩)
  exact ⟨_, h, rfl, rfl, by simp only [observe]⟩

/-- A DUMP is taken, transferred and answered; then the server is stopped. -/
theorem stop_drains_dumped : ∃ (record : CompletionRecord) (s t u : Server),
    record.opcode = .dump ∧ record.request_id = 1 ∧
      Transition.Reachable ((system oneSlot deepQueues).restrict fun s _ t => Timely s t) s ∧
      s.poller = .scanning [] [record] ∧ (system oneSlot deepQueues).step s () t ∧
      t.records < s.records ∧ s.poller.Finishing ∧
      Transition.Reachable ((system oneSlot deepQueues).restrict fun s _ t => Timely s t) u ∧
      u.worker = .exited ∧ u.poller = .exited ∧ Loadable oneSlot u.shared.manager onlyEntry 0 ∧
      u.shared.requestQueue.contents = [] ∧ u.shared.completionQueue.contents = [] := by
  have ho : Lenient fun _ _ _ => True := fun _ _ _ => trivial
  obtain ⟨manager, settled, hop, hid, -, hre, hl, -, hst⟩ := stocked ho
  obtain ⟨shared, rfl, he, -, hr, -, -, hf, hn⟩ := hst.poll (fun _ => .settled) (ho.allows trivial)
  obtain ⟨bytes, taken, record, hsu, hd, hi, hstage⟩ :=
    submitted_stocked hf settled.settled hop hid hre
  -- the response is submitted, and the window is looked at once more
  have hh := reachable_timely hn.of_restrict (by decide) (by simp)
  have hb := reach_move hh (.poller (.submitResponse 1 _ hsu)) (.of_same ⟨rfl, rfl⟩)
  have hb := reach_move hb (.poller .scanEnd) (.of_same ⟨rfl, rfl⟩)
  have hb := reach_move hb (.poller (.fillEmpty (show 1 < 64 by decide) (tryPop_eq_none.2 he))) (.of_same ⟨rfl, rfl⟩)
  have hb := reach_move hb (.poller .stopRead) (.of_same ⟨rfl, rfl⟩)
  have ha := reach_move hb (.poller (.responseTerminal hstage)) (.of_same ⟨rfl, rfl⟩)
  have ha := reach_move ha (.poller .scanEnd) (.of_same ⟨rfl, rfl⟩)
  obtain ⟨u, hu, hx, hxp, hum⟩ := stopped_idle (by decide) ha hr he
  obtain ⟨hw, hp, -⟩ := stop_drains (by decide) hu
  refine ⟨record, _, _, u, hd, hi, hb, rfl,
    ⟨_, .poller (.responseTerminal hstage), rfl⟩, ?_, ?_, hu, hx, hxp, ?_, hw hx, (hp hxp).2.1⟩
  · simp [records, Poller.window, observe]
  · exact (stop_drains (by decide) hb).2.2 _ ⟨_, .poller (.responseTerminal hstage), rfl⟩
      (by simp [records, Poller.window, observe])
  · rw [hum]
    exact hl

/-- The worker polls an empty queue; before it looks at its flag, the receiver pushes
a task and returns, and `Stop` sets the flag. -/
theorem task_stranded : ∃ s, Transition.Reachable (system oneSlot deepQueues) s ∧
    s.worker = .exited ∧ s.shared.requestQueue.contents = [dumpTask onlyEntry] := by
  obtain ⟨shared, -, -, -, hr, hd, hu, -, hn⟩ :
      Stands oneSlot deepQueues (fun _ _ _ => True) _ [] .polling (.filling []) :=
    .init (by decide) (by decide) rfl rfl
  obtain ⟨queue, hpu, hq, -⟩ :=
    shared.requestQueue.exists_push (by rw [hr, hd]; decide) (dumpTask onlyEntry)
  rw [hr, List.nil_append] at hq
  have ho := reach_move hn (.worker (.popEmpty (tryPop_eq_none.2 hr))) trivial
  have hs : KvRequestShape (dumpTask onlyEntry).request := rfl
  have hc := reach_move ho (.receive hs hu rfl) trivial
  have ha := reach_move hc (.allowTask rfl hu) trivial
  have hp := reach_move ha (.pushTask rfl hpu) trivial
  have hsp := reach_move hp .stopReceiver trivial
  have he := reach_move hsp (.receiverExit rfl) trivial
  have ht := reach_move he (.stopWorker rfl rfl) trivial
  have hx := reach_move ht (.worker .stopRead) trivial
  exact ⟨_, hx.of_restrict, rfl, hq⟩

end Server
end UnifiedCache.DramPool
