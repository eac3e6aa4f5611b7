import UnifiedCache.Dram.Completion
import UnifiedCache.Lib.Trace

/-! A reply slot is memory the peer may still write. Once the transport took the
request, its slot is given back only after an event that stops the peer. -/
namespace UnifiedCache.Dram.NodeActor
open List Table
variable {cfg : Config} {deps : NodeDependencies}

def TookOver (token : RequestToken) (o : Observation) : Prop :=
  ∃ op payload status, status.success = true ∧ o = .submitted (.transmit token op payload) status

/-- The peer of `token` cannot write any more. -/
def Stopped (token : RequestToken) (o : Observation) : Prop :=
  ∃ event, settles token event ∧ o = .accepted event

abbrev Quiet (token : RequestToken) (history : List Observation) : Prop :=
  Trace.Since (TookOver token) (Stopped token) history

/-- What a release asks of the past: a quiet peer, a slot that was acquired for
this token, and no release before. -/
def ReleaseSafe (o : Observation) (earlier : List Observation) : Prop :=
  ∀ token slot, o = .released token slot →
    Quiet token earlier ∧ .acquired token (.ok slot) ∈ earlier ∧
      ∀ other, .released token other ∉ earlier

def SubmitOnce (o : Observation) (earlier : List Observation) : Prop :=
  ∀ token op payload status, o = .submitted (.transmit token op payload) status →
    ∀ other ∈ earlier, ¬TookOver token other

/-- The slot invariant; `current` is a request that is being started or retired
and is in neither table nor queue meanwhile. -/
structure SlotSafe (current : List RequestId) (actor : NodeActor) : Prop where
  seen : ∀ o ∈ actor.history, ∀ requestId, tokenId? o = some requestId →
    requestId ∈ actor.activeRequests.keys ∨ requestId ∈ actor.completedIds ∨ requestId ∈ current
  gone : ∀ token slot, .released token slot ∈ actor.history →
    token.requestId ∈ actor.completedIds ∨ token.requestId ∈ current
  owned : ∀ {requestId record}, (requestId, record) ∈ actor.activeRequests.entries →
    .acquired record.token (.ok record.replySlot) ∈ actor.history
  quiet : ∀ {requestId record}, (requestId, record) ∈ actor.activeRequests.entries →
    record.state = .completed → Quiet record.token actor.history
  releases : Trace.Always ReleaseSafe actor.history
  once : Trace.Always SubmitOnce actor.history

variable {o : Observation} {token : RequestToken}

theorem not_tookOver (h : tokenId? o ≠ some token.requestId) : ¬TookOver token o := by
  intro ht
  obtain ⟨op, payload, status, _, rfl⟩ := ht
  exact h rfl

section
variable (h : tokenId? o = none) (earlier : List Observation)
include h earlier

theorem releaseSafe_of_tokenless : ReleaseSafe o earlier := by
  intro token slot hr
  rw [hr] at h
  simp [tokenId?] at h

theorem submitOnce_of_tokenless : SubmitOnce o earlier := by
  intro token op p s hs
  rw [hs] at h
  simp [tokenId?] at h

end

namespace SlotSafe

theorem start : SlotSafe [] {} where
  seen := by simp
  gone := by simp
  owned := by simp
  quiet := by simp
  releases := Trace.always_nil _
  once := Trace.always_nil _

variable {actor next left : NodeActor}

theorem of_extend (h : SlotSafe [] actor) (new : List Observation)
    (hh : next.history = new ++ actor.history) (hn : ∀ o ∈ new, tokenId? o = none)
    (hk : next.activeRequests.keys = actor.activeRequests.keys) (hr : ∀ {requestId record},
      (requestId, record) ∈ next.activeRequests.entries → ∃ old,
      (requestId, old) ∈ actor.activeRequests.entries ∧ old.token = record.token ∧
      old.replySlot = record.replySlot ∧ (record.state = .completed → old.state = .completed ∨
      Quiet record.token next.history)) : SlotSafe [] next := by
  have hid : ∀ requestId ∈ actor.completedIds, requestId ∈ next.completedIds := by
    unfold completedIds completions
    rw [hh, filterMap_append, map_append]
    exact fun _ hm => mem_append_right _ hm
  have hl : ∀ o ∈ next.history, tokenId? o ≠ none → o ∈ actor.history := by
    intro o hm ht
    rw [hh, mem_append] at hm
    exact hm.resolve_left fun hin => ht (hn o hin)
  constructor
  · intro o hm requestId ht
    have hm := hl o hm (by simp [ht])
    rw [hk]
    obtain ha | hs := h.seen o hm requestId ht
    · exact .inl ha
    · exact .inr (hs.imp (hid _) id)
  · intro token slot hm
    exact (h.gone token slot (hl _ hm (by simp [tokenId?]))).imp_left (hid _)
  · intro requestId record hm
    obtain ⟨old, hol, ht, hsl, _⟩ := hr hm
    rw [← ht, ← hsl, hh]
    exact mem_append_right _ (h.owned hol)
  · intro requestId record hm hc
    obtain ⟨old, hol, ht, _, hq⟩ := hr hm
    obtain hd | hq := hq hc
    · rw [hh, ← ht]
      refine (h.quiet hol hd).append fun o ho => not_tookOver ?_
      simp [hn o ho]
    · exact hq
  · rw [hh]
    exact h.releases.append fun o ho earlier => releaseSafe_of_tokenless (hn o ho) earlier
  · rw [hh]
    exact h.once.append fun o ho earlier => submitOnce_of_tokenless (hn o ho) earlier

theorem weaken (h : SlotSafe [] actor) (requestId : RequestId) : SlotSafe [requestId] actor where
  seen o hm id ht := (h.seen o hm id ht).imp_right (Or.imp_right fun hn => absurd hn not_mem_nil)
  gone token slot hm := (h.gone token slot hm).imp_right fun hn => absurd hn not_mem_nil
  owned := h.owned
  quiet := h.quiet
  releases := h.releases
  once := h.once

theorem cons {c d : List RequestId} (h : SlotSafe c actor) (hh : next.history = o :: actor.history)
    (ha : next.activeRequests = actor.activeRequests)
    (hc : ∀ id, id ∈ actor.completedIds ∨ id ∈ c ∨ tokenId? o = some id →
      id ∈ next.completedIds ∨ id ∈ d)
    (ht : ∀ {id record}, (id, record) ∈ actor.activeRequests.entries → ¬TookOver record.token o)
    (hr : ReleaseSafe o actor.history) (hs : SubmitOnce o actor.history) : SlotSafe d next := by
  constructor
  all_goals rw [hh]
  · intro other hm id hid
    rw [ha]
    obtain rfl | ho := mem_cons.1 hm
    · exact .inr (hc id (.inr (.inr hid)))
    · refine (h.seen other ho id hid).imp_right fun hd => ?_
      exact hc id (or_assoc.1 (.inl hd))
  · intro token slot hm
    obtain rfl | ho := mem_cons.1 hm
    · exact hc _ (.inr (.inr rfl))
    · exact hc _ (or_assoc.1 (.inl (h.gone token slot ho)))
  · rw [ha]
    exact fun hm => mem_cons_of_mem _ (h.owned hm)
  · rw [ha]
    exact fun hm hd => (h.quiet hm hd).cons (ht hm)
  · exact h.releases.cons hr
  · exact h.once.cons hs

variable {requestId : RequestId}

theorem observe_current (h : SlotSafe [requestId] actor) (phased : Phased actor)
    (fresh : requestId ∉ actor.activeRequests.keys) (hid : tokenId? o = some requestId)
    (hr : ∀ token slot, o ≠ .released token slot) (hn : SubmitOnce o actor.history) :
    SlotSafe [requestId] (actor.observe o) := by
  have hd : (actor.observe o).completedIds = actor.completedIds := by
    cases o with
    | completed => simp [tokenId?] at hid
    | _ => rfl
  refine h.cons rfl rfl ?_ ?_ (fun token slot he => absurd he (hr token slot)) hn
  · intro id hc
    rw [hd]
    refine hc.imp_right fun hc => ?_
    obtain hc | ht := hc
    · exact hc
    · cases hid.symm.trans ht
      exact mem_cons_self
  · intro id record hm
    refine not_tookOver ?_
    rw [hid, phased.token hm]
    intro hq
    cases hq
    exact fresh (mem_keys_of_mem hm)

variable {record : RequestRecord}

theorem of_emplaced (h : SlotSafe [requestId] actor) (f : requestId ∉ actor.activeRequests.keys)
    (hp : record.state ≠ .completed)
    (hw : .acquired record.token (.ok record.replySlot) ∈ actor.history)
    (hg : ∀ token slot, .released token slot ∈ actor.history →
      token.requestId ∈ actor.completedIds) :
    SlotSafe [] { actor with activeRequests := actor.activeRequests.emplace requestId record } := by
  have hs : ∀ {id other}, (id, other) ∈ (actor.activeRequests.emplace
      requestId record).entries → (id, other) ∈ actor.activeRequests.entries ∨ other = record := by
    intro id other hm
    rw [entries_emplace _ f, mem_append, mem_singleton] at hm
    exact hm.imp_right fun hq => (Prod.mk.inj hq).2
  constructor
  · intro o hm id ht
    simp only [keys_emplace _ f, mem_append, mem_singleton]
    obtain ha | hr := h.seen o hm id ht
    · exact .inl (.inl ha)
    · obtain hd | hu := hr
      · exact .inr (.inl hd)
      · exact .inl (.inr (mem_singleton.1 hu))
  · intro token slot hm
    exact .inl (hg token slot hm)
  · intro id other hm
    obtain ho | he := hs hm
    · exact h.owned ho
    · exact he ▸ hw
  · intro id other hm hc
    obtain ho | he := hs hm
    · exact h.quiet ho hc
    · exact absurd hc (he ▸ hp)
  · exact h.releases
  · exact h.once

theorem of_released (h : SlotSafe [requestId] left) (hto : record.token.requestId = requestId)
    (hw : record.replySlot.localAddr ≠ 0 →
      .acquired record.token (.ok record.replySlot) ∈ left.history)
    (hf : ∀ slot, .released record.token slot ∉ left.history) (hq : Quiet record.token left.history)
    : SlotSafe [requestId] (releaseReplySlot record left) := by
  unfold releaseReplySlot
  split
  · exact h
  rename_i hs
  refine h.cons rfl rfl ?_ (fun _ => by simp [TookOver]) ?_ nofun
  · intro id hc
    refine hc.imp_right fun hc => ?_
    obtain hc | ht := hc
    · exact hc
    · cases ht
      exact mem_singleton.2 hto
  · intro token slot he
    cases he
    exact ⟨hq, hw hs, hf⟩

theorem of_completed {req : Request} (status : Status) (results : List EntryResult)
    (h : SlotSafe [req.requestId] left) : SlotSafe []
    (queueCompletion cfg req status results left) := by
  refine h.cons rfl rfl ?_ (fun _ => not_tookOver (by simp [tokenId?]))
    (releaseSafe_of_tokenless rfl _) (submitOnce_of_tokenless rfl _)
  intro id hc
  left
  change id ∈ req.requestId :: left.completedIds
  obtain hd | hd | hd := hc
  · exact mem_cons_of_mem _ hd
  · exact mem_singleton.1 hd ▸ mem_cons_self
  · cases hd

section
variable (h : SlotSafe [] actor)
include h

theorem of_tokenless (o : Observation) (ho : tokenId? o = none)
    (hh : next.history = o :: actor.history) (ha : next.activeRequests = actor.activeRequests) :
    SlotSafe [] next := by
  refine h.of_extend [o] hh (by simpa using ho) (by rw [ha]) ?_
  intro requestId record hm
  exact ⟨record, ha ▸ hm, rfl, rfl, .inl⟩

theorem keep_retired (accounted : Accounted actor) (phased : Phased actor)
    (found : (requestId, record) ∈ actor.activeRequests.entries)
    (completed : record.state = .completed) : SlotSafe [] (settle cfg record
      { actor with activeRequests := actor.activeRequests.erase requestId }) := by
  have hid := accounted.ids requestId record found
  have hl : SlotSafe [record.request.requestId]
      { actor with activeRequests := actor.activeRequests.erase requestId } := by
    constructor
    · intro o hm id ht
      cases h.seen o hm id ht with
      | inr hr => exact .inr (.inl (hr.resolve_right not_mem_nil))
      | inl ha =>
        have hs := (keys_perm_erase found).subset ha
        obtain he | hr := mem_cons.1 hs
        · exact .inr (.inr (by simp [he, hid]))
        · exact .inl hr
    · intro token slot hm
      exact .inl ((h.gone token slot hm).resolve_right not_mem_nil)
    · intro id other hm
      exact h.owned (mem_erase.1 hm).2
    · intro id other hm
      exact h.quiet (mem_erase.1 hm).2
    · exact h.releases
    · exact h.once
  refine of_completed record.failure record.entryResults (hl.of_released ?_ ?_ ?_ ?_)
  · rw [phased.token found, hid]
  · exact fun _ => h.owned found
  · intro slot hm
    have hd := (h.gone _ slot hm).resolve_right not_mem_nil
    rw [phased.token found] at hd
    exact accounted.active_not_completed found hd
  · exact h.quiet found completed

theorem unseen (f : requestId ∉ actor.activeRequests.keys)
    (hn : requestId ∉ actor.completedIds) : ∀ o ∈ actor.history, tokenId? o ≠ some requestId := by
  intro o hm hd
  obtain ha | hr := h.seen o hm _ hd
  · exact f ha
  · exact hr.elim hn not_mem_nil

theorem keep_acquired (phased : Phased actor) (fresh : requestId ∉ actor.activeRequests.keys)
    (answer : Expected ReplySlot) :
    SlotSafe [requestId] (actor.observe (.acquired (tokenOf cfg requestId actor) answer)) := by
  refine (h.weaken _).observe_current phased fresh rfl (by simp) ?_
  intro token op p s he
  cases he

end

theorem keep_dropped (request : Request) {slot : ReplySlot} {answer : Expected ReplySlot}
    (h : SlotSafe [] actor) (phased : Phased actor) (fresh : request.requestId ∉
    actor.activeRequests.keys) (hn : request.requestId ∉ actor.completedIds)
    (owned : slot.localAddr ≠ 0 → answer = .ok slot) (status : Status) (rest : List Request) :
    SlotSafe [] (settle cfg ((freshRecord cfg request slot actor).complete status)
      { actor.observe (.acquired (tokenOf cfg request.requestId actor) answer) with
        pendingRequests := rest }) := by
  have unseen := h.unseen fresh hn
  have hp : SlotSafe [request.requestId]
      { actor.observe (.acquired (tokenOf cfg request.requestId actor) answer) with
        pendingRequests := rest } :=
    { h.keep_acquired phased fresh answer with }
  refine of_completed status [] (hp.of_released rfl ?_ ?_ ?_)
  · intro hs
    rw [owned hs]
    exact mem_cons_self
  · intro other hm
    have hm : Observation.released (tokenOf cfg request.requestId actor) other ∈
        actor.history := by simpa [observe, freshRecord, RequestRecord.complete] using hm
    exact unseen _ hm rfl
  · refine Trace.Since.cons (.of_unmarked fun o hm => not_tookOver (unseen o hm)) ?_
    simp [TookOver]

variable (cfg) in
theorem keep_launched (request : Request) (h : SlotSafe [] actor) (phased : Phased actor)
    (fresh : request.requestId ∉ actor.activeRequests.keys)
    (hn : request.requestId ∉ actor.completedIds) (slot : ReplySlot) (payload : List UInt8)
    (status : Status) : SlotSafe []
      { (actor.observe (.acquired (tokenOf cfg request.requestId actor) (.ok slot))).observe
          (.submitted (.transmit (tokenOf cfg request.requestId actor) request.op payload)
            status) with
        activeRequests := actor.activeRequests.emplace request.requestId
          (freshRecord cfg request slot actor) } := by
  have unseen := h.unseen fresh hn
  have ha : SlotSafe [request.requestId]
      (actor.observe (.acquired (tokenOf cfg request.requestId actor) (.ok slot))) :=
    h.keep_acquired phased fresh (.ok slot)
  have hs : SlotSafe [request.requestId]
      ((actor.observe (.acquired (tokenOf cfg request.requestId actor) (.ok slot))).observe
        (.submitted (.transmit (tokenOf cfg request.requestId actor) request.op payload) status)) := by
    refine ha.observe_current { phased with } fresh rfl (by simp) ?_
    intro token op b status he other hm
    cases he
    obtain he | ho := mem_cons.1 hm
    · rw [he]
      simp [TookOver]
    · exact not_tookOver (unseen other ho)
  refine hs.of_emplaced fresh (by simp [freshRecord]) ?_ ?_
  · exact mem_cons_of_mem _ mem_cons_self
  intro token slot hm
  have hm : Observation.released token slot ∈ actor.history := by
    simpa [observe] using hm
  exact (h.gone token slot hm).resolve_right not_mem_nil

theorem not_taken_of_refused {current : List RequestId} (h : SlotSafe current actor)
    (refused : Refused token actor.history) : ∀ o ∈ actor.history, ¬TookOver token o := by
  obtain ⟨r, op, payload, status, earlier, hs, hf, hr⟩ := refused
  intro o hm
  rw [hs, mem_append, mem_cons] at hm
  obtain hn | hm := hm
  · exact not_tookOver (by simp [hr o hn])
  cases hm with
  | inr ho => exact h.once r _ earlier hs token op payload status rfl o ho
  | inl he =>
    intro ht
    obtain ⟨_, _, _, hk, ha⟩ := ht
    cases he.symm.trans ha
    simp [Status.failure, hk] at hf

theorem keep_event (h : SlotSafe [] actor) (phased : Phased actor) (move : EventMove actor next) :
    SlotSafe [] next := by
  cases move with
  | fenced =>
    refine h.of_extend [_] rfl (by simp [tokenId?]) (keys_mapValues _ _) ?_
    intro requestId record hm
    obtain ⟨old, ho, rfl⟩ := (mem_mapValues _ _ _ _).1 hm
    refine ⟨old, ho, (passFence_token old).symm, (passFence_slot old).symm, fun _ => ?_⟩
    -- A record that waits for the fence carries the epoch that was fenced.
    by_cases hd : old.state = .completed
    · exact .inl hd
    · refine .inr (.of_event _ (not_tookOver (by simp [tokenId?])) ⟨_, ?_, rfl⟩)
      rw [passFence_token]
      exact (phased.epoch ho hd).symm
  | transmit =>
    refine h.of_extend [_] rfl (by simp [tokenId?]) (keys_modify _ _ _) ?_
    intro other r hm
    obtain ht | he := mem_modify.1 hm
    · exact ⟨r, ht.2, rfl, rfl, .inl⟩
    · obtain ⟨rfl, old, ho, rfl⟩ := he
      exact ⟨old, ho, rfl, rfl, by simp⟩
  | complete e _ _ _ f settled =>
    refine h.of_extend [_] rfl (by simp [tokenId?]) (keys_modify _ _ _) ?_
    intro other r hm
    obtain ht | he := mem_modify.1 hm
    · exact ⟨r, ht.2, rfl, rfl, .inl⟩
    obtain ⟨rfl, old, ho, rfl⟩ := he
    refine ⟨old, ho, rfl, rfl, fun _ => .inr ?_⟩
    cases eq_of_mem ho f
    exact .of_event _ (not_tookOver (by simp [tokenId?])) ⟨e, settled, rfl⟩
  | _ => exact h.of_tokenless _ rfl rfl rfl

theorem invariant : Invariant cfg (SlotSafe []) := by
  intro actor next so h m
  cases m with
  | clocks | connect => exact { h with }
  | drop handle re res _ _ s q f ow =>
    have hn := so.accounted.pending_not_completed (q ▸ mem_cons_self)
    exact h.keep_dropped { re with prerequisiteHandle := handle } so.phased f hn ow s res
  | launch handle re _ slot p s _ q f =>
    have hn := so.accounted.pending_not_completed (q ▸ mem_cons_self)
    have hl := keep_launched cfg { re with prerequisiteHandle := handle } h
      so.phased f hn slot p s
    exact { hl with }
  | unsend _ _ _ fo ref =>
    refine h.of_extend [] rfl (by simp) (keys_modify _ _ _) ?_
    intro other r hm
    obtain ht | he := mem_modify.1 hm
    · exact ⟨r, ht.2, rfl, rfl, .inl⟩
    obtain ⟨rfl, old, ho, rfl⟩ := he
    refine ⟨old, ho, rfl, rfl, fun _ => .inr ?_⟩
    cases eq_of_mem ho fo
    exact .of_unmarked (h.not_taken_of_refused ref)
  | retire _ _ fo c =>
    exact h.keep_retired so.accounted so.phased fo c
  | fence =>
    refine h.of_extend [] rfl (by simp) (keys_mapValues _ _) ?_
    intro requestId record hm
    obtain ⟨old, ho, rfl⟩ := (mem_mapValues _ _ _ _).1 hm
    refine ⟨old, ho, (waitForFence_token old).symm, (waitForFence_slot old).symm, ?_⟩
    exact fun hc => .inl (waitForFence_completed hc)
  | event _ m => exact h.keep_event so.phased m
  | _ => exact h.of_tokenless _ rfl rfl rfl

end SlotSafe
theorem after_slotSafe (cfg : Config) (deps : NodeDependencies) (c : List Call)
    (d : ((handed c).map Request.requestId).Nodup) : Held (SlotSafe []) (after cfg deps c) := by
  refine (after_invariant deps SlotSafe.invariant SlotSafe.start ?_ c d).1
  intro actor r now _ h _
  have hr : SlotSafe [] (actor.observe (.requested r)) :=
    h.of_tokenless _ rfl rfl rfl
  unfold handleRequest
  split
  · exact hr.of_tokenless _ rfl rfl rfl
  · exact { hr with }

variable {actor next : NodeActor}

theorem Move.history (move : Move cfg actor next) : ∃ r, next.history = r ++ actor.history := by
  have hs : ∀ (record : RequestRecord) (left : NodeActor),
      ∃ r, (settle cfg record left).history = r ++ left.history := by
    intro record left
    unfold settle queueCompletion releaseReplySlot
    split
    · exact ⟨[_], rfl⟩
    · exact ⟨[_, _], rfl⟩
  cases move with
  | clocks | unsend | fence | connect => exact ⟨[], rfl⟩
  | drop _ req _ acquired =>
    obtain ⟨r, hr⟩ := hs _ _
    refine ⟨r ++ [.acquired (tokenOf cfg req.requestId actor) acquired], ?_⟩
    rw [append_assoc]
    exact hr
  | launch => exact ⟨[_, _], rfl⟩
  | retire => exact hs _ _
  | event _ move =>
    obtain ⟨event, he⟩ := move.history
    exact ⟨[_], he⟩
  | _ => exact ⟨[_], rfl⟩

/-- Since `base` the peer of `token` was stopped, or its request is still there
with its slot. -/
def Retained (base : List Observation) (requestId : RequestId) (token : RequestToken)
    (slot : ReplySlot) (actor : NodeActor) : Prop :=
  ∃ recent, actor.history = recent ++ base ∧
    ((∃ event, .accepted event ∈ recent ∧ settles token event) ∨
      ∃ record, (requestId, record) ∈ actor.activeRequests.entries ∧
        record.state ≠ .completed ∧ record.token = token ∧ record.replySlot = slot)

variable {base : List Observation} {requestId : RequestId} {slot : ReplySlot}

theorem Retained.keep_event (phased : Phased actor) (h : Retained base requestId token slot actor)
    (move : EventMove actor next) : Retained base requestId token slot next := by
  obtain ⟨r, hh, hc⟩ := h
  have ho : ∀ e, next.history = .accepted e :: actor.history →
      next.history = (.accepted e :: r) ++ base := by
    intro e he
    rw [he, hh]
    rfl
  obtain hsp | hk := hc
  · obtain ⟨e, hm, hse⟩ := hsp
    obtain ⟨a, ha⟩ := move.history
    exact ⟨_, ho a ha, .inl ⟨e, mem_cons_of_mem _ hm, hse⟩⟩
  obtain ⟨record, hm, hp, ht, hl⟩ := hk
  cases move with
  | connected e | disconnected e =>
    exact ⟨_, ho e rfl, .inr ⟨record, hm, hp, ht, hl⟩⟩
  | fenced =>
    refine ⟨_, ho _ rfl, .inl ⟨_, mem_cons_self, ?_⟩⟩
    rw [← ht]
    exact (phased.epoch hm hp).symm
  | transmit e other =>
    refine ⟨_, ho e rfl, .inr ?_⟩
    by_cases hs : requestId = other
    · cases hs
      exact ⟨{ record with state := .inflight },
        mem_modify.2 (.inr ⟨rfl, record, hm, rfl⟩), by simp, ht, hl⟩
    · exact ⟨record, mem_modify.2 (.inl ⟨hs, hm⟩), hp, ht, hl⟩
  | complete e other _ _ hf s =>
    refine ⟨_, ho e rfl, ?_⟩
    by_cases hs : requestId = other
    · cases hs
      cases eq_of_mem hm hf
      exact .inl ⟨e, mem_cons_self, ht ▸ s⟩
    · exact .inr ⟨record, mem_modify.2 (.inl ⟨hs, hm⟩), hp, ht, hl⟩

theorem Retained.invariant (cfg : Config) (taken : ∃ o ∈ base, TookOver token o) :
    Invariant cfg fun actor => SlotSafe [] actor ∧ Retained base requestId token slot actor := by
  intro actor next sound h move
  refine ⟨SlotSafe.invariant sound h.1 move, ?_⟩
  obtain ⟨r, hh, hc⟩ := h.2
  obtain ⟨more, hmo⟩ := move.history
  rw [hh, ← append_assoc] at hmo
  obtain hsp | hk := hc
  · obtain ⟨event, hm, he⟩ := hsp
    exact ⟨_, hmo, .inl ⟨event, mem_append_right _ hm, he⟩⟩
  obtain ⟨record, hm, hp, ht, hs⟩ := hk
  cases move with
  | event _ move => exact h.2.keep_event sound.phased move
  | drop =>
    refine ⟨_, hmo, .inr ?_⟩
    rw [activeRequests_settle]
    exact ⟨record, hm, hp, ht, hs⟩
  | launch _ _ _ _ _ _ _ _ fresh =>
    refine ⟨_, hmo, .inr ⟨record, ?_, hp, ht, hs⟩⟩
    rw [entries_emplace _ fresh]
    exact mem_append_left _ hm
  | unsend _ _ _ hf refused =>
    refine ⟨_, hmo, .inr ⟨record, mem_modify.2 (.inl ⟨?_, hm⟩), hp, ht, hs⟩⟩
    intro ha
    cases ha
    cases eq_of_mem hm hf
    obtain ⟨o, ho, hto⟩ := taken
    refine h.1.not_taken_of_refused refused o ?_ (ht ▸ hto)
    rw [hh]
    exact mem_append_right _ ho
  | retire _ _ hf completed =>
    refine ⟨_, hmo, .inr ?_⟩
    rw [activeRequests_settle]
    refine ⟨record, mem_erase.2 ⟨?_, hm⟩, hp, ht, hs⟩
    intro ha
    cases ha
    exact hp (eq_of_mem hm hf ▸ completed)
  | fence =>
    refine ⟨_, hmo, .inr ⟨waitForFence record, (mem_mapValues _ _ _ _).2 ⟨record, hm, rfl⟩,
      fun hco => hp (waitForFence_completed hco), ?_, ?_⟩⟩
    · rw [waitForFence_token, ht]
    · rw [waitForFence_slot, hs]
  | _ => exact ⟨_, hmo, .inr ⟨record, hm, hp, ht, hs⟩⟩

/-! A node only becomes active with an empty table. -/

theorem step_active {call : Call} (sound : Sound actor) (i : actor.state ≠ .active)
    (active : (step cfg deps actor call).state = .active) :
    (step cfg deps actor call).activeRequests.entries = [] := by
  cases call with
  | request =>
    rw [step, handleRequest_state] at active
    exact absurd active i
  | event event now =>
    rw [step] at active ⊢
    obtain hs | move := handle_event cfg event now actor
    · rw [hs] at active
      exact absurd active i
    generalize handle cfg event now actor = next at move active
    cases move with
    | connected _ _ connecting =>
      refine eq_nil_iff_forall_not_mem.2 ?_
      exact fun _ hp => sound.phased.phase_at connecting hp
    | transmit | complete => exact absurd active i
    | _ => simp at active
  | advance now => exact absurd active (advance_inactive cfg deps now i)

/-- The slot of a request that the transport took is released only after a reply
for its token, a failed transmission of it or the fence of its epoch; each token's
slot is released once at most; the passing of time alone keeps request and slot; a
node becomes active with no active requests, so these carry its current epoch. -/
theorem reply_slot_guarded (config : Config) (dependencies : NodeDependencies)
    (calls : List Call) (distinct : ((handed calls).map Request.requestId).Nodup) :
    (∀ later token slot earlier,
      (after config dependencies calls).history = later ++ .released token slot :: earlier →
        (∀ recent op payload status older,
          earlier = recent ++ .submitted (.transmit token op payload) status :: older →
            status.success = true → ∃ event, .accepted event ∈ recent ∧ settles token event) ∧
        .acquired token (.ok slot) ∈ earlier ∧ ∀ other, .released token other ∉ earlier) ∧
    (∀ now requestId record,
      (requestId, record) ∈ (after config dependencies calls).activeRequests.entries →
        record.state ≠ .completed →
        (∃ op payload status, status.success = true ∧
          .submitted (.transmit record.token op payload) status ∈
            (after config dependencies calls).history) →
        ∃ recent, (advance config dependencies now (after config dependencies calls)).history =
            recent ++ (after config dependencies calls).history ∧
          ((∃ event, .accepted event ∈ recent ∧ settles record.token event) ∨
            (∃ kept, (requestId, kept) ∈ (advance config dependencies now
                (after config dependencies calls)).activeRequests.entries ∧
              kept.token = record.token ∧ kept.replySlot = record.replySlot) ∧
            ∀ slot, .released record.token slot ∉
              (advance config dependencies now (after config dependencies calls)).history)) ∧
    (∀ call, (after config dependencies calls).state ≠ .active →
      (after config dependencies (calls ++ [call])).state = .active →
        (after config dependencies (calls ++ [call])).activeRequests.entries = []) ∧
    ((after config dependencies calls).state = .active → ∀ requestId record,
      (requestId, record) ∈ (after config dependencies calls).activeRequests.entries →
        record.token.epoch = (after config dependencies calls).epoch) := by
  have held := after_slotSafe config dependencies calls distinct
  refine ⟨?_, ?_, ?_, ?_⟩
  · intro later token slot earlier hs
    obtain ⟨hq, ha, hf⟩ := held.holds.releases later _ earlier hs token slot rfl
    refine ⟨?_, ha, hf⟩
    intro recent op payload status older he ho
    obtain ⟨o, hm, event, hse, rfl⟩ :=
      hq recent _ older he ⟨op, payload, status, ho, rfl⟩
    exact ⟨event, hm, hse⟩
  · intro now requestId record hm hp hta
    obtain ⟨op, payload, status, ho, hu⟩ := hta
    have inv : Invariant config fun actor => SlotSafe [] actor ∧
        Retained (after config dependencies calls).history requestId record.token
          record.replySlot actor :=
      Retained.invariant config ⟨_, hu, op, payload, status, ho, rfl⟩
    have hn := Held.advance inv dependencies now
      ⟨held.sound, held.holds, [], rfl, .inr ⟨record, hm, hp, rfl, rfl⟩⟩
    obtain ⟨hsa, recent, hh, hc⟩ := hn.holds
    refine ⟨recent, hh, hc.imp_right ?_⟩
    rintro ⟨kept, hk, _, ht, hl⟩
    refine ⟨⟨kept, hk, ht, hl⟩, fun slot hr => ?_⟩
    have hd := (hsa.gone _ slot hr).resolve_right not_mem_nil
    rw [← ht, hn.sound.phased.token hk] at hd
    exact hn.sound.accounted.active_not_completed hk hd
  · intro call inactive active
    unfold after at inactive active ⊢
    rw [Transition.run_concat] at active ⊢
    exact step_active held.sound inactive active
  · intro active requestId record hm
    exact (held.sound.phased.phase_at active hm).2

def answered : List Call :=
  [.advance 0, .event (.connectCompleted 0 0 1 .OK) 1,
    .request { requestId := 7, entries := [{ blockId := Vector.ofFn fun _ => 1 }],
               deadline := 100 } 2,
    .advance 3, .event (.replyObserved ⟨0, 0, 1, 7⟩ .OK []) 4, .advance 5]

def isReleased : Observation → Bool
  | .released _ _ => true
  | _ => false

theorem answered_reply_slot_guarded :
    ((handed answered).map Request.requestId).Nodup ∧ ∃ later token slot earlier,
        (after { limits := { maxInflightRequests := 1 } } granting answered).history =
          later ++ .released token slot :: earlier ∧ .acquired token (.ok slot) ∈ earlier := by
  have hr : (after { limits := { maxInflightRequests := 1 } } granting
      answered).history.any isReleased = true := by decide +kernel
  obtain ⟨o, hm, ho⟩ := any_eq_true.1 hr
  obtain ⟨later, earlier, hs⟩ := append_of_mem hm
  refine ⟨by decide, ?_⟩
  cases o with
  | released token slot =>
    exact ⟨later, token, slot, earlier, hs,
      ((reply_slot_guarded _ granting answered (by decide)).1 later token slot earlier hs).2.1⟩
  | _ => simp [isReleased] at ho

end UnifiedCache.Dram.NodeActor
