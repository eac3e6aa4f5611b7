import UnifiedCache.Cache.Tasks

/-! What the success of a dump says in the `cc` core: where no shard of a dump was held by
somebody else when the dump came to it, the backend has accepted every shard. -/
namespace UnifiedCache.Cache
open List Store Function

def Shared.stored (shared : Shared) (key : Key) : Prop :=
  key ∈ shared.accepted ∨ key ∈ shared.loaded

def Shared.backs (shared : Shared) (task? : TaskHandle → Option TransTask) (handle : TaskHandle) :
    Prop :=
  ∀ task, task? handle = some task → task.type = .DUMP → ∀ key ∈ task.desc, shared.stored key

def Dumper.Complete (stored : Key → Prop) (desc : List Key) (dumper : Dumper) : Prop :=
  match dumper.phase with
  | .event => ∀ key ∈ desc, key ∈ dumper.rest ∨ key ∈ dumper.ctx.map Prod.fst
  | .looking => ∀ key ∈ desc, key ∈ dumper.rest ∨ key ∈ dumper.ctx.map Prod.fst
  | .holding held got =>
    (∀ key ∈ desc, key = held ∨ key ∈ dumper.rest ∨ key ∈ dumper.ctx.map Prod.fst) ∧
      (got.owner = true ∨ held ∈ dumper.ctx.map Prod.fst)
  | .syncing => ∀ key ∈ desc, key ∈ dumper.ctx.map Prod.fst
  | .marking _ => ∀ key ∈ desc, key ∈ dumper.ctx.map Prod.fst
  | .submitting => ∀ key ∈ desc, key ∈ dumper.ctx.map Prod.fst
  | .condemning _ => False
  | .dropping failed => failed = false → ∀ key ∈ desc, stored key
  | .finishing failed => failed = false → ∀ key ∈ desc, stored key

theorem Dumper.Complete.mono {s b : Key → Prop} {desc : List Key} {dumper : Dumper}
    (h : dumper.Complete s desc) (hl : ∀ key, s key → b key) : dumper.Complete b desc := by
  unfold Complete at h ⊢
  cases hp : dumper.phase <;> simp only [hp] at h ⊢ <;>
    first | exact h | exact fun ho key hk => hl key (h ho key hk)

def DumpQueue.alone (shared : Shared) (queue : DumpQueue) : DumpMove → Bool
  | .get _ =>
    match queue.dumper with
    | some dumper =>
      match dumper.rest with
      | key :: _ =>
        (match shared.buffer.find key with
          | some index => (shared.buffer.nodes index).reference = 0
          | none => true) || (dumper.ctx.map Prod.fst).contains key
      | [] => true
    | none => true
  | _ => true

def Process.alone (shared : Shared) (process : Process) : Move → Bool
  | .dump move => process.dump.alone shared move
  | _ => true

def Host.alone (host : Host) (label : Label) : Bool :=
  match host.processes[label.index]? with
  | some process => process.alone host.shared label.move
  | none => true

variable {got : Handle}

theorem Buffer.Gets.owner_cc {request : Request} {victim : Nat} {buffer next : Buffer}
    (h : Gets .cc request victim buffer got next)
    (hu : ∀ i, buffer.find request.key = some i → (buffer.nodes i).reference = 0) : got.owner =
    true := by
  cases h with
  | hit hf => simpa [Core.owns] using hu _ hf
  | miss => rfl

theorem Config.backendDesc_cc {cfg : Config} (hc : cfg.core = .cc)
    (ctx : List (Key × Handle)) : cfg.backendDesc ctx = ctx := by
  unfold backendDesc reaches
  simp [hc]

structure Process.Honest (shared : Shared) (process : Process) : Prop where
  sincere : process.wrapper.Sincere (shared.backs process.wrapper.task?)
  complete : ∀ dumper task, process.dump.dumper = some dumper →
    process.wrapper.task? dumper.task = some task → dumper.Complete shared.stored task.desc

section
variable {cfg : Config} {shared after : Shared} {proc next : Process}

theorem Process.Advances.stored {m : Move} (h : proc.Advances cfg shared m after next) {key : Key}
    (hk : shared.stored key) : after.stored key := by
  have hm : ∀ {a loaded : List Key}, shared.accepted ⊆ a →
      shared.loaded ⊆ loaded → key ∈ a ∨ key ∈ loaded := by
    intro a loaded ha hl
    exact hk.imp (fun hn => ha hn) fun hn => hl hn
  cases h with
  | submit | wait => exact hk
  | load ho =>
    cases ho with
    | wait ok =>
      cases ok with
      | true => exact hm (List.Subset.refl _) (subset_append_left _ _)
      | false => exact hk
    | _ => exact hk
  | dump hd =>
    cases hd with
    | submit => exact hm (subset_append_left _ _) (List.Subset.refl _)
    | _ => exact hk

theorem Process.Honest.mono (h : proc.Honest shared)
    (hl : ∀ key, shared.stored key → after.stored key) : proc.Honest after := by
  constructor
  · apply h.sincere.mono
    intro handle hb t ht hy key hk
    exact hl key (hb t ht hy key hk)
  · intro d t hd ht
    exact (h.complete d t hd ht).mono hl

theorem Concludes.sincere {t : List TaskHandle} {good : TaskHandle → Prop}
    {w after : TaskWrapper TransTask} (h : Concludes t w after) (hs : w.Sincere good)
    (hg : ∀ handle ∈ t, good handle) : after.Sincere good := by
  cases h with
  | nothing => exact hs
  | done hm => exact hs.done (.inl (hg _ hm))
  | fail => exact hs.fail _
  | failDone hm => exact (hs.fail _).done (.inl (hg _ hm))

variable {state : DumpState} {handle : TaskHandle} {rest desc : List Key}
  {ctx : List (Key × Handle)}

theorem Config.passed_alone {key : Key} {copied v : Nat} {b : Buffer}
    (ha : state.queue.alone state.shared (.get v) = true)
    (hd : state.queue.dumper = some ⟨handle, key :: rest, ctx, copied, .looking⟩)
    (hg : state.shared.buffer.get .cc ⟨key, false, true⟩ v = some (got, b)) : got.owner = true ∨
    key ∈ ctx.map Prod.fst := by
  unfold DumpQueue.alone at ha
  simp only [hd, Bool.or_eq_true, contains_iff_mem] at ha
  refine ha.imp_left fun hu => ?_
  apply (Buffer.Gets.of_get hg).owner_cc
  intro i hf
  simpa [hf] using hu

theorem Dumper.kept {held : Key}
    (h : ∀ key ∈ desc, key = held ∨ key ∈ rest ∨ key ∈ ctx.map Prod.fst) :
    ∀ key ∈ desc, key ∈ rest ∨ key ∈ (ctx ++ [(held, got)]).map Prod.fst := by
  intro key hk
  rw [map_append, mem_append]
  obtain rfl | hn | hn := h key hk
  · exact .inr (.inr (mem_singleton_self _))
  · exact .inl hn
  · exact .inr (.inl hn)

theorem Dumper.Complete.giveUp {s : Key → Prop} {copied : Nat} :
    (⟨handle, rest, ctx, copied, Core.cc.giveUp ctx⟩ : Dumper).Complete s desc := by
  intro ho
  cases ho

theorem DumpStep.complete {next : DumpState} {m : DumpMove} {t : TransTask} (ho : cfg.core = .cc)
    (h : DumpStep cfg state m next) (hl : state.queue.alone state.shared m = true) (ha : ∀ dumper,
    state.queue.dumper = some dumper → state.wrapper.task? dumper.task = some t →
    dumper.Complete state.shared.stored t.desc) : ∀ dumper, next.queue.dumper = some dumper →
    state.wrapper.task? dumper.task = some t → dumper.Complete next.shared.stored t.desc := by
  intro dumper hd ht
  cases h with
  | take _ _ hf =>
    cases hd
    rw [hf] at ht
    cases ht
    exact fun key hk => .inl hk
  | event ok hb =>
    cases hd
    have hc := ha _ hb ht
    cases ok with
    | true => exact hc
    | false => exact fun hok => by cases hok
  | get hb hg =>
    cases hd
    rw [ho] at hg
    have hc := ha _ hb ht
    refine ⟨?_, Config.passed_alone hl hb hg⟩
    intro key hk
    obtain hn | hn := hc key hk
    · exact (mem_cons.1 hn).imp_right .inl
    · exact .inr (.inr hn)
  | skip hb hot =>
    cases hd
    obtain ⟨hc, hw⟩ := ha _ hb ht
    have hh := hw.resolve_left (by simp [hot])
    intro key hk
    obtain rfl | hn := hc key hk
    · exact .inr hh
    · exact hn
  | keep hb | copy _ hb =>
    cases hd
    exact Dumper.kept (ha _ hb ht).1
  | copyFailed | copyBroken =>
    cases hd
    rw [ho]
    exact .giveUp
  | nothing hb =>
    cases hd
    intro _ key hk
    have hc := ha _ hb ht key hk
    simp at hc
  | gathered hb | unsynced hb =>
    cases hd
    intro key hk
    exact (ha _ hb ht key hk).resolve_left not_mem_nil
  | sync ok hb =>
    cases hd
    have hc := ha _ hb ht
    cases ok with
    | true => exact hc
    | false =>
      rw [ho]
      exact .giveUp
  | mark hb | condemn hb | drop hb | dropped hb =>
    cases hd
    have hc := ha _ hb ht
    exact hc
  | @marked _ _ _ _ hb =>
    cases hd
    have hc := ha _ hb ht
    rw [Config.backendDesc_cc ho]
    split
    · rename_i he
      subst he
      intro _ key hk
      exact absurd (hc key hk) not_mem_nil
    · exact hc
  | submit hb =>
    cases hd
    rw [Config.backendDesc_cc ho]
    intro _ key hk
    exact .inl (mem_append_right _ (ha _ hb ht key hk))
  | refuse | condemned =>
    cases hd
    intro hok
    cases hok
  | finish => cases hd
  | _ => exact ha dumper hd ht

theorem DumpStep.sincere {next : DumpState} {m : DumpMove} (h : DumpStep cfg state m next)
    (ha : ∀ d t, state.queue.dumper = some d → state.wrapper.task? d.task = some t →
      d.Complete shared.stored t.desc)
    (hs : state.wrapper.Sincere (shared.backs state.wrapper.task?)) : next.wrapper.Sincere
    (shared.backs state.wrapper.task?) := by
  cases h with
  | turnAway _ _ hf => exact hs.done (.inr hf)
  | @finish handle _ _ _ failed hd =>
    cases failed with
    | true => exact (hs.fail handle).done (.inr (update_self _ _ _))
    | false =>
      apply hs.done
      left
      intro t ht _
      exact ha _ t hd ht rfl
  | drainWaiting => exact (hs.fail _).done (.inr (update_self _ _ _))
  | _ => exact hs

theorem Process.Typed.backs_load (h : proc.Typed) (shared : Shared) :
    ∀ handle ∈ proc.load.tasks, shared.backs proc.wrapper.task? handle := by
  intro handle hm t ht hy
  obtain ⟨f, hf, hl⟩ := h.loads handle hm
  rw [ht] at hf
  cases hf
  rw [hy] at hl
  cases hl

theorem Process.Honest.submit (h : proc.Honest shared) (ht : proc.Typed)
    (task : TransTask) (full : Bool) : (proc.submit task full).Honest shared := by
  have hn := ht.fresh proc.nextId (Nat.le_refl _)
  have hk : proc.wrapper.Sincere (shared.backs (proc.submit task full).wrapper.task?) := by
    apply h.sincere.mono_registered
    intro handle e he hb
    have ho : handle ≠ proc.nextId := by
      rintro rfl
      rw [TaskWrapper.task?_eq_none.1 hn] at he
      cases he
    rw [Shared.backs, task?_submit, update_of_ne ho]
    exact hb
  have hr : (proc.wrapper.register proc.nextId { task, counter := 1 }).Sincere
      (shared.backs (proc.submit task full).wrapper.task?) := by
    apply hk.register
    refine ⟨?_, ?_, ?_⟩
    · intro hz
      cases hz
    · intro hv
      cases hv
    · intro s hp
      cases hp
  constructor
  · revert hr
    generalize shared.backs (proc.submit task full).wrapper.task? = good
    intro hr
    unfold Process.submit
    cases full with
    | true => exact (hr.fail _).done (.inr (update_self _ _ _))
    | false => cases task.type <;> exact hr
  intro d f hd hf
  have hs : (proc.submit task full).dump.dumper = proc.dump.dumper := by
    unfold Process.submit
    cases full with
    | true => rfl
    | false => cases task.type <;> rfl
  rw [hs] at hd
  have hm : d.task ∈ proc.dump.tasks := by simp [DumpQueue.tasks, hd]
  have ho : d.task ≠ proc.nextId := by
    intro hq
    obtain ⟨o, ho, -⟩ := ht.dumps _ hm
    rw [hq, hn] at ho
    cases ho
  rw [task?_submit, update_of_ne ho] at hf
  exact h.complete d f hd hf

theorem Process.Honest.advances {m : Move} (hc : cfg.core = .cc) (hy : proc.Typed)
    (h : proc.Honest shared) (ha : proc.alone shared m = true)
    (hs : proc.Advances cfg shared m after next) : next.Honest after := by
  have hl := h.mono fun key hk => hs.stored hk
  cases hs with
  | submit t f => exact h.submit hy t f
  | load ho =>
    refine ⟨?_, ?_⟩
    · rw [ho.concludes.task?]
      exact ho.concludes.sincere hl.sincere (hy.backs_load _)
    · rw [ho.concludes.task?]
      exact hl.complete
  | dump hm =>
    refine ⟨?_, ?_⟩
    · rw [hm.concludes.task?]
      exact hm.sincere hl.complete hl.sincere
    rw [hm.concludes.task?]
    intro du t hu hta
    exact hm.complete hc ha (fun d hd ht => h.complete d t hd ht) du hu hta
  | wait hwt =>
    have hw := TaskWrapper.WaitStep.of_advance hwt
    refine ⟨?_, ?_⟩
    · rw [hw.task?_eq]
      exact h.sincere.wait (fun _ => rfl) hw
    · rw [hw.task?_eq]
      exact h.complete

end

namespace Host
variable {configs : Nat → Config} {host : Host}

theorem honest_of_reachable (hc : ∀ i, (configs i).core = .cc)
    (h : Transition.Reachable ((system configs).restrict fun host l _ => host.alone l = true) host)
    : ∀ proc ∈ host.processes, proc.Honest host.shared := by
  apply h.invariant (I := fun host => ∀ proc ∈ host.processes, proc.Honest host.shared)
  · rintro _ ⟨s, count, rfl⟩ proc hm
    rw [eq_of_mem_replicate hm]
    refine ⟨TaskWrapper.Sincere.start _, ?_⟩
    intro d t hu
    cases hu
  intro host l next hr hl hs
  obtain ⟨hs, ha⟩ := hs
  have ht := typed_of_reachable hr.of_restrict
  apply each_step (P := fun shared proc => proc.Honest shared) hs hl
  · intro proc hm u hp hd hh
    apply hh.advances (hc _) (ht proc hm) _ hd
    simpa [Host.alone, hp] using ha
  · intro proc m u hh hd
    exact hh.mono fun key => hd.stored

def shard (index : Nat) : Key := ⟨Vector.replicate 16 0, index⟩

end Host
end UnifiedCache.Cache
