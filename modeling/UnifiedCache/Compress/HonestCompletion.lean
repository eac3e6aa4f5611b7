import UnifiedCache.Compress.Compressor

/-! What the success of a compress task says about the work behind it. -/
namespace UnifiedCache.Compress
open List Function
open Store
variable {ratio : FixedRatio} {shardSize : UInt64} {answers : Answers} {task : TransTask}
  {desc : List Shard} {config : Config} {compressor : Compressor}

def slice (shard : Shard) : BlockId × UInt64 := (shard.owner, shard.index)

def Effect.failed : Effect → Bool
  | .submit _ (.ok _) => false
  | .submit _ (.error _) => true
  | .wait _ status => status.failure
  | .decompress _ _ error => error ≠ 0
  | .compress _ _ _ error => error ≠ 0

structure Honest (ratio : FixedRatio) (task : TransTask) (work : Work) : Prop where
  accepted : ∃ shards handle, .submit shards (.ok handle) ∈ work.effects ∧
    shards.map slice = task.desc.map slice ∧ .wait handle .OK ∈ work.effects
  coded : ratio ≠ .R1 → ∀ position shard, task.desc[position]? = some shard →
    .decompress position shard 0 ∈ work.effects ∨
      ∃ buffer, .compress position shard buffer 0 ∈ work.effects
  clean : ∀ effect ∈ work.effects, effect.failed = false

/-- The backend takes the task, the answers that the workers do not look at are good ones, and
the task is one that they wait for. -/
def Smooth (ratio : FixedRatio) (task : TransTask) (answers : Answers) : Prop :=
  match task.type with
  | .LOAD => ∃ handle, answers.load task.desc = .ok handle ∧ answers.wait handle = .OK ∧
      (ratio ≠ .R1 → 0 < handle ∧ ∀ position < task.desc.length, answers.code position = 0)
  | .DUMP => ratio ≠ .R1 ∧ task.desc ≠ [] ∧ answers.memalign.isSome = true ∧
      (∀ position < task.desc.length, answers.code position = 0) ∧
      ∀ shards, shards.map slice = task.desc.map slice →
        ∃ handle, answers.dump shards = .ok handle ∧ 0 < handle ∧ answers.wait handle = .OK

theorem mem_zipIdx {pos : Nat} {shard : Shard} :
    (shard, pos) ∈ desc.zipIdx ↔ desc[pos]? = some shard := by
  rw [mem_zipIdx_iff_getElem?]

theorem compressLoad_honest (hratio : ratio = .R1 ∨ ratio = .R200)
    (hsmooth : Smooth ratio ⟨.LOAD, desc⟩ answers) :
    (compressLoad ratio answers desc).ending = .done ∧
      Honest ratio ⟨.LOAD, desc⟩ (compressLoad ratio answers desc) := by
  obtain ⟨handle, hl, hw, ho⟩ := hsmooth
  unfold compressLoad
  rw [hl]
  dsimp only
  rw [hw]
  split
  · rename_i hp
    refine ⟨rfl, ?_, ?_, ?_⟩
    · exact ⟨desc, handle, by simp, rfl, by simp⟩
    · exact fun hco => absurd hp hco
    · simp [Effect.failed]
  rename_i hco
  have hf := hratio.resolve_left hco
  obtain ⟨hpo, hz⟩ := ho hco
  rw [if_pos hpo, if_pos hf]
  refine ⟨rfl, ?_, ?_, ?_⟩
  · exact ⟨desc, handle, by simp, rfl, by simp⟩
  · intro _ pos s hs
    left
    have hc := hz pos (List.getElem?_eq_some_iff.1 hs).1
    apply mem_append_right
    apply mem_map.2
    exact ⟨(s, pos), mem_zipIdx.2 hs, by rw [hc]⟩
  · intro e he
    obtain hh | hs := mem_append.1 he
    · simp only [singleton_append, mem_cons, not_mem_nil, or_false] at hh
      cases hh with
      | inl h | inr h => rw [h]; rfl
    · obtain ⟨⟨s, pos⟩, hm, rfl⟩ := mem_map.1 hs
      have hc := hz pos (List.getElem?_eq_some_iff.1 (mem_zipIdx.1 hm)).1
      simp [Effect.failed, hc]

structure Dumped (before after : Dumping) (shards : List (Shard × Nat)) : Prop where
  sent : after.backendDesc.map slice = before.backendDesc.map slice ++
    shards.map fun shard => slice shard.1
  coded : ∀ shard ∈ shards, ∃ buffer, .compress shard.2 shard.1 buffer 0 ∈ after.effects
  kept : before.effects ⊆ after.effects
  clean : ∀ effect ∈ after.effects, effect ∈ before.effects ∨ effect.failed = false

theorem foldlM_compressShard (shards : List (Shard × Nat)) (d : Dumping)
    (hr : shards.length ≤ d.freeBlocks.length) (hz : ∀ s ∈ shards, answers.code s.2 = 0) :
    ∃ a, shards.foldlM (compressShard .R200 answers) d = some a ∧
      Dumped d a shards := by
  induction shards generalizing d with
  | nil => exact ⟨d, rfl, by simp, by simp, List.Subset.refl _, fun _ h => .inl h⟩
  | cons s _ ih =>
    rw [length_cons] at hr
    obtain ⟨buffer, hu⟩ : ∃ buffer, d.freeBlocks.getLast? = some buffer := by
      cases hl : d.freeBlocks.getLast? with
      | none =>
        rw [List.getLast?_eq_none_iff.1 hl] at hr
        simp at hr
      | some buffer => exact ⟨buffer, rfl⟩
    have hc := hz s mem_cons_self
    let next : Dumping := {
      freeBlocks := d.freeBlocks.dropLast
      backendDesc := d.backendDesc ++ [⟨s.1.owner, s.1.index, [buffer]⟩]
      effects := d.effects ++ [.compress s.2 s.1 buffer 0] }
    have hs : compressShard .R200 answers d s = some next := by
      unfold compressShard
      rw [hu]
      simp [hc, next]
    obtain ⟨a, ha, hd⟩ := ih next (by simp only [next, length_dropLast]; omega)
      (fun o ht => hz o (mem_cons_of_mem _ ht))
    refine ⟨a, ?_, ?_, ?_, ?_, ?_⟩
    · rw [foldlM_cons, hs]
      exact ha
    · rw [hd.sent]
      simp [slice, next]
    · intro o ht
      obtain he | hrs := mem_cons.1 ht
      · rw [he]
        exact ⟨buffer, hd.kept (mem_append_right _ mem_cons_self)⟩
      · exact hd.coded o hrs
    · exact fun o ht => hd.kept (mem_append_left _ ht)
    intro o ht
    obtain hb | hcl := hd.clean o ht
    · obtain ho | hn := mem_append.1 hb
      · exact .inl ho
      · rw [mem_singleton.1 hn]
        exact .inr rfl
    · exact .inr hcl

theorem compressDump_honest (hratio : ratio = .R1 ∨ ratio = .R200)
    (hsmooth : Smooth ratio ⟨.DUMP, desc⟩ answers) :
    (compressDump ratio shardSize answers desc).ending = .done ∧
      Honest ratio ⟨.DUMP, desc⟩ (compressDump ratio shardSize answers desc) := by
  obtain ⟨ho, hde, hb, hz, hn⟩ := hsmooth
  have hu := hratio.resolve_left ho
  subst hu
  obtain ⟨base, hb⟩ := Option.isSome_iff_exists.1 hb
  unfold compressDump
  rw [if_neg ho, if_neg hde, hb]
  dsimp only
  have hc : ∀ s ∈ desc.zipIdx, answers.code s.2 = 0 := fun s hh =>
    hz s.2 (List.getElem?_eq_some_iff.1 (mem_zipIdx.1 hh)).1
  obtain ⟨d, hfo, hd⟩ := foldlM_compressShard desc.zipIdx
    ⟨poolBlocks base (poolBlockSize shardSize) desc.length, [], []⟩ (by simp [poolBlocks]) hc
  have he : d.backendDesc.map slice = desc.map slice := by
    have ha : desc.zipIdx.map (fun s => slice s.1) = desc.map slice := by
      conv_rhs => rw [← zipIdx_map_fst 0 desc, map_map]
      rfl
    rw [hd.sent, ha]
    rfl
  have hsm : d.backendDesc ≠ [] := by
    intro hni
    rw [hni] at he
    exact hde (map_eq_nil_iff.1 he.symm)
  obtain ⟨handle, hm, hp, hw⟩ := hn d.backendDesc he
  rw [hfo]
  dsimp only
  rw [if_neg hsm, hm]
  dsimp only
  rw [if_pos hp, hw]
  refine ⟨rfl, ?_, ?_, ?_⟩
  · exact ⟨d.backendDesc, handle, by simp, he, by simp⟩
  · intro _ pos s hh
    obtain ⟨b, hbu⟩ := hd.coded (s, pos) (mem_zipIdx.2 hh)
    exact .inr ⟨b, by simp [hbu]⟩
  · intro e hf
    simp only [append_assoc, mem_append, mem_singleton] at hf
    obtain hl | hsu | hla := hf
    · exact (hd.clean e hl).resolve_left (by simp)
    · rw [hsu]
      rfl
    · rw [hla]
      rfl

theorem execute_honest (hratio : ratio = .R1 ∨ ratio = .R200)
    (hsmooth : Smooth ratio task answers) : (execute ratio shardSize answers task).ending = .done ∧
      Honest ratio task (execute ratio shardSize answers task) := by
  obtain ⟨t, desc⟩ := task
  cases t with
  | LOAD => exact compressLoad_honest hratio hsmooth
  | DUMP => exact compressDump_honest hratio hsmooth

namespace Compressor

def Good (config : Config) (compressor : Compressor) (handle : TaskHandle) : Prop :=
  ∃ task work, compressor.wrapper.task? handle = some task ∧
    compressor.work handle = some work ∧ Honest config.ratio task work

def smoothly (config : Config) (_ : Compressor) (label : Label) (_ : Compressor) : Prop :=
  ∀ handle task answers, label = .execute handle task answers → Smooth config.ratio task answers

def pending (compressor : Compressor) : List TaskHandle :=
  compressor.dumpPool ++ compressor.loadPool ++ compressor.running

structure Placed (compressor : Compressor) : Prop where
  nodup : compressor.pending.Nodup
  unworked : ∀ handle ∈ compressor.pending, handle < compressor.nextId ∧
    compressor.work handle = none
  fresh : ∀ handle, compressor.nextId ≤ handle →
    compressor.wrapper.tasks handle = none ∧ compressor.work handle = none

theorem pending_submit (task : TransTask) (compressor : Compressor) :
    (compressor.submit task).pending.Perm (compressor.nextId :: compressor.pending) := by
  obtain ⟨t, desc⟩ := task
  cases t with
  | LOAD =>
    change (compressor.dumpPool ++ (compressor.loadPool ++ [compressor.nextId]) ++
      compressor.running).Perm _
    rw [← append_assoc, append_assoc _ [compressor.nextId]]
    exact perm_middle
  | DUMP =>
    change (compressor.dumpPool ++ [compressor.nextId] ++ compressor.loadPool ++
      compressor.running).Perm _
    unfold pending
    rw [append_assoc, append_assoc, append_assoc]
    exact perm_middle

theorem Placed.start : Placed {} := by
  constructor <;> simp [pending]

theorem Placed.submit (h : Placed compressor) (task : TransTask) :
    Placed (compressor.submit task) := by
  have hp := pending_submit task compressor
  constructor
  · rw [hp.nodup_iff, nodup_cons]
    refine ⟨?_, h.nodup⟩
    intro hm
    exact absurd (h.unworked _ hm).1 (Nat.lt_irrefl _)
  · intro handle hm
    rw [hp.mem_iff, mem_cons] at hm
    obtain he | ho := hm
    · rw [he]
      exact ⟨Nat.lt_succ_self _, (h.fresh _ (Nat.le_refl _)).2⟩
    · obtain ⟨hlt, hw⟩ := h.unworked handle ho
      exact ⟨Nat.lt_succ_of_lt hlt, hw⟩
  intro handle hl
  obtain ⟨ht, hw⟩ := h.fresh handle (Nat.le_of_succ_le hl)
  refine ⟨?_, hw⟩
  rw [← ht]
  exact update_of_ne (Nat.ne_of_gt hl) _ _

variable {next : Compressor}

theorem Placed.move (h : Placed compressor) (hp : next.pending.Perm compressor.pending)
    (hd : next.nextId = compressor.nextId) (hw : next.work = compressor.work)
    (hr : next.wrapper = compressor.wrapper) : Placed next := by
  constructor
  · rw [hp.nodup_iff]
    exact h.nodup
  · intro handle hm
    rw [hd, hw]
    exact h.unworked handle (hp.mem_iff.1 hm)
  · rw [hd, hw, hr]
    exact h.fresh

variable {handle : TaskHandle}

theorem Placed.conclude {w : Work} (h : Placed compressor)
    (hr : handle ∈ compressor.running) : Placed (compressor.conclude handle w) := by
  have hp : compressor.pending.Perm
      (handle :: (compressor.dumpPool ++ compressor.loadPool ++ compressor.running.erase handle)) :=
    ((perm_cons_erase hr).append_left _).trans perm_middle
  have hd := nodup_cons.1 (hp.nodup_iff.1 h.nodup)
  have hlt : handle < compressor.nextId :=
    (h.unworked handle (mem_append_right _ hr)).1
  constructor
  · exact hd.2
  · intro other ho
    obtain ⟨hs, hw⟩ := h.unworked other (hp.mem_iff.2 (mem_cons_of_mem _ ho))
    refine ⟨hs, ?_⟩
    have hn : other ≠ handle := by
      rintro rfl
      exact hd.1 ho
    exact (update_of_ne hn _ _).trans hw
  intro other hl
  obtain ⟨ht, hw⟩ := h.fresh other hl
  constructor
  · unfold Compressor.conclude
    split
    · exact TaskWrapper.tasks_modify_eq_none _ ht
    · exact ht
  · have hn : other ≠ handle := Nat.ne_of_gt (Nat.lt_of_lt_of_le hlt hl)
    exact (update_of_ne hn _ _).trans hw

@[simp] theorem task?_conclude (handle : TaskHandle) (w : Work) (compressor : Compressor) :
    (compressor.conclude handle w).wrapper.task? = compressor.wrapper.task? := by
  unfold conclude
  split
  · exact TaskWrapper.task?_done handle compressor.wrapper
  · rfl

variable {work : Work}

theorem Good.conclude {other : TaskHandle} (h : Good config compressor other)
    (hu : compressor.work handle = none) : Good config (compressor.conclude handle work) other := by
  obtain ⟨task, done, ht, hdo, hg⟩ := h
  have he : other ≠ handle := by
    rintro rfl
    rw [hu] at hdo
    cases hdo
  refine ⟨task, done, ?_, (update_of_ne he _ _).trans hdo, hg⟩
  rw [task?_conclude]
  exact ht

theorem good_conclude (ht : compressor.wrapper.task? handle = some task)
    (hh : Honest config.ratio task work) : Good config (compressor.conclude handle work) handle
    := by
  refine ⟨task, work, ?_, update_self _ _ _, hh⟩
  rw [task?_conclude]
  exact ht

theorem conclude_sincere (hs : compressor.wrapper.Sincere (Good config compressor))
    (ht : compressor.wrapper.task? handle = some task) (hu : compressor.work handle = none)
    (hdo : work.ending = .done) (hh : Honest config.ratio task work) :
    (compressor.conclude handle work).wrapper.Sincere
    (Good config (compressor.conclude handle work)) := by
  have hm := hs.mono fun other hg =>
    (hg.conclude hu : Good config (compressor.conclude handle work) other)
  have hg : Good config (compressor.conclude handle work) handle := good_conclude ht hh
  revert hm hg
  generalize Good config (compressor.conclude handle work) = good
  intro hm hg
  unfold conclude
  rw [hdo]
  exact hm.done (.inl hg)

theorem Good.submit (h : Good config compressor handle) (hp : Placed compressor)
    (task : TransTask) : Good config (compressor.submit task) handle := by
  obtain ⟨k, work, hk, hw, hh⟩ := h
  refine ⟨k, work, ?_, hw, hh⟩
  have hn : handle ≠ compressor.nextId := by
    rintro rfl
    rw [TaskWrapper.task?_eq_none.2 (hp.fresh _ (Nat.le_refl _)).1] at hk
    cases hk
  rw [← hk]
  exact congrArg (Option.map Entry.task) (update_of_ne hn _ _)

structure Sound (config : Config) (compressor : Compressor) : Prop where
  placed : Placed compressor
  sincere : compressor.wrapper.Sincere (Good config compressor)
  worked : ∀ handle, (compressor.work handle).isSome = true → Good config compressor handle
  alive : compressor.terminated = false

theorem Sound.execute (h : Sound config compressor)
    (hr : handle ∈ compressor.running) (ht : compressor.wrapper.task? handle = some task)
    (hdo : work.ending = .done) (hh : Honest config.ratio task work) :
    Sound config (compressor.conclude handle work) := by
  have hu := (h.placed.unworked _ (mem_append_right _ hr)).2
  refine ⟨h.placed.conclude hr, conclude_sincere h.sincere ht hu hdo hh, ?_, ?_⟩
  · intro other hw
    by_cases he : other = handle
    · rw [he]
      exact good_conclude ht hh
    · have hold : compressor.work other = (compressor.conclude handle work).work other :=
        (update_of_ne he _ _).symm
      rw [← hold] at hw
      exact (h.worked other hw).conclude hu
  · unfold conclude
    rw [hdo]
    exact h.alive

theorem Step.sound {label : Label} (hratio : config.ratio = .R1 ∨ config.ratio = .R200)
    (h : Sound config compressor) (hs : Step config compressor label next)
    (hm : smoothly config compressor label next) : Sound config next := by
  cases hs with
  | submit task =>
    refine ⟨h.placed.submit task, ?_, fun o hw => (h.worked o hw).submit h.placed task, h.alive⟩
    apply TaskWrapper.Sincere.register
    · exact h.sincere.mono fun o hg => hg.submit h.placed task
    · constructor <;> simp [WaitPhase.over]
  | takeDump _ hp =>
    refine ⟨h.placed.move ?_ rfl rfl rfl, h.sincere, h.worked, h.alive⟩
    unfold pending
    rw [hp]
    exact perm_middle
  | takeLoad _ hp =>
    refine ⟨h.placed.move ?_ rfl rfl rfl, h.sincere, h.worked, h.alive⟩
    unfold pending
    rw [hp, append_assoc _ (_ :: _), cons_append]
    refine perm_middle.trans (List.Perm.trans ?_ perm_middle.symm)
    rw [append_assoc]
  | execute _ _ hr ht =>
    obtain ⟨hdo, hh⟩ := execute_honest hratio (hm _ _ _ rfl)
    exact h.execute hr ht hdo hh
  | @wait handle waited _ hwt =>
    have hts := hwt.task?_eq
    have hgood : ∀ o, Good config compressor o →
        Good config { compressor with wrapper := waited } o := by
      rintro o ⟨task, work, ht, hw, hh⟩
      exact ⟨task, work, (congrFun hts o).trans ht, hw, hh⟩
    refine ⟨⟨h.placed.nodup, h.placed.unworked, ?_⟩, ?_, fun o hw => hgood o (h.worked o hw),
      h.alive⟩
    · intro o hl
      obtain ⟨ht, hw⟩ := h.placed.fresh o hl
      refine ⟨?_, hw⟩
      rw [← TaskWrapper.task?_eq_none] at ht ⊢
      exact (congrFun hts o).trans ht
    · exact (h.sincere.wait (by intro task; rfl) hwt).mono hgood

section
variable (config : Config) (desc : List Shard) (answers : Answers)

def executed : Compressor :=
  ({ ({} : Compressor).submit ⟨.LOAD, desc⟩ with
     loadPool := [], running := [1] } : Compressor).conclude 1
    (Compress.execute config.ratio config.shardSize answers ⟨.LOAD, desc⟩)

def served : Compressor :=
  { executed config desc answers with
    wrapper := (((executed config desc answers).wrapper.setPhase 1 .waiting).setPhase 1
      .finished).setPhase 1 (.returned .OK) }

variable {config desc answers}

section
variable (hdo : (compressLoad config.ratio answers desc).ending = .done)
include hdo

end

end

end Compressor
end UnifiedCache.Compress
