import UnifiedCache.Posix.BlockCommit

/-! A published block is complete, as long as inode numbers are not mixed up. -/
namespace UnifiedCache.Posix
open List Function
open Store

namespace BlockCommitTracker

def isSet (bits : List Nat) (index : Nat) : Bool := (bits.getD (index / 64) 0).testBit (index % 64)

def Marked (id : BlockId) (ino : Ino) (index : Nat) (tracker : BlockCommitTracker) : Prop :=
  ∃ bits, tracker.map id ino = some bits ∧ isSet bits index = true

variable {n index other : Nat} {bits : List Nat} {id owner : BlockId} {ino number : Ino}
  {tracker : BlockCommitTracker}

@[simp] theorem testBit_fullMask (n w bit : Nat) :
    (fullMask n w).testBit bit = decide (bit < min 64 (n - w * 64)) := by
  unfold fullMask
  rw [Nat.one_shiftLeft, Nat.testBit_two_pow_sub_one]

theorem isSet_of_complete (h : complete n bits = true) (hl : index < n) :
    isSet bits index = true := by
  have hw : index / 64 < nWords n := by
    unfold nWords
    omega
  have hm := all_eq_true.1 h (index / 64) (mem_range.2 hw)
  unfold isSet
  rw [of_decide_eq_true hm, testBit_fullMask]
  apply decide_eq_true
  omega

theorem isSet_modify
    (h : isSet (bits.modify (index / 64) fun w => w ||| 1 <<< (index % 64)) other = true) :
    isSet bits other = true ∨ other = index := by
  unfold isSet at h ⊢
  rw [getD_eq_getElem?_getD, List.getElem?_modify] at h
  rw [getD_eq_getElem?_getD]
  by_cases hw : index / 64 = other / 64
  · cases hb : bits[other / 64]? with
    | none =>
      rw [hb] at h
      simp at h
    | some =>
      rw [hb] at h
      simp only [hw, if_true, Option.map_eq_map, Option.map_some, Option.getD_some,
        Nat.testBit_or, Bool.or_eq_true, Nat.one_shiftLeft, Nat.testBit_two_pow,
        decide_eq_true_eq] at h
      apply h.imp id
      intro _
      omega
  · left
    simpa [hw] using h

@[simp] theorem isSet_replicate (w idx : Nat) : isSet (List.replicate w 0) idx = false := by
  unfold isSet
  rw [getD_eq_getElem?_getD, List.getElem?_replicate]
  split <;> simp

theorem marked_of_isSet
    (h : isSet ((tracker.map id ino).getD (List.replicate (nWords n) 0)) other = true) :
    tracker.Marked id ino other := by
  cases he : tracker.map id ino with
  | none =>
    rw [he, Option.getD_none, isSet_replicate] at h
    cases h
  | some bits =>
    rw [he] at h
    exact ⟨bits, he, h⟩

@[simp] theorem map_set_self (entry : Option (List Nat)) :
    (tracker.set id ino entry).map id ino = entry := by
  unfold set
  dsimp only
  rw [update_self, update_self]

@[simp] theorem map_set_of_ne (e : Option (List Nat)) (hn : owner ≠ id ∨ number ≠ ino) :
    (tracker.set id ino e).map owner number = tracker.map owner number := by
  unfold set
  dsimp only
  by_cases he : owner = id
  · subst he
    rw [update_self, update_of_ne (hn.resolve_left (by simp))]
  · rw [update_of_ne he]

theorem marked_of_markDone (h : (tracker.markDone n id index ino).1.Marked owner number other) :
    tracker.Marked owner number other ∨ owner = id ∧ number = ino ∧ other = index := by
  have ho : ∀ e, (tracker.set id ino e).Marked owner number other →
      (owner = id → number = ino → ∀ bits, e = some bits → isSet bits other = true →
        tracker.Marked owner number other ∨ owner = id ∧ number = ino ∧ other = index) →
      tracker.Marked owner number other ∨ owner = id ∧ number = ino ∧ other = index := by
    rintro e ⟨bits, hb, hs⟩ he
    by_cases hc : owner = id ∧ number = ino
    · obtain ⟨rfl, rfl⟩ := hc
      rw [map_set_self] at hb
      exact he rfl rfl bits hb hs
    · rw [map_set_of_ne _ (by tauto)] at hb
      exact .inl ⟨bits, hb, hs⟩
  unfold markDone at h
  split at h
  · exact .inl h
  dsimp only at h
  split at h
  · apply ho none h
    intro _ _ bits hb
    cases hb
  apply ho _ h
  rintro rfl rfl bits hb hs
  cases hb
  apply (isSet_modify hs).imp marked_of_isSet
  exact fun hq => ⟨rfl, rfl, hq⟩

theorem marked_of_markDone_true (h : (tracker.markDone n id index ino).2 = true)
    (hl : other < n) : tracker.Marked id ino other ∨ other = index := by
  unfold markDone at h
  split at h
  · cases h
  dsimp only at h
  split at h
  · rename_i hc
    exact (isSet_modify (isSet_of_complete hc hl)).imp_left marked_of_isSet
  · cases h

end BlockCommitTracker

namespace Storage

def WholeAt (config : Config) (file index : Nat) (storage : Storage) : Prop :=
  ∃ found, storage.files[file]? = some found ∧
    ∀ piece < config.pieces, (index, piece) ∈ found.written

def Whole (config : Config) (owner : BlockId) (ino : Ino) (index : Nat) (storage : Storage) : Prop :=
  ∃ file, storage.current owner ino = some file ∧ storage.WholeAt config file index

def Named (owner : BlockId) (file : Nat) (storage : Storage) : Prop :=
  ∃ found, storage.files[file]? = some found ∧ found.owner = owner ∧ found.ino ≠ 0 ∧
    storage.current owner found.ino = some file

end Storage

def Worker.Sound (config : Config) (storage : Storage) (worker : Worker) : Prop :=
  match worker.stage with
  | .opened file => storage.Named worker.owner file
  | .writing file ino next => storage.Named worker.owner file ∧
    ∃ found, storage.files[file]? = some found ∧ (ino = 0 ∨ found.ino = ino) ∧
      ∀ piece < next, (worker.index, piece) ∈ found.written
  | .closed ino => ino ≠ 0 → storage.Whole config worker.owner ino worker.index
  | .checking ino =>
    ino ≠ 0 → ∀ index < config.nShardPerBlock, storage.Whole config worker.owner ino index
  | .committing ino =>
    (∀ index < config.nShardPerBlock, storage.Whole config worker.owner ino index) ∧
      (storage.activated worker.owner = none ∨
        storage.activated worker.owner = storage.current worker.owner ino)
  | _ => True

namespace Storage

structure Sound (config : Config) (storage : Storage) : Prop where
  linked : ∀ owner file, storage.activated owner = some file → storage.Named owner file
  workers : ∀ worker ∈ storage.workers, worker.Sound config storage
  tracked : ∀ owner ino index, ino ≠ 0 → storage.tracker.Marked owner ino index →
    storage.Whole config owner ino index
  published : ∀ file ∈ storage.published, ∀ index < config.nShardPerBlock,
    storage.WholeAt config file index

structure Grows (storage next : Storage) : Prop where
  files : ∀ (file : Nat) (found : File), storage.files[file]? = some found →
    ∃ grown : File, next.files[file]? = some grown ∧ grown.owner = found.owner ∧ grown.ino = found.ino ∧
      ∀ piece ∈ found.written, piece ∈ grown.written
  current : next.current = storage.current
  activated : ∀ owner, next.activated owner = none ∨
    next.activated owner = storage.activated owner

variable {cfg : Config} {storage next : Storage} {owner : BlockId} {file index : Nat} {ino : Ino}
  {worker : Worker}

theorem Grows.same (hfi : next.files = storage.files) (hc : next.current = storage.current)
    (ha : ∀ owner, next.activated owner = none ∨ next.activated owner = storage.activated owner) :
    Grows storage next := by
  refine ⟨?_, hc, ha⟩
  intro file f hf
  exact ⟨f, hfi ▸ hf, rfl, rfl, fun _ hn => hn⟩

section
variable (h : Grows storage next)
include h

theorem Grows.wholeAt (hw : storage.WholeAt cfg file index) : next.WholeAt cfg file index := by
  obtain ⟨f, hf, ha⟩ := hw
  obtain ⟨g, hg, -, -, hm⟩ := h.files file f hf
  exact ⟨g, hg, fun p hl => hm _ (ha p hl)⟩

theorem Grows.whole (hw : storage.Whole cfg owner ino index) : next.Whole cfg owner ino index := by
  obtain ⟨file, hf, hw⟩ := hw
  refine ⟨file, ?_, h.wholeAt hw⟩
  rw [h.current]
  exact hf

theorem Grows.named (ha : storage.Named owner file) : next.Named owner file := by
  obtain ⟨f, hf, ho, hin, hc⟩ := ha
  obtain ⟨g, hg, hs, hn, -⟩ := h.files file f hf
  refine ⟨g, hg, hs.trans ho, hn ▸ hin, ?_⟩
  rw [h.current, hn]
  exact hc

theorem Grows.workerSound (hw : worker.Sound cfg storage) : worker.Sound cfg next := by
  unfold Worker.Sound at hw ⊢
  cases hs : worker.stage with
  | opened =>
    rw [hs] at hw
    exact h.named hw
  | writing file =>
    rw [hs] at hw
    obtain ⟨ha, found, hf, hn, hr⟩ := hw
    obtain ⟨grown, hg, -, hu, hm⟩ := h.files file found hf
    exact ⟨h.named ha, grown, hg, hu.symm ▸ hn, fun other hl => hm _ (hr other hl)⟩
  | closed =>
    rw [hs] at hw
    exact fun hn => h.whole (hw hn)
  | checking =>
    rw [hs] at hw
    exact fun hn index hl => h.whole (hw hn index hl)
  | committing =>
    rw [hs] at hw
    refine ⟨fun index hl => h.whole (hw.1 index hl), ?_⟩
    rw [h.current]
    obtain ho | hsa := h.activated worker.owner
    · exact .inl ho
    · rw [hsa]
      exact hw.2
  | _ => trivial

theorem Grows.linked (hl : ∀ owner file, storage.activated owner = some file →
    storage.Named owner file) (owner : BlockId) (file : Nat) (ha : next.activated owner = some file)
    : next.Named owner file := by
  obtain hn | hs := h.activated owner
  · rw [ha] at hn
    cases hn
  · exact h.named (hl owner file (hs.symm.trans ha))

end

theorem mem_setStage {stage : Stage} {found : Worker} (hw : storage.workers[index]? = some worker)
    (h : found ∈ (storage.setStage index stage).workers) :
    found ∈ storage.workers ∨ found = { worker with stage } := by
  obtain ⟨p, hp⟩ := mem_iff_getElem?.1 h
  unfold setStage at hp
  rw [List.getElem?_modify] at hp
  by_cases he : index = p
  · subst he
    rw [hw] at hp
    simp only [if_true, Option.map_eq_map, Option.map_some, Option.some.injEq] at hp
    exact .inr hp.symm
  left
  rw [mem_iff_getElem?]
  refine ⟨p, ?_⟩
  simpa [he] using hp

theorem Sound.grows (h : storage.Sound config) (hg : Grows storage next)
    (hs : next.workers = storage.workers) (hw : storage.workers[index]? = some worker)
    {stage : Stage} (hsg : ({ worker with stage } : Worker).Sound config next)
    (ht : ∀ owner ino index, ino ≠ 0 → next.tracker.Marked owner ino index →
      next.Whole config owner ino index)
    (hp : ∀ file ∈ next.published, ∀ index < config.nShardPerBlock, next.WholeAt config file index)
    : (next.setStage index stage).Sound config := by
  constructor
  · exact hg.linked h.linked
  · intro f hf
    rw [← hs] at hw
    obtain ho | he := mem_setStage hw hf
    · rw [hs] at ho
      exact hg.workerSound (h.workers f ho)
    · rw [he]
      exact hsg
  · exact ht
  · exact hp

/-- Nothing that was done under a number is left over when a block's new file gets it, and
no worker of the block is about to rename the path. -/
def unused (owner : BlockId) (ino : Ino) (storage : Storage) : Prop :=
  storage.tracker.map owner ino = none ∧ ∀ worker ∈ storage.workers, worker.owner = owner →
    worker.ino? ≠ some ino ∧ worker.commits = false

instance decidableUnused (owner : BlockId) (ino : Ino) (storage : Storage) :
    Decidable (storage.unused owner ino) :=
  inferInstanceAs (Decidable (_ ∧ _))

theorem files_create {found : File} (h : storage.files[file]? = some found) :
    (storage.create owner ino).files[file]? = some found := by
  unfold create
  rw [List.getElem?_append_left (List.getElem?_eq_some_iff.1 h).1]
  exact h

variable {other : BlockId}

@[simp] theorem current_create_of_ne {number : Ino} (hn : other ≠ owner ∨ number ≠ ino) :
    (storage.create owner ino).current other number = storage.current other number := by
  unfold create
  dsimp only
  by_cases he : other = owner
  · subst he
    rw [update_self, update_of_ne (hn.resolve_left (by simp))]
  · rw [update_of_ne he]

theorem wholeAt_create (h : storage.WholeAt cfg file index) :
    (storage.create owner ino).WholeAt cfg file index := by
  obtain ⟨f, hf, ha⟩ := h
  exact ⟨f, files_create hf, ha⟩

theorem whole_create {number : Ino} (hn : other ≠ owner ∨ number ≠ ino)
    (h : storage.Whole cfg other number index) :
    (storage.create owner ino).Whole cfg other number index := by
  obtain ⟨file, hf, hw⟩ := h
  exact ⟨file, (current_create_of_ne hn).trans hf, wholeAt_create hw⟩

theorem named_create (h : storage.Named other file)
    (hn : ∀ f : File, storage.files[file]? = some f → other ≠ owner ∨ f.ino ≠ ino) :
    (storage.create owner ino).Named other file := by
  obtain ⟨f, hf, ho, hin, hc⟩ := h
  exact ⟨f, files_create hf, ho, hin, (current_create_of_ne (hn f hf)).trans hc⟩

theorem named_create_self (hn : ino ≠ 0) :
    (storage.create owner ino).Named owner storage.files.length := by
  refine ⟨{ owner, ino }, ?_, rfl, hn, ?_⟩
  · unfold create
    rw [List.getElem?_append_right (Nat.le_refl _), Nat.sub_self]
    rfl
  · unfold create
    dsimp only
    rw [update_self, update_self]

theorem ino_ne_of_open (hr : storage.free ino = true) {f : File}
    (hf : storage.files[file]? = some f) (hw : worker ∈ storage.workers)
    (ho : worker.file? = some file) : f.ino ≠ ino := by
  rintro rfl
  have ha := (of_decide_eq_true hr).2
  have hn := all_eq_true.1 ha file (mem_range.2 (List.getElem?_eq_some_iff.1 hf).1)
  have hl : storage.live file = true := by
    unfold live
    rw [hf]
    apply decide_eq_true
    right
    right
    exact any_eq_true.2 ⟨worker, hw, decide_eq_true ho⟩
  simp [hl, hf] at hn

theorem workerSound_create (hr : storage.free ino = true) (hu : storage.unused owner ino)
    (hm : worker ∈ storage.workers) (h : worker.Sound cfg storage) :
    worker.Sound cfg (storage.create owner ino) := by
  have ho : ∀ number, worker.ino? = some number → worker.owner ≠ owner ∨ number ≠ ino := by
    intro number hn
    by_cases he : worker.owner = owner
    · right
      rintro rfl
      exact (hu.2 worker hm he).1 hn
    · exact .inl he
  have hp : ∀ file, worker.file? = some file → storage.Named worker.owner file →
      (storage.create owner ino).Named worker.owner file := by
    intro file hfi ha
    apply named_create ha
    intro found hf
    exact .inr (ino_ne_of_open hr hf hm hfi)
  unfold Worker.Sound at h ⊢
  cases hs : worker.stage with
  | opened file =>
    rw [hs] at h
    exact hp file (by simp [Worker.file?, hs]) h
  | writing file =>
    rw [hs] at h
    obtain ⟨ha, found, hf, hrs⟩ := h
    exact ⟨hp file (by simp [Worker.file?, hs]) ha, found, files_create hf, hrs⟩
  | closed number =>
    rw [hs] at h
    exact fun hn => whole_create (ho number (by simp [Worker.ino?, hs])) (h hn)
  | checking number =>
    rw [hs] at h
    exact fun hn index hl =>
      whole_create (ho number (by simp [Worker.ino?, hs])) (h hn index hl)
  | committing =>
    rw [hs] at h
    have hne : worker.owner ≠ owner := by
      intro he
      have hc := (hu.2 worker hm he).2
      simp [Worker.commits, hs] at hc
    refine ⟨fun index hl => whole_create (.inl hne) (h.1 index hl), ?_⟩
    have hac : (storage.create owner ino).activated worker.owner =
        storage.activated worker.owner := update_of_ne hne _ _
    rw [hac, current_create_of_ne (.inl hne)]
    exact h.2
  | _ => trivial

theorem Sound.create (h : storage.Sound config) (hw : storage.workers[index]? = some worker)
    (hr : storage.free ino = true) (hu : storage.unused worker.owner ino) :
    ((storage.create worker.owner ino).setStage index (.opened storage.files.length)).Sound
    config := by
  have hn : ino ≠ 0 := (of_decide_eq_true hr).1
  constructor
  · intro owner file ha
    have ha : Function.update storage.activated worker.owner (some storage.files.length)
        owner = some file := ha
    by_cases he : owner = worker.owner
    · subst he
      rw [update_self] at ha
      cases ha
      exact named_create_self hn
    · rw [update_of_ne he] at ha
      exact named_create (h.linked owner file ha) fun _ _ => .inl he
  · intro f hf
    have hs : (storage.create worker.owner ino).workers[index]? = some worker := hw
    obtain ho | he := mem_setStage hs hf
    · exact workerSound_create hr hu ho (h.workers f ho)
    · rw [he]
      exact named_create_self hn
  · intro owner number s hnu hm
    change storage.tracker.Marked owner number s at hm
    have hne : owner ≠ worker.owner ∨ number ≠ ino := by
      by_contra hs
      obtain ⟨rfl, rfl⟩ : owner = worker.owner ∧ number = ino := by tauto
      obtain ⟨bits, hb, -⟩ := hm
      have hno := hu.1
      rw [hb] at hno
      cases hno
    exact whole_create hne (h.tracked owner number s hnu hm)
  · exact fun file hfi s hl => wholeAt_create (h.published file hfi s hl)

end Storage
end UnifiedCache.Posix
