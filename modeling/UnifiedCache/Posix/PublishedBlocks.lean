import UnifiedCache.Lib.Replay
import UnifiedCache.Posix.Publishing

/-! Every step of a dump worker keeps what its numbers stand for, so that only complete
files get an archived path. -/
namespace UnifiedCache.Posix.Storage
open List Transition Function
open Store
variable {config : Config} {storage next : Storage} {owner : BlockId} {file index : Nat} {ino : Ino}
  {worker : Worker} {ok : Bool}

theorem Grows.refl (storage : Storage) : Grows storage storage :=
  .same rfl rfl fun _ => .inr rfl

theorem Sound.setStage (h : storage.Sound config) (hwo : storage.workers[index]? = some worker)
    {stage : Stage} (hs : ({ worker with stage } : Worker).Sound config storage) :
    (storage.setStage index stage).Sound config :=
  h.grows (.refl storage) rfl hwo hs h.tracked h.published

theorem sound_failureStage :
    ({ worker with stage := failureStage config index } : Worker).Sound config storage := by
  unfold failureStage
  split <;> trivial

theorem Sound.openFile (h : storage.Sound config) (hwo : storage.workers[index]? = some worker)
    (hu : ok = true → storage.activated worker.owner = none → storage.unused worker.owner ino)
    (hn : storage.openFile config index worker ino ok = some next) : next.Sound config := by
  unfold Storage.openFile at hn
  split at hn
  · cases hn
    exact h.setStage hwo sound_failureStage
  rename_i ho
  cases ha : storage.activated worker.owner with
  | some file =>
    rw [ha] at hn
    cases hn
    exact h.setStage hwo (h.linked worker.owner file ha)
  | none =>
    rw [ha] at hn
    dsimp only at hn
    split at hn
    · rename_i hf
      cases hn
      exact h.create hwo hf (hu (not_not.1 ho) ha)
    · cases hn

theorem inoOf_eq (f : File) (hf : storage.files[file]? = some f) :
    storage.inoOf (some file) ok = 0 ∨ f.ino = storage.inoOf (some file) ok := by
  unfold inoOf
  cases ok with
  | false => exact .inl rfl
  | true =>
    right
    simp [hf]

theorem grows_write (p : Nat) : Grows storage (storage.write file index p) := by
  refine ⟨?_, rfl, fun _ => .inr rfl⟩
  intro o f hf
  unfold write
  rw [List.getElem?_modify]
  by_cases he : file = o
  · simp [he, hf]
    tauto
  · simp [he, hf]

theorem files_write (p : Nat) {f : File} (hf : storage.files[file]? = some f) :
    (storage.write file index p).files[file]? =
      some { f with written := f.written ++ [(index, p)] } := by
  unfold write
  rw [List.getElem?_modify]
  simp [hf]

variable {number : Ino}

section
variable (h : storage.Sound config) (hwo : storage.workers[index]? = some worker)
include h hwo

theorem Sound.write {p : Nat} (hsg : worker.stage = .writing file number p) :
    ((storage.write file worker.index p).setStage index (.writing file number (p + 1))).Sound
      config := by
  have hg : Grows storage (storage.write file worker.index p) := grows_write p
  have hs := h.workers worker (mem_of_getElem? hwo)
  unfold Worker.Sound at hs
  rw [hsg] at hs
  obtain ⟨hn, found, hf, hu, hw⟩ := hs
  apply h.grows hg rfl hwo
  · refine ⟨hg.named hn, _, files_write p hf, hu, ?_⟩
    intro o _
    rw [mem_append]
    by_cases hl : o = p
    · right
      rw [hl]
      exact mem_singleton.2 rfl
    · left
      apply hw o
      omega
  · exact fun owner ino index hin hm => hg.whole (h.tracked owner ino index hin hm)
  · exact fun file hfi index ht => hg.wholeAt (h.published file hfi index ht)

theorem Sound.close {p : Nat} (hg : worker.stage = .writing file number p) (hp : config.pieces ≤ p)
    : (storage.setStage index (closedStage config worker.index number ok)).Sound config := by
  apply h.setStage hwo
  unfold closedStage
  split
  · exact sound_failureStage
  have hs := h.workers worker (mem_of_getElem? hwo)
  unfold Worker.Sound at hs
  rw [hg] at hs
  obtain ⟨⟨n, hn, -, -, hc⟩, found, hf, hu, hw⟩ := hs
  intro he
  have ha : n = found := Option.some.inj (hn.symm.trans hf)
  rw [ha, hu.resolve_left he] at hc
  exact ⟨file, hc, found, hf, fun o hl => hw o (hl.trans_le hp)⟩

theorem Sound.markDone (hsg : worker.stage = .closed number) {tracker : BlockCommitTracker}
    {d : Bool} (hd : storage.tracker.markDone config.nShardPerBlock worker.owner worker.index
      number = (tracker, d)) : (({ storage with tracker } : Storage).setStage index
      (if d then .checking number else .finished)).Sound config := by
  have hg : Grows storage ({ storage with tracker } : Storage) := .same rfl rfl fun _ => .inr rfl
  have hw : number ≠ 0 → storage.Whole config worker.owner number worker.index := by
    have hs := h.workers worker (mem_of_getElem? hwo)
    unfold Worker.Sound at hs
    rw [hsg] at hs
    exact hs
  apply h.grows hg rfl hwo
  · split
    · rename_i ht
      intro hn shard hl
      have hm : (storage.tracker.markDone config.nShardPerBlock worker.owner worker.index
          number).2 = true := by
        rw [hd]
        exact ht
      obtain ho | he := BlockCommitTracker.marked_of_markDone_true hm hl
      · exact hg.whole (h.tracked worker.owner number shard hn ho)
      · rw [he]
        exact hg.whole (hw hn)
    · trivial
  · intro owner ino shard hin hm
    have hm : (storage.tracker.markDone config.nShardPerBlock worker.owner worker.index
        number).1.Marked owner ino shard := by
      rw [hd]
      exact hm
    obtain ho | he := BlockCommitTracker.marked_of_markDone hm
    · exact hg.whole (h.tracked owner ino shard hin ho)
    · obtain ⟨rfl, rfl, rfl⟩ := he
      exact hg.whole (hw hin)
  · exact fun file hf shard hl => hg.wholeAt (h.published file hf shard hl)

theorem Sound.check (hg : worker.stage = .checking number) : (storage.setStage index
      (if number ≠ 0 ∧ storage.inoOf (storage.activated worker.owner) ok = number
        then .committing number else .finished)).Sound config := by
  apply h.setStage hwo
  split
  · rename_i hn
    obtain ⟨he, hn⟩ := hn
    have hs := h.workers worker (mem_of_getElem? hwo)
    unfold Worker.Sound at hs
    rw [hg] at hs
    refine ⟨hs he, ?_⟩
    cases ha : storage.activated worker.owner with
    | none => exact .inl rfl
    | some file =>
      right
      obtain ⟨f, hf, -, -, hc⟩ := h.linked worker.owner file ha
      rw [ha] at hn
      have hu := (inoOf_eq f hf).resolve_left (hn ▸ he)
      rw [hn] at hu
      rw [← hu, hc]
  · trivial

end

theorem activated_cleared (storage : Storage) (owner other : BlockId) :
    update storage.activated owner none other = none ∨ update storage.activated owner none other =
    storage.activated other := by
  by_cases he : other = owner
  · left
    rw [he, update_self]
  · right
    rw [update_of_ne he]

section
variable (h : storage.Sound config) (hwo : storage.workers[index]? = some worker)
include h hwo

theorem Sound.commitFile (hsg : worker.stage = .committing number) :
    (storage.commitFile index worker ok).Sound config := by
  have hs := h.workers worker (mem_of_getElem? hwo)
  unfold Worker.Sound at hs
  rw [hsg] at hs
  obtain ⟨hw, hc⟩ := hs
  unfold Storage.commitFile
  split
  · rename_i file hf
    have hg : Grows storage (storage.rename worker.owner file) :=
      .same rfl rfl (activated_cleared storage worker.owner)
    have hu : storage.current worker.owner number = some file := by
      obtain hn | ha := hc
      · rw [hn] at hf
        cases hf
      · rw [← ha, hf]
    apply h.grows hg rfl hwo
    · trivial
    · exact fun owner ino index hin hm => hg.whole (h.tracked owner ino index hin hm)
    intro o ht s hl
    apply hg.wholeAt
    obtain ho | he := mem_append.1 ht
    · exact h.published o ho s hl
    obtain ⟨n, hna, hat⟩ := hw s hl
    have ha : n = file := Option.some.inj (hna.symm.trans hu)
    rw [mem_singleton.1 he, ← ha]
    exact hat
  · exact h.setStage hwo trivial

theorem Sound.remove : ((storage.remove worker.owner).setStage index .finished).Sound config := by
  have hg : Grows storage (storage.remove worker.owner) :=
    .same rfl rfl (activated_cleared storage worker.owner)
  apply h.grows hg rfl hwo
  · trivial
  · exact fun owner ino index hn hm => hg.whole (h.tracked owner ino index hn hm)
  · exact fun file hf index hl => hg.wholeAt (h.published file hf index hl)

theorem Sound.work (hu : ok = true → worker.stage = .opening →
      storage.activated worker.owner = none → storage.unused worker.owner ino)
    (hn : storage.work config index worker ino ok = some next) : next.Sound config := by
  unfold Storage.work at hn
  cases hs : worker.stage <;> rw [hs] at hn
  case opening =>
    exact h.openFile hwo (fun hk => hu hk hs) hn
  case opened =>
    cases hn
    have ho := h.workers worker (mem_of_getElem? hwo)
    unfold Worker.Sound at ho
    rw [hs] at ho
    obtain ⟨found, hf, hr⟩ := ho
    exact h.setStage hwo ⟨⟨found, hf, hr⟩, found, hf, inoOf_eq found hf, by simp⟩
  case writing =>
    dsimp only at hn
    split at hn
    · rename_i hp
      cases hn
      exact h.close hwo hs hp
    split at hn
    · cases hn
      exact h.write hwo hs
    · cases hn
      exact h.setStage hwo sound_failureStage
  case closed =>
    cases hn
    exact h.markDone hwo hs rfl
  case checking =>
    cases hn
    exact h.check hwo hs
  case committing =>
    cases hn
    exact h.commitFile hwo hs
  case removing =>
    cases hn
    cases ok with
    | true => exact h.remove hwo
    | false => exact h.setStage hwo trivial
  case finished =>
    cases hn

end

def fresh (storage : Storage) : Label → Bool
  | .work index ino true =>
    match storage.workers[index]? with
    | some worker => decide (worker.stage = .opening → storage.activated worker.owner = none →
        storage.unused worker.owner ino)
    | none => true
  | _ => true

theorem Sound.perform {l : Label} (h : storage.Sound config) (hs : storage.fresh l = true)
    (hn : storage.perform config l = some next) : next.Sound config := by
  cases l with
  | dump owner index =>
    cases hn
    have hg : Grows storage ({ storage with workers := storage.workers ++ [{ owner, index }] } :
        Storage) := .same rfl rfl fun _ => .inr rfl
    refine { h with workers := ?_ }
    intro f hf
    obtain ho | he := mem_append.1 hf
    · exact hg.workerSound (h.workers f ho)
    · rw [mem_singleton.1 he]
      trivial
  | work =>
    unfold Storage.perform at hn
    dsimp only at hn
    split at hn
    · rename_i hwo
      apply h.work hwo _ hn
      rintro rfl
      unfold fresh at hs
      dsimp only at hs
      rw [hwo] at hs
      exact of_decide_eq_true hs
    · cases hn
  | recycle owner =>
    cases hn
    have hg : Grows storage ({ storage with
        archived := update storage.archived owner none } : Storage) :=
      .same rfl rfl fun _ => .inr rfl
    exact { h with workers := fun f hf => hg.workerSound (h.workers f hf) }

theorem Sound.start : ({} : Storage).Sound config := by
  constructor
  · intro owner file ha
    cases ha
  · intro worker hwo
    cases hwo
  · rintro owner ino index - ⟨b, hb, -⟩
    cases hb
  · intro file hf
    cases hf

/-- A file that gets an archived path holds all pieces of every shard, in every run in which a
new file gets a number under which nothing of its block is left over. -/
theorem published_whole (h : Transition.Reachable ((system config).restrict fun storage label _ =>
      storage.fresh label = true) storage)
    (hfile : file ∈ storage.published) (hindex : index < config.nShardPerBlock) :
    storage.WholeAt config file index := by
  have ho : storage.Sound config := by
    apply Transition.Reachable.invariant (I := fun storage => storage.Sound config) _ _ h
    · rintro storage rfl
      exact .start
    · rintro storage label next - ho ⟨hs, hf⟩
      exact ho.perform hf hs
  exact ho.published file hfile index hindex

def twoShards : Config := { tensorSize := 1, shardSize := 1, blockSize := 2 }

def blockOf (name : UInt8) : BlockId := Vector.replicate 16 name

/-- A worker opens the file, possibly a new one with the number, writes its shard and marks it. -/
def dumpShard (worker : Nat) (ino : Ino) : List Label :=
  List.replicate 5 (.work worker ino true)

def failShard (worker : Nat) (ino : Ino) : List Label :=
  [.work worker ino true, .work worker ino true, .work worker ino false, .work worker ino true]

def wholeRun : List Label :=
  [.dump (blockOf 0) 0, .dump (blockOf 0) 1] ++ dumpShard 0 5 ++ dumpShard 1 6 ++
    [.work 1 0 true, .work 1 0 true]

theorem published_whole_two : ∃ storage,
    Transition.Reachable ((system twoShards).restrict fun storage label _ =>
      storage.fresh label = true) storage ∧ 0 ∈ storage.published ∧ 1 < twoShards.nShardPerBlock ∧
    storage.WholeAt twoShards 0 1 := by
  have hu : ((replay (perform twoShards) fresh {} wholeRun).map Storage.published) =
      some [0] := by decide +kernel
  obtain ⟨storage, ht, hp⟩ := Option.map_eq_some_iff.1 hu
  have hr : Transition.Reachable ((system twoShards).restrict fun storage label _ =>
      storage.fresh label = true) storage :=
    reachable_of_replay (fun _ _ _ hs => hs) (fun _ _ _ hfs => hfs) (.start rfl) ht
  have hf : 0 ∈ storage.published := by simp [hp]
  exact ⟨storage, hr, hf, by decide, published_whole hr hf (by decide)⟩

def reusingRun : List Label :=
  [.dump (blockOf 0) 0, .dump (blockOf 0) 1, .dump (blockOf 0) 1] ++ dumpShard 0 5 ++
    failShard 1 0 ++ dumpShard 2 5 ++ [.work 2 0 true, .work 2 0 true]

def racingRun : List Label :=
  [.dump (blockOf 0) 0, .dump (blockOf 0) 1, .dump (blockOf 0) 1, .dump (blockOf 0) 0] ++
    dumpShard 0 5 ++ dumpShard 1 0 ++ [.work 1 0 true] ++ failShard 2 0 ++
    [.work 3 6 true, .work 1 0 true]

theorem not_wholeAt {f : File} (hf : storage.files[file]? = some f) (hp : (index, 0) ∉ f.written)
    (hpi : 0 < config.pieces) : ¬storage.WholeAt config file index := by
  rintro ⟨s, hs, ha⟩
  rw [hf] at hs
  cases hs
  exact hp (ha 0 hpi)

/-- An incomplete block is published when a number is used again, and also when all numbers
are different. -/
theorem incomplete_published : (∃ storage, Transition.Reachable (system twoShards) storage ∧
      ∃ file ∈ storage.published, ¬storage.WholeAt twoShards file 0) ∧
    ∃ storage, Transition.Reachable (system twoShards) storage ∧
      (storage.files.map File.ino).Nodup ∧
      ∃ file ∈ storage.published, ¬storage.WholeAt twoShards file 0 := by
  constructor
  · have hr : ((replay (perform twoShards) (fun _ _ => true) {} reusingRun).map
        fun storage => (storage.published, storage.files[1]?)) =
        some ([1], some { owner := blockOf 0, ino := 5, written := [(1, 0)] }) := by
      decide +kernel
    obtain ⟨storage, ht, hfi⟩ := Option.map_eq_some_iff.1 hr
    obtain ⟨hp, hf⟩ := Prod.mk.inj hfi
    refine ⟨storage, ?_, 1, by simp [hp], not_wholeAt hf (by decide) (by decide)⟩
    exact reachable_of_replay_free (fun _ _ _ hs => hs) rfl ht
  have hr : ((replay (perform twoShards) (fun _ _ => true) {} racingRun).map
      fun storage => (storage.published, storage.files.map File.ino, storage.files[1]?)) =
      some ([1], [5, 6], some { owner := blockOf 0, ino := 6 }) := by
    decide +kernel
  obtain ⟨storage, ht, hfi⟩ := Option.map_eq_some_iff.1 hr
  obtain ⟨hp, hrs⟩ := Prod.mk.inj hfi
  obtain ⟨hn, hf⟩ := Prod.mk.inj hrs
  refine ⟨storage, ?_, by simp [hn], 1, by simp [hp], not_wholeAt hf (by decide) (by decide)⟩
  exact reachable_of_replay_free (fun _ _ _ hs => hs) rfl ht

end UnifiedCache.Posix.Storage
