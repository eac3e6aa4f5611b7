import UnifiedCache.Lib.Transition
import UnifiedCache.Mooncake.ShareBuffer

/-! The shared buffer of the PCStore. Its headers and the loop of `AcquireBlock` are
those of the Mooncake store's buffer; a block id is sixteen bytes, which `Set` reads as
two words. The readers load the slots themselves. -/
namespace UnifiedCache.PcStore
open Function Probing Transition
open Mooncake (ShareBlockId ShareBlockHeader Headers)

abbrev Block := ShareBlockId

def acquireBlock (hash : Block → Nat) (blockNumber : Nat) (block : Block) (headers : Headers) :
    Headers × Option Nat :=
  headers.probe blockNumber block blockNumber (hash block % blockNumber) none

/-- Where a reader is in `Ready4Read`: it has seen `INIT`, or it reads the file. -/
inductive Stage where
  | idle | claiming | reading
  deriving DecidableEq

/-- A reader of a slot; `ok` says that its last `Ready4Read` has returned OK. -/
structure Reader where
  block : Block
  stage : Stage := .idle
  ok : Bool := false
  deriving DecidableEq

structure LocalReader (Bytes : Type) where
  block : Block
  ok : Bool := false
  data : Bytes

structure Buffer (Bytes : Type) where
  headers : Headers := fun _ => {}
  data : Nat → Bytes
  readers : Nat → List Reader := fun _ => []
  locals : List (LocalReader Bytes) := []

variable {Bytes : Type}

/-- A step of `Ready4ReadOnSharedBuffer` on the header and the bytes of its slot. -/
inductive Act (file : Block → Bytes) (header : ShareBlockHeader) (data : Bytes) (reader : Reader) :
    ShareBlockHeader → Bytes → Reader → Prop where
  | look : reader.stage = .idle → header.status ≠ .INIT →
    Act file header data reader header data { reader with ok := header.status = .LOADED }
  | lookInit : reader.stage = .idle → header.status = .INIT →
    Act file header data reader header data { reader with stage := .claiming, ok := false }
  | claim : reader.stage = .claiming → header.status = .INIT →
    Act file header data reader { header with status := .LOADING } data
      { reader with stage := .reading }
  | late : reader.stage = .claiming → header.status ≠ .INIT →
    Act file header data reader header data { reader with stage := .idle }
  | write (new : Bytes) : reader.stage = .reading → Act file header data reader header new reader
  | loaded : reader.stage = .reading →
    Act file header data reader { header with status := .LOADED } (file reader.block)
      { reader with stage := .idle, ok := true }
  | failed : reader.stage = .reading →
    Act file header data reader { header with status := .FAILURE } data
      { reader with stage := .idle }

inductive Label where
  | makeReader (block : Block)
  | ready4Read
  | destroy

/-- The steps of all the processes. A reader that cannot be created is one that is
destroyed at once. -/
inductive Step (hash : Block → Nat) (blockNumber : Nat) (file : Block → Bytes)
    (buffer : Buffer Bytes) : Label → Buffer Bytes → Prop where
  | makeSharedReader (block : Block) :
    acquireBlock hash blockNumber block buffer.headers = (headers, some pos) →
    Step hash blockNumber file buffer (.makeReader block)
      { buffer with
        headers, readers := update buffer.readers pos ({ block } :: buffer.readers pos) }
  | makeLocalReader (data : Bytes) :
    acquireBlock hash blockNumber block buffer.headers = (headers, none) →
    Step hash blockNumber file buffer (.makeReader block)
      { buffer with headers, locals := { block, data } :: buffer.locals }
  | ready4Read (pos : Nat) (before : List Reader) :
    buffer.readers pos = before ++ reader :: after →
    Act file (buffer.headers pos) (buffer.data pos) reader header data next →
    Step hash blockNumber file buffer .ready4Read
      { buffer with
        headers := update buffer.headers pos header
        data := update buffer.data pos data
        readers := update buffer.readers pos (before ++ next :: after) }
  | readLocal (data : Bytes) (ok : Bool) : buffer.locals = before ++ reader :: after →
    (ok → data = file reader.block) →
    Step hash blockNumber file buffer .ready4Read
      { buffer with locals := before ++ { reader with data, ok } :: after }
  | destroy : buffer.readers pos = before ++ reader :: after → reader.stage = .idle →
    Step hash blockNumber file buffer .destroy
      { buffer with
        headers := buffer.headers.releaseBlock pos
        readers := update buffer.readers pos (before ++ after) }
  | destroyLocal : buffer.locals = before ++ reader :: after →
    Step hash blockNumber file buffer .destroy { buffer with locals := before ++ after }

def system (hash : Block → Nat) (blockNumber : Nat) (file : Block → Bytes) :
    System (Buffer Bytes) Label where
  init buffer := ∃ data, buffer = { data }
  step := Step hash blockNumber file

/-- No block id is all zero, as the id of a slot is that nobody has used. -/
def Named (_ : Buffer Bytes) (label : Label) (_ : Buffer Bytes) : Prop :=
  ∀ block, label = .makeReader block → block.used = true

/-! One slot: its header, its bytes and its readers. -/

open List

structure Fits (file : Block → Bytes) (header : ShareBlockHeader) (data : Bytes)
    (readers : List Reader) : Prop where
  ref : header.ref = readers.length
  named : ∀ reader ∈ readers, header.id = reader.block
  free : header.id.used = false → readers = []
  reading : ∀ reader ∈ readers, reader.stage = .reading → header.status = .LOADING
  ok : ∀ reader ∈ readers, reader.ok = true → header.status = .LOADED
  single : (readers.countP fun reader => reader.stage = .reading) ≤ 1
  loaded : header.status = .LOADED → data = file header.id

namespace Fits
variable {file : Block → Bytes} {header : ShareBlockHeader} {data : Bytes} {reader next : Reader}
  {readers before after : List Reader}

theorem start : Fits file {} data [] := by
  constructor <;> simp

theorem occupy (block : Block) (data : Bytes) (hu : block.used = true) :
    Fits file (.occupy block) data [{ block }] := by
  constructor <;> simp [ShareBlockHeader.occupy, hu]

theorem nil_of_free (h : Fits file header data readers)
    (hf : header.id.used = false ∨ header.ref ≤ 0) : readers = [] := by
  rcases hf with hu | hr
  · exact h.free hu
  · rw [h.ref] at hr
    exact length_eq_zero_iff.1 (by omega)

theorem refer (h : Fits file header data readers) (hu : header.id.used = true) :
    Fits file header.refer data ({ block := header.id } :: readers) := by
  -- A slot with readers keeps its status.
  have hs : ∀ o ∈ readers, header.refer.status = header.status := by
    intro o ho
    have hp := length_pos_of_mem ho
    exact if_neg fun hz => by have hr := h.ref; omega
  constructor
  · simp [ShareBlockHeader.refer, h.ref]
  · simpa [ShareBlockHeader.refer] using h.named
  · simp [ShareBlockHeader.refer, hu]
  · simpa using fun o ho hr => (hs o ho).trans (h.reading o ho hr)
  · simpa using fun o ho hk => (hs o ho).trans (h.ok o ho hk)
  · simpa using h.single
  · intro hl
    unfold ShareBlockHeader.refer at hl
    dsimp only at hl
    split at hl
    · cases hl
    · exact h.loaded hl

section
variable (h : Fits file header data (before ++ reader :: after))
include h

theorem release : Fits file { header with ref := header.ref - 1 } data (before ++ after) := by
  have hm : ∀ o ∈ before ++ after, o ∈ before ++ reader :: after := by
    simp only [mem_append, mem_cons]
    tauto
  refine { h with
    ref := ?_
    named := fun o ho => h.named o (hm o ho)
    free := fun hu => absurd (h.free hu) (by simp)
    reading := fun o ho => h.reading o (hm o ho)
    ok := fun o ho => h.ok o (hm o ho)
    single := ?_ }
  · simp [h.ref]
    omega
  · have hs := h.single
    simp only [countP_append, countP_cons] at hs ⊢
    omega

theorem others (hr : reader.stage = .reading ∨ header.status = .INIT) :
    ∀ o ∈ before ++ after, o.stage ≠ .reading ∧ o.ok = false := by
  intro o ho
  have hm : o ∈ before ++ reader :: after := by
    simp only [mem_append, mem_cons] at ho ⊢
    tauto
  have hk := h.ok o hm
  have hg := h.reading o hm
  rcases hr with hr | hi
  · have hl := h.reading reader (by simp) hr
    refine ⟨fun he => ?_, by simpa [hl] using hk⟩
    have hs := h.single
    have hp : 0 < (before ++ after).countP fun reader => reader.stage = .reading :=
      countP_pos_iff.2 ⟨o, ho, by simpa using he⟩
    simp only [countP_append, countP_cons, hr, decide_true, if_true] at hs hp
    omega
  · simp only [hi, reduceCtorEq, imp_false] at hg hk
    exact ⟨hg, by simpa using hk⟩

theorem replace {status : Mooncake.ShareBlockStatus} {new : Bytes} (hb : next.block = reader.block)
    (hr : next.stage = .reading → status = .LOADING) (hk : next.ok = true → status = .LOADED)
    (hl : status = .LOADED → new = file header.id)
    (ho : (status = header.status ∧ (next.stage = .reading → reader.stage = .reading)) ∨
      ∀ o ∈ before ++ after, o.stage ≠ .reading ∧ o.ok = false) :
    Fits file { header with status } new (before ++ next :: after) := by
  obtain ⟨hf, hn, hu, hg, ha, hs, -⟩ := h
  simp only [forall_mem_append, forall_mem_cons] at hn hg ha ho
  refine ⟨by simpa using hf, ?_, fun hz => absurd (hu hz) (by simp), ?_, ?_, ?_, hl⟩
  · simpa only [forall_mem_append, forall_mem_cons, hb] using hn
  · simp only [forall_mem_append, forall_mem_cons]
    rcases ho with ⟨rfl, -⟩ | ⟨hx, hy⟩
    · exact ⟨hg.1, hr, hg.2.2⟩
    · exact ⟨fun o hm he => absurd he (hx o hm).1, hr, fun o hm he => absurd he (hy o hm).1⟩
  · simp only [forall_mem_append, forall_mem_cons]
    rcases ho with ⟨rfl, -⟩ | ⟨hx, hy⟩
    · exact ⟨ha.1, hk, ha.2.2⟩
    · exact ⟨fun o hm he => by simp [(hx o hm).2] at he, hk,
        fun o hm he => by simp [(hy o hm).2] at he⟩
  · simp only [countP_append, countP_cons, decide_eq_true_eq] at hs ⊢
    rcases ho with ⟨-, hx⟩ | ⟨hx, hy⟩
    · split <;> split at hs <;> first | omega | tauto
    · rw [countP_eq_zero.2 fun o hm => by simp [(hx o hm).1],
        countP_eq_zero.2 fun o hm => by simp [(hy o hm).1]]
      split <;> omega

theorem act {header' : ShareBlockHeader} {new : Bytes}
    (ha : Act file header data reader header' new next) :
    header'.id = header.id ∧ Fits file header' new (before ++ next :: after) := by
  have hl := h.reading reader (by simp)
  have hk := h.ok reader (by simp)
  cases ha with
  | look hi => exact ⟨rfl, h.replace rfl hl (by simp) h.loaded (.inl ⟨rfl, id⟩)⟩
  | lookInit => exact ⟨rfl, h.replace rfl nofun nofun h.loaded (.inl ⟨rfl, nofun⟩)⟩
  | claim _ hi =>
    refine ⟨rfl, h.replace rfl (fun _ => rfl) (fun ho => ?_) nofun (.inr (h.others (.inr hi)))⟩
    cases hi.symm.trans (hk ho)
  | late => exact ⟨rfl, h.replace rfl nofun hk h.loaded (.inl ⟨rfl, nofun⟩)⟩
  | write _ hr =>
    refine ⟨rfl, h.replace rfl hl hk (fun hd => ?_) (.inl ⟨rfl, id⟩)⟩
    cases hd.symm.trans (hl hr)
  | loaded hr =>
    refine ⟨rfl, h.replace rfl nofun (fun _ => rfl) (fun _ => ?_) (.inr (h.others (.inl hr)))⟩
    rw [h.named reader (by simp)]
  | failed hr =>
    refine ⟨rfl, h.replace rfl nofun (fun ho => ?_) nofun (.inr (h.others (.inl hr)))⟩
    cases (hl hr).symm.trans (hk ho)

end
end Fits

def ids (headers : Headers) (pos : Nat) : Block := (headers pos).id

def idAt (ids : Nat → Block) (pos : Nat) : Option Block :=
  if (ids pos).used then some (ids pos) else none

abbrev Located (hash : Block → Nat) (n : Nat) (ids : Nat → Block) : Prop :=
  Placed n hash (idAt ids) fun pos => (ids pos).used = false

section
variable {hash : Block → Nat} {n count k : Nat} {headers : Headers} {block : Block}

@[simp] theorem ids_update (headers : Headers) (pos : Nat) (header : ShareBlockHeader) :
    ids (update headers pos header) = update (ids headers) pos header.id := by
  funext p
  exact apply_update (fun _ => ShareBlockHeader.id) headers pos header p

theorem idAt_eq_some {ids : Nat → Block} {pos : Nat} (h : block.used = true) :
    idAt ids pos = some block ↔ ids pos = block := by
  unfold idAt
  split
  · exact Option.some_inj
  · refine iff_of_false nofun ?_
    rintro rfl
    contradiction

theorem Located.same_ids (h : Located hash n (ids headers)) {pos : Nat} {header : ShareBlockHeader}
    (hi : header.id = ids headers pos) : Located hash n (ids (update headers pos header)) := by
  rwa [ids_update, hi, update_eq_self]

theorem Located.occupy (h : Located hash n (ids headers)) (hu : block.used = true)
    (hp : headers.Passed n (hash block) block count)
    (he : count = n ∨ (headers (walk n (hash block) count)).id.used = false) (hk : k ≤ count)
    (hn : k < n) :
    Located hash n (ids (update headers (walk n (hash block) k) (.occupy block))) := by
  have ha : ∀ p, idAt (ids headers) p ≠ some block :=
    Placed.absent h (fun j hj hz => (hp j hj).1 ((idAt_eq_some hu).1 hz)) he
  generalize hw : walk n (hash block) k = pos
  have hb : ∀ p, (update (ids headers) pos block p).used = false →
      p ≠ pos ∧ (ids headers p).used = false := by
    intro p hz
    rw [update_apply] at hz
    split at hz
    · exact absurd (hu.symm.trans hz) nofun
    · exact ⟨‹_›, hz⟩
  have hi : idAt (update (ids headers) pos block) = update (idAt (ids headers)) pos (some block) := by
    funext p
    by_cases hq : p = pos
    · simp [idAt, hq, hu]
    · simp [idAt, hq]
  rw [ids_update, ShareBlockHeader.occupy, Located, hi]
  refine Placed.put h ha ⟨k, hn, hw, fun j hj hz => ?_⟩ (fun p hz => (hb p hz).2) fun hz =>
    (hb pos hz).1 rfl
  exact absurd ((hp j (by omega)).2.symm.trans (hb _ hz).2) nofun

end

structure Sound (hash : Block → Nat) (n : Nat) (file : Block → Bytes) (buffer : Buffer Bytes) :
    Prop where
  fits : ∀ pos, Fits file (buffer.headers pos) (buffer.data pos) (buffer.readers pos)
  located : Located hash n (ids buffer.headers)
  locals : ∀ reader ∈ buffer.locals, reader.ok = true → reader.data = file reader.block

namespace Sound
variable {hash : Block → Nat} {n : Nat} {file : Block → Bytes} {buffer next : Buffer Bytes}
  {block : Block} {headers : Headers} {label : Label}

theorem fits_update (h : Sound hash n file buffer) (pos : Nat) {header : ShareBlockHeader}
    {data : Bytes} {readers : List Reader} (hf : Fits file header data readers) (p : Nat) :
    Fits file (update buffer.headers pos header p) (update buffer.data pos data p)
      (update buffer.readers pos readers p) := by
  simp only [update_apply]
  split
  · exact hf
  · exact h.fits p

theorem probed (h : Sound hash n file buffer) (hu : block.used = true) {slot : Option Nat}
    (ha : acquireBlock hash n block buffer.headers = (headers, slot)) :
    match slot with
    | some pos => Located hash n (ids headers) ∧ ∃ header,
        headers = update buffer.headers pos header ∧
        Fits file header (buffer.data pos) ({ block } :: buffer.readers pos) ∧
        (buffer.readers pos ≠ [] → header.id = (buffer.headers pos).id)
    | none => headers = buffer.headers ∧
        ∀ pos < n, (headers pos).id ≠ block ∧ 0 < (headers pos).ref := by
  have hp := Headers.probe_start n (hash block) block buffer.headers
  rw [← acquireBlock, ha] at hp
  cases hp with
  | hit pos hl hi =>
    refine ⟨h.located.same_ids rfl, _, rfl, ?_, fun _ => rfl⟩
    subst hi
    exact (h.fits pos).refer hu
  | taken count k hc he hk hl hf =>
    have hz := (h.fits _).nil_of_free hf
    refine ⟨h.located.occupy hu hc he hk hl, _, rfl, ?_, fun hr => absurd hz hr⟩
    rw [hz]
    exact Fits.occupy block _ hu
  | full hc hr =>
    refine ⟨rfl, fun pos hl => ?_⟩
    obtain ⟨k, hk, rfl⟩ := exists_walk (hash block) hl
    exact ⟨(hc k hk).1, hr k hk⟩

theorem step (h : Sound hash n file buffer) (hs : Step hash n file buffer label next)
    (hm : Named buffer label next) : Sound hash n file next := by
  cases hs with
  | @makeSharedReader headers pos block ha =>
    obtain ⟨hp, header, rfl, hf, -⟩ := h.probed (hm block rfl) ha
    refine ⟨fun p => ?_, hp, h.locals⟩
    simpa only [update_eq_self] using h.fits_update pos hf p
  | @makeLocalReader block headers data ha =>
    obtain ⟨rfl, -⟩ := h.probed (hm block rfl) ha
    exact ⟨h.fits, h.located, forall_mem_cons.2 ⟨nofun, h.locals⟩⟩
  | @ready4Read reader after header data next pos before hr ha =>
    obtain ⟨hi, hf⟩ := (hr ▸ h.fits pos).act ha
    exact ⟨h.fits_update pos hf, h.located.same_ids hi, h.locals⟩
  | @readLocal before reader after data ok hr ho =>
    have hl := h.locals
    rw [hr, forall_mem_append, forall_mem_cons] at hl
    exact ⟨h.fits, h.located,
      forall_mem_append.2 ⟨hl.1, forall_mem_cons.2 ⟨ho, hl.2.2⟩⟩⟩
  | @destroy pos before reader after hr =>
    refine ⟨fun p => ?_, h.located.same_ids rfl, h.locals⟩
    have hf := h.fits_update pos (hr ▸ h.fits pos).release p
    rwa [update_eq_self] at hf
  | @destroyLocal before reader after hr =>
    have hl := h.locals
    rw [hr, forall_mem_append, forall_mem_cons] at hl
    exact ⟨h.fits, h.located, forall_mem_append.2 ⟨hl.1, hl.2.2⟩⟩

theorem of_reachable (h : Reachable ((system hash n file).restrict Named) buffer) :
    Sound hash n file buffer := by
  apply h.invariant
  · rintro _ ⟨data, rfl⟩
    exact ⟨fun _ => .start, ⟨nofun, nofun, nofun⟩, nofun⟩
  · intro _ _ _ _ hs ht
    exact hs.step ht.1 ht.2

theorem keeps_id (h : Sound hash n file buffer) (hs : Step hash n file buffer label next)
    (hm : Named buffer label next) {pos : Nat} (hr : buffer.readers pos ≠ []) :
    (next.headers pos).id = (buffer.headers pos).id := by
  have hu : ∀ p header, (buffer.readers p ≠ [] → header.id = (buffer.headers p).id) →
      (update buffer.headers p header pos).id = (buffer.headers pos).id := by
    intro p header hi
    rw [update_apply]
    split
    · subst p
      exact hi hr
    · rfl
  cases hs with
  | makeSharedReader _ ha =>
    obtain ⟨-, header, rfl, -, hi⟩ := h.probed (hm _ rfl) ha
    exact hu _ _ hi
  | makeLocalReader _ ha =>
    obtain ⟨rfl, -⟩ := h.probed (hm _ rfl) ha
    rfl
  | ready4Read p _ hl ha => exact hu _ _ fun _ => ((hl ▸ h.fits p).act ha).1
  | destroy => exact hu _ _ fun _ => rfl
  | readLocal => rfl
  | destroyLocal => rfl

end Sound

theorem shared_buffer_sound {hash : Block → Nat} {n : Nat} {file : Block → Bytes}
    {buffer : Buffer Bytes} (h : Reachable ((system hash n file).restrict Named) buffer) :
    (∀ p q, (buffer.headers p).id.used = true →
      (buffer.headers p).id = (buffer.headers q).id → p = q) ∧
    (∀ pos, (buffer.headers pos).ref = (buffer.readers pos).length ∧
      ((buffer.readers pos).countP fun reader => reader.stage = .reading) ≤ 1 ∧
      (∀ reader ∈ buffer.readers pos, (buffer.headers pos).id = reader.block ∧
        (reader.ok = true → buffer.data pos = file reader.block)) ∧
      ∀ label next, ((system hash n file).restrict Named).step buffer label next →
        buffer.readers pos ≠ [] → (next.headers pos).id = (buffer.headers pos).id) ∧
    (∀ reader ∈ buffer.locals, reader.ok = true → reader.data = file reader.block) ∧
    ∀ block headers, block.used = true →
      acquireBlock hash n block buffer.headers = (headers, none) →
      ∀ pos < n, (buffer.headers pos).id ≠ block ∧ 0 < (buffer.headers pos).ref := by
  have hs := Sound.of_reachable h
  refine ⟨fun p q hu he => ?_, fun pos => ?_, hs.locals, fun block headers hu ha => ?_⟩
  · exact hs.located.unique p q _ ((idAt_eq_some hu).2 rfl) ((idAt_eq_some hu).2 he.symm)
  · have hf := hs.fits pos
    refine ⟨hf.ref, hf.single, fun reader hm => ⟨hf.named reader hm, fun ho => ?_⟩,
      fun _ _ ht hr => hs.keeps_id ht.1 ht.2 hr⟩
    rw [hf.loaded (hf.ok reader hm ho), hf.named reader hm]
  · obtain ⟨rfl, hp⟩ := hs.probed hu ha
    exact hp

/-- A reader that loads the only slot. -/
theorem shared_buffer_sound_loaded : ∃ buffer : Buffer Bool,
    Reachable ((system (fun _ => 0) 1 fun _ => true).restrict Named) buffer ∧
    (buffer.headers 0).id = ⟨1, 0⟩ ∧ buffer.data 0 = true := by
  have h := Reachable.start (M := (system (fun _ => 0) 1 fun _ => true).restrict Named)
    ⟨fun _ => false, rfl⟩
  have h := h.next ⟨.makeSharedReader ⟨1, 0⟩ rfl, by rintro _ ⟨⟩; rfl⟩
  have h := h.next ⟨.ready4Read 0 [] rfl (.lookInit rfl rfl), nofun⟩
  have h := h.next ⟨.ready4Read 0 [] rfl (.claim rfl rfl), nofun⟩
  have h := h.next ⟨.ready4Read 0 [] rfl (.loaded rfl), nofun⟩
  obtain ⟨hi, ho⟩ := ((shared_buffer_sound h).2.1 0).2.2.1 _ (.head _)
  exact ⟨_, h, hi, ho rfl⟩

/-- The block of zeros is taken to be in the unused slot, which another block then
takes over. Its reader is told that the slot is loaded and reads the other block. -/
theorem zero_block_misread : ∃ buffer : Buffer Bool,
    Reachable (system (fun _ => 0) 1 fun block => block.used) buffer ∧
    (buffer.headers 0).ref = 1 ∧ (buffer.readers 0).length = 2 ∧
    ∃ reader ∈ buffer.readers 0, reader.ok = true ∧ (buffer.headers 0).id ≠ reader.block ∧
      buffer.data 0 ≠ reader.block.used := by
  have h := Reachable.start (M := system (fun _ => 0) 1 fun block => block.used)
    ⟨fun _ => false, rfl⟩
  have h := h.next (.makeSharedReader ⟨0, 0⟩ rfl)
  have h := h.next (.makeSharedReader ⟨1, 0⟩ rfl)
  have h := h.next (.ready4Read 0 [] rfl (.lookInit rfl rfl))
  have h := h.next (.ready4Read 0 [] rfl (.claim rfl rfl))
  have h := h.next (.ready4Read 0 [] rfl (.loaded rfl))
  have h := h.next (.ready4Read 0 [_] rfl (.look rfl nofun))
  exact ⟨_, h, rfl, rfl, _, .tail _ (.head _), rfl, by decide, by decide⟩

end UnifiedCache.PcStore
