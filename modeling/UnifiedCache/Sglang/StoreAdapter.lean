import UnifiedCache.Lib.Scan
import UnifiedCache.Lib.Slices
import Mathlib.Data.List.Range

/-! The lookup of the SGLang store adapter: at which page boundaries all transfers of a
node can be restored. The stores answer exactly, so the checks of their answers pass. -/
namespace UnifiedCache.Sglang
open Slices List

structure UcmLayerTransfer (γ κ : Type) where
  store_group : γ
  /-- The hit policy: `trailing_pages`, or else all pages. -/
  trailing : Bool
  page_keys : List κ

/-- `prefix = [0]` with one more sum for each page. -/
def prefixSums (sum : Nat) : List Bool → List Nat
  | [] => [sum]
  | present :: rest => sum :: prefixSums (sum + present.toNat) rest

variable {γ κ : Type}

def applyTrailingHitPolicy (candidates : List Nat) (present : List Bool)
    (t : UcmLayerTransfer γ κ) : List Nat :=
  let sums := prefixSums 0 present
  let trailing := max 1 t.page_keys.length
  candidates.filter fun stop =>
    sums.getD stop 0 - sums.getD (stop - trailing) 0 = stop - (stop - trailing)

/-- One round of the loop. Only the pages up to the last candidate are looked up, and of
those an all-pages transfer asks from the last page of the hint on. -/
def narrow (stored : γ → κ → Bool) (page_keys : List κ) (resume_from_pages : Nat)
    (candidates : List Nat) (t : UcmLayerTransfer γ κ) : List Nat :=
  let keys := page_keys.take (candidates.getLastD 0)
  if t.trailing then
    applyTrailingHitPolicy candidates (keys.map (stored t.store_group)) t
  else
    let start := if 0 < resume_from_pages ∧ resume_from_pages ≤ keys.length then
      resume_from_pages - 1 else 0
    let found := ((keys.drop start).takeWhile (stored t.store_group)).length
    let boundary := if start ≠ 0 ∧ found = 0 then
      (keys.takeWhile (stored t.store_group)).length else start + found
    candidates.filter fun stop => stop ≤ boundary

def lookupLoop (stored : γ → κ → Bool) (page_keys : List κ) (resume_from_pages : Nat)
    (candidates : List Nat) : List (UcmLayerTransfer γ κ) → List Nat
  | [] => candidates
  | t :: rest =>
    let candidates := narrow stored page_keys resume_from_pages candidates t
    if candidates.isEmpty then []
    else lookupLoop stored page_keys resume_from_pages candidates rest

def lookup (stored : γ → κ → Bool) (transfers : List (UcmLayerTransfer γ κ)) (page_keys : List κ)
    (resume_from_pages : Nat) : List Nat :=
  if transfers.isEmpty ∨ page_keys.isEmpty then []
  else lookupLoop stored page_keys resume_from_pages (List.range' 1 page_keys.length) transfers

def Holds (stored : κ → Bool) (page_keys : List κ) (page : Nat) : Prop :=
  page_keys[page]?.any stored = true

def firstPage (t : UcmLayerTransfer γ κ) (stop : Nat) : Nat :=
  if t.trailing then stop - max 1 t.page_keys.length else 0

def Restorable (stored : γ → κ → Bool) (page_keys : List κ) (t : UcmLayerTransfer γ κ)
    (stop : Nat) : Prop :=
  ∀ page < stop, firstPage t stop ≤ page → Holds (stored t.store_group) page_keys page

instance Restorable.decidable (stored : γ → κ → Bool) (page_keys : List κ)
    (t : UcmLayerTransfer γ κ) (stop : Nat) :
    Decidable (Restorable stored page_keys t stop) :=
  inferInstanceAs (Decidable (∀ page < stop, firstPage t stop ≤ page → _ = true))

def Held (stored : γ → κ → Bool) (transfers : List (UcmLayerTransfer γ κ)) (page_keys : List κ)
    (pages : Nat) : Prop :=
  ∀ t ∈ transfers, t.trailing = false → ∀ page < pages, Holds (stored t.store_group) page_keys page

section
variable {p : κ → Bool} {keys : List κ} {first stop last : Nat}

theorem getD_prefixSums (sum : Nat) {i : Nat} (hi : i ≤ keys.length) :
    (prefixSums sum (keys.map p)).getD i 0 = sum + (keys.take i).countP p := by
  induction keys generalizing sum i with
  | nil => simp [prefixSums, Nat.le_zero.1 hi]
  | cons key _ ih =>
    cases i with
    | zero => simp [prefixSums]
    | succ =>
      rw [map_cons, prefixSums, getD_cons_succ, ih _ (by simpa using hi)]
      cases hp : p key <;> simp [hp, Nat.add_assoc, Nat.add_comm 1]

theorem countP_window (hf : first ≤ stop) (hs : stop ≤ keys.length) : (keys.take stop).countP p -
    (keys.take first).countP p = stop - first ↔ ∀ page < stop, first ≤ page →
    Holds p keys page := by
  have hsp : (keys.take stop).countP p =
      (keys.take first).countP p + (pySlice keys first stop).countP p := by
    rw [← countP_append, pySlice, ← Nat.min_eq_left hf, ← take_take, Nat.min_eq_left hf,
      take_append_drop]
  have hl := length_pySlice first hs
  rw [hsp, Nat.add_sub_cancel_left, ← hl, countP_eq_length]
  constructor
  · intro ha page _ he
    have hp : page < keys.length := by omega
    have hm : keys[page] ∈ pySlice keys first stop := by
      apply mem_of_getElem? (i := page - first)
      rw [getElem?_pySlice (by omega), Nat.add_sub_cancel' he, getElem?_eq_getElem hp]
    simp [Holds, hp, ha _ hm]
  intro ha key hm
  obtain ⟨i, hi, rfl⟩ := getElem_of_mem hm
  have hg := getElem?_pySlice (l := keys) (show first + i < stop by omega)
  have hh := ha (first + i) (by omega) (by omega)
  rw [Holds, ← hg, getElem?_eq_getElem hi] at hh
  exact hh

theorem le_boundary {s : Nat} (hh : ∀ page < s, Holds p keys page) :
    stop ≤ s + ((keys.drop s).takeWhile p).length ↔ ∀ page < stop, Holds p keys page := by
  rw [← Nat.sub_le_iff_le_add', Scan.le_length_takeWhile_iff]
  simp only [getElem?_drop, Holds, Option.any_eq_true] at hh ⊢
  constructor
  · intro ha page _
    by_cases hb : page < s
    · exact hh page hb
    · have hs := ha (page - s) (by omega)
      rwa [Nat.add_sub_cancel' (by omega)] at hs
  · exact fun ha i hd => ha (s + i) (by omega)

theorem restorable_take {stored : γ → κ → Bool} {t : UcmLayerTransfer γ κ} (hl : stop ≤ last) :
    Restorable stored (keys.take last) t stop ↔ Restorable stored keys t stop := by
  unfold Restorable Holds
  apply forall₂_congr
  intro pa _
  rw [getElem?_take_of_lt (by omega)]

end

theorem le_getLastD {s : List Nat} {stop : Nat} (hsorted : s.Pairwise (· ≤ ·))
    (hm : stop ∈ s) : stop ≤ s.getLastD 0 := by
  rw [getLastD_eq_getLast?, getLast?_eq_some_getLast (ne_nil_of_mem hm)]
  exact hsorted.rel_getLast hm

theorem getLastD_mem {stops : List Nat} (h : stops ≠ []) : stops.getLastD 0 ∈ stops := by
  rw [getLastD_eq_getLast?, getLast?_eq_some_getLast h]
  exact getLast_mem h

section
variable {stored : γ → κ → Bool} {page_keys : List κ} {resume_from_pages : Nat}
  {candidates : List Nat} (hsorted : candidates.Pairwise (· ≤ ·))
  (hbound : ∀ stop ∈ candidates, stop ≤ page_keys.length)
include hsorted hbound

theorem narrow_eq {t : UcmLayerTransfer γ κ} (hh : t.trailing = false → ∀ page < resume_from_pages,
    Holds (stored t.store_group) page_keys page) :
    narrow stored page_keys resume_from_pages candidates t =
    candidates.filter fun stop => Restorable stored page_keys t stop := by
  unfold narrow
  set keys := page_keys.take (candidates.getLastD 0) with hk
  have hl : ∀ stop ∈ candidates, stop ≤ keys.length := by
    intro stop hs
    have he := le_getLastD hsorted hs
    have hla := hbound _ (getLastD_mem (ne_nil_of_mem hs))
    rwa [hk, length_take, Nat.min_eq_left hla]
  have ha : ∀ stop ∈ candidates,
      (Restorable stored page_keys t stop ↔ Restorable stored keys t stop) :=
    fun stop hs => (restorable_take (le_getLastD hsorted hs)).symm
  split
  · rename_i hr
    apply filter_congr
    intro stop hs
    have hst := hl stop hs
    rw [decide_eq_decide, ha stop hs, getD_prefixSums 0 hst, getD_prefixSums 0 (by omega),
      Nat.zero_add, Nat.zero_add, countP_window (Nat.sub_le _ _) hst, Restorable, firstPage,
      if_pos hr]
  rename_i hal
  apply filter_congr
  intro stop hs
  have hn : Restorable stored keys t stop ↔
      ∀ page < stop, Holds (stored t.store_group) keys page := by
    simp [Restorable, firstPage, hal]
  rw [decide_eq_decide, ha stop hs, hn]
  generalize ht : (if 0 < resume_from_pages ∧ resume_from_pages ≤ keys.length then
    resume_from_pages - 1 else 0) = start
  split
  · have hc := @le_boundary κ (stored t.store_group) keys stop 0 (by simp)
    simpa using hc
  apply le_boundary
  intro page _
  split at ht
  · rw [Holds, hk, getElem?_take_of_lt]
    · exact hh (by simpa using hal) page (by omega)
    · rw [hk, length_take] at *
      omega
  · omega

theorem lookupLoop_eq {transfers : List (UcmLayerTransfer γ κ)}
    (hh : Held stored transfers page_keys resume_from_pages) :
    lookupLoop stored page_keys resume_from_pages candidates transfers =
    candidates.filter fun stop => ∀ t ∈ transfers, Restorable stored page_keys t stop := by
  induction transfers generalizing candidates with
  | nil => simp [lookupLoop]
  | cons t r ih =>
    have hs : (candidates.filter fun stop =>
        ∀ o ∈ t :: r, Restorable stored page_keys o stop) =
        (candidates.filter fun stop => Restorable stored page_keys t stop).filter
          fun stop => ∀ o ∈ r, Restorable stored page_keys o stop := by
      simp [filter_filter, Bool.and_comm]
    unfold lookupLoop
    dsimp only
    rw [narrow_eq hsorted hbound (hh t mem_cons_self), hs]
    split
    · rename_i hn
      rw [List.isEmpty_iff.1 hn]
      rfl
    · apply ih (hsorted.filter _)
      · exact fun stop hm => hbound stop (mem_of_mem_filter hm)
      · exact fun o ho => hh o (mem_cons_of_mem _ ho)

end

variable {stored : γ → κ → Bool} {transfers : List (UcmLayerTransfer γ κ)} {page_keys : List κ}
  {hint : Nat}

/-- A hint: nothing, or the last boundary of an earlier lookup of a prefix of the keys, at stores
that have only gained pages since. Its all-pages transfers were of the same stores; their page
keys are a prefix, too, and play no part. -/
inductive Hint : List (UcmLayerTransfer γ κ) → (γ → κ → Bool) → List κ → Nat → Prop where
  | none (transfers : List (UcmLayerTransfer γ κ)) (stored : γ → κ → Bool) (page_keys : List κ) :
    Hint transfers stored page_keys 0
  | earlier {transfers others : List (UcmLayerTransfer γ κ)} {stored before : γ → κ → Bool}
      {page_keys first : List κ} {hint : Nat}
      (hsame : ∀ t ∈ transfers, t.trailing = false →
        ∃ o ∈ others, o.trailing = false ∧ o.store_group = t.store_group)
      (hgained : ∀ group key, before group key = true → stored group key = true)
      (hfirst : first <+: page_keys) (hhint : Hint others before first hint) :
    Hint transfers stored page_keys ((lookup before others first hint).getLastD 0)

theorem lookup_eq (hs : transfers ≠ []) (hh : Held stored transfers page_keys hint) :
    lookup stored transfers page_keys hint = (List.range' 1 page_keys.length).filter fun stop =>
        ∀ t ∈ transfers, Restorable stored page_keys t stop := by
  unfold lookup
  cases hk : page_keys with
  | nil => simp
  | cons =>
    rw [if_neg (by simpa using hs), ← hk]
    apply lookupLoop_eq pairwise_le_range' _ hh
    intro stop hm
    have := mem_range'_1.1 hm
    omega

theorem Hint.held (h : Hint transfers stored page_keys hint) :
    Held stored transfers page_keys hint := by
  induction h with
  | none => simp [Held]
  | @earlier _ others _ before _ first hint hs hgained hf _ ih =>
    intro t hm ha pa hp
    obtain ⟨o, ho, hal, hg⟩ := hs t hm ha
    have hl := lookup_eq (ne_nil_of_mem ho) ih
    have hsm : lookup before others first hint ≠ [] := by
      intro hn
      simp [hn] at hp
    have hla := getLastD_mem hsm
    rw [hl, mem_filter, decide_eq_true_eq, ← hl] at hla
    have hh := hla.2 o ho pa hp (by simp [firstPage, hal])
    rw [hg] at hh
    obtain ⟨key, hk, hb⟩ := (Option.any_eq_true _ _).1 hh
    obtain ⟨m, rfl⟩ := hf
    have ht := (List.getElem?_eq_some_iff.1 hk).1
    simp [Holds, List.getElem?_append_left ht, hk, hgained _ _ hb]

theorem lookup_exact (stored : γ → κ → Bool) (transfers : List (UcmLayerTransfer γ κ))
    (page_keys : List κ) (hint : Nat) (hhint : Hint transfers stored page_keys hint) :
    lookup stored transfers page_keys hint = if transfers.isEmpty then []
      else (List.range' 1 page_keys.length).filter fun stop =>
        ∀ t ∈ transfers, Restorable stored page_keys t stop := by
  split
  · rename_i hn
    simp [lookup, hn]
  · rename_i hs
    exact lookup_eq (fun hn => hs (List.isEmpty_iff.2 hn)) hhint.held

/-- A trailing transfer without page keys still asks for the last page, which none of its
own needs. -/
theorem lookup_needs_last_page :
    lookup (fun (_ : Unit) (_ : Nat) => false) [⟨(), true, []⟩] [7] 0 = [] ∧
      ∀ page < 1, 1 - ([] : List Nat).length ≤ page → Holds (fun _ => false) [7] page := by
  refine ⟨by decide, ?_⟩
  intro page _ hl
  simp only [length_nil] at hl
  omega

/-- The second lookup starts from the boundary of the first. -/
theorem lookup_exact_resumed :
    let first := lookup (fun (_ : Unit) key => key < 1) [⟨(), false, [0]⟩] [0] 0
    first = [1] ∧ lookup (fun (_ : Unit) key => key < 2)
      [⟨(), false, [0, 1, 2]⟩, ⟨(), true, [1]⟩] [0, 1, 2] (first.getLastD 0) = [1, 2] := by
  have hf : [0] <+: [0, 1, 2] := ⟨[1, 2], rfl⟩
  refine ⟨by decide, ?_⟩
  rw [lookup_exact _ _ _ _ (.earlier ?_ ?_ hf (.none _ _ _))]
  · decide
  all_goals simp

end UnifiedCache.Sglang
