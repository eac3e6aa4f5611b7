import Mathlib.Data.List.Basic
import Mathlib.Data.List.TakeWhile

/-! Scans of a list: how long a prefix satisfies a predicate, and where the last element that
satisfies it is. -/
namespace UnifiedCache.Scan
open List
variable {α : Type*} {p : α → Bool} {items : List α}

theorem le_length_takeWhile_iff {c : Nat} : c ≤ (items.takeWhile p).length ↔ ∀ i < c, ∃ ite,
    items[i]? = some ite ∧ p ite = true := by
  induction items generalizing c with
  | nil =>
    constructor
    · intro h i _
      simp only [takeWhile_nil, length_nil] at h
      omega
    intro h
    by_contra hl
    obtain ⟨ite, ht, -⟩ := h 0 (by simpa [Nat.pos_iff_ne_zero] using hl)
    cases ht
  | cons first _ ih =>
    cases c with
    | zero => simp
    | succ =>
      by_cases hf : p first = true
      · rw [takeWhile_cons_of_pos hf, length_cons, Nat.succ_le_succ_iff, ih]
        constructor
        · intro h i _
          cases i with
          | zero => exact ⟨first, rfl, hf⟩
          | succ i => exact h i (by omega)
        · intro h i _
          exact h (i + 1) (by omega)
      rw [takeWhile_cons_of_neg hf]
      constructor
      · intro h
        simp at h
      intro h
      obtain ⟨ite, ht, hp⟩ := h 0 (by omega)
      cases ht
      exact absurd hp hf

def rightmost (p : α → Bool) : List α → Option Nat
  | [] => none
  | item :: rest =>
    match rightmost p rest with
    | some index => some (index + 1)
    | none => if p item then some 0 else none

theorem rightmost_eq_none (h : rightmost p items = none) : ∀ i ∈ items, p i = false := by
  induction items with
  | nil => simp
  | cons _ _ ih =>
    unfold rightmost at h
    split at h
    · cases h
    rename_i hr
    split at h
    · cases h
    rename_i hf
    intro i ht
    obtain rfl | ht := mem_cons.1 ht
    · simpa using hf
    · exact ih hr i ht

theorem rightmost_eq_some {index : Nat} (h : rightmost p items = some index) :
    (∃ i, items[index]? = some i ∧ p i = true) ∧
      ∀ o i, items[o]? = some i → p i = true → o ≤ index := by
  induction items generalizing index with
  | nil => cases h
  | cons first _ ih =>
    unfold rightmost at h
    split at h
    · rename_i hr
      cases h
      obtain ⟨hf, hl⟩ := ih hr
      refine ⟨hf, fun o i ht hp => ?_⟩
      cases o with
      | zero => exact Nat.zero_le _
      | succ o => exact Nat.succ_le_succ (hl o i ht hp)
    rename_i hr
    split at h
    · rename_i hs
      cases h
      refine ⟨⟨first, rfl, hs⟩, fun o i ht hp => ?_⟩
      cases o with
      | zero => exact Nat.le_refl _
      | succ =>
        have hn := rightmost_eq_none hr i (mem_of_getElem? ht)
        rw [hp] at hn
        cases hn
    · cases h

theorem rightmost_or (p q : α → Bool) (items : List α) :
    let next := (rightmost p items).elim 0 (· + 1)
    rightmost (fun ite => p ite || q ite) items =
      (rightmost q (items.drop next)).elim (rightmost p items) fun b =>
        some (next + b) := by
  induction items with
  | nil => rfl
  | cons ite r ih =>
    dsimp only at ih ⊢
    rw [rightmost, ih, rightmost]
    cases hp : rightmost p r with
    | none =>
      by_cases ht : p ite = true <;> by_cases ho : q ite = true <;>
        cases hq : rightmost q r <;> simp [ht, ho, hq, rightmost, Nat.add_comm]
    | some i =>
      cases hq : rightmost q (r.drop (i + 1)) <;> simp [hq, Nat.add_right_comm]

@[simp] theorem rightmost_false (items : List α) : rightmost (fun _ => false) items = none := by
  induction items with
  | nil => rfl
  | cons _ _ ih => simp [rightmost, ih]

@[simp] theorem rightmost_map {β : Type*} (p : β → Bool) (f : α → β) (items : List α) :
    rightmost p (items.map f) = rightmost (fun i => p (f i)) items := by
  induction items with
  | nil => rfl
  | cons _ _ ih => simp [rightmost, ih]

end UnifiedCache.Scan
