import Mathlib.Algebra.Ring.Nat
import UnifiedCache.Lib.Table

/-! Accounts with a counter each, and a list of open items that name their
account. The books balance when every counter is the number of its open items. -/
namespace UnifiedCache.Ledger
open List Table
variable {κ : Type u} {ν : Type v} [DecidableEq κ] {amount : ν → Nat}

/-- What `account` is charged with; nothing if it is not in the table. -/
def balance (amount : ν → Nat) (accounts : Table κ ν) (account : κ) : Nat :=
  (accounts.find? account).elim 0 amount

def Balanced (amount : ν → Nat) (accounts : Table κ ν) (items : List κ) : Prop :=
  ∀ account, items.count account = balance amount accounts account

def total (amount : ν → Nat) (accounts : Table κ ν) : Nat :=
  (accounts.entries.map fun entry => amount entry.2).sum

variable {accounts : Table κ ν} {account : κ}

theorem balance_of_mem {value : ν} (h : (account, value) ∈ accounts.entries) :
    balance amount accounts account = amount value := by
  unfold balance
  rw [find?_eq_some.2 h]
  rfl

theorem balance_of_not_mem (h : account ∉ accounts.keys) : balance amount accounts account = 0 := by
  unfold balance
  rw [find?_eq_none.2 h]
  rfl

theorem total_emplace (value : ν) (h : account ∉ accounts.keys) :
    total amount (accounts.emplace account value) = total amount accounts + amount value := by
  unfold total
  rw [entries_emplace value h]
  simp

theorem total_erase {value : ν} (h : (account, value) ∈ accounts.entries) :
    amount value + total amount (accounts.erase account) = total amount accounts := by
  unfold total
  rw [((perm_erase h).map fun e => amount e.2).sum_nat, map_cons, sum_cons]

theorem total_modify {f : ν → ν} (h : ∀ value, amount (f value) = amount value) :
    total amount (accounts.modify account f) = total amount accounts := by
  unfold total
  rw [map_modify accounts h]

omit [DecidableEq κ] in
theorem total_le {o : ν → Nat} (h : ∀ e ∈ accounts.entries, amount e.2 ≤ o e.2) :
    total amount accounts ≤ total o accounts := by
  unfold total
  revert h
  generalize accounts.entries = entries
  intro h
  induction entries with
  | nil => exact Nat.le_refl _
  | cons e _ ih =>
    rw [map_cons, map_cons, sum_cons, sum_cons]
    exact Nat.add_le_add (h e mem_cons_self) (ih fun o ho => h o (mem_cons_of_mem _ ho))

namespace Balanced
variable {accounts : Table κ ν} {items left : List κ} {account : κ} {value : ν}

theorem empty : Balanced amount (empty : Table κ ν) [] := by
  intro account
  rw [balance_of_not_mem (by simp)]
  rfl

section
variable (h : Balanced amount accounts items)
include h

theorem perm (hp : items.Perm left) : Balanced amount accounts left := by
  intro account
  rw [← hp.count_eq, h account]

theorem mem_keys (hmem : account ∈ items) : account ∈ accounts.keys := by
  by_contra hn
  have hc := h account
  rw [balance_of_not_mem hn, List.count_eq_zero] at hc
  exact hc hmem

theorem count_of_mem (hmem : (account, value) ∈ accounts.entries) :
    items.count account = amount value := by
  rw [h account, balance_of_mem hmem]

theorem emplace (f : account ∉ accounts.keys)
    (hitems : left.Perm (List.replicate (amount value) account ++ items)) :
    Balanced amount (accounts.emplace account value) left := by
  intro o
  rw [hitems.count_eq, count_append, h o]
  unfold balance
  by_cases hs : o = account
  · cases hs
    rw [find?_emplace value f, find?_eq_none.2 f, count_replicate_self]
    rfl
  · rw [find?_emplace_ne value f hs, count_replicate]
    simp [Ne.symm hs]

section
variable (hmem : (account, value) ∈ accounts.entries) (hitems : items.Perm (account :: left))
include hmem hitems

theorem settle {next : Table κ ν} (hn : balance amount next account = amount value - 1)
    (ho : ∀ o ≠ account, next.find? o = accounts.find? o) : Balanced amount next left := by
  intro o
  have hc := h o
  rw [hitems.count_eq, count_cons] at hc
  by_cases hs : o = account
  · cases hs
    rw [balance_of_mem hmem, if_pos BEq.rfl] at hc
    omega
  · unfold balance at hc ⊢
    rw [ho o hs]
    simpa [Ne.symm hs] using hc

theorem modify (f : ν → ν) (hf : amount (f value) = amount value - 1) :
    Balanced amount (accounts.modify account f) left := by
  refine h.settle hmem hitems ?_ fun _ => find?_modify_ne _ f
  unfold balance
  rw [find?_modify, find?_eq_some.2 hmem]
  exact hf

theorem erase (hl : amount value = 1) : Balanced amount (accounts.erase account) left := by
  refine h.settle hmem hitems ?_ fun _ => find?_erase_ne _
  unfold balance
  rw [find?_erase, hl]
  rfl

end

theorem length_eq : items.length = total amount accounts := by
  -- The items are a rearrangement of every account repeated as often as its counter says.
  have hc : ∀ (entries : List (κ × ν)), (entries.map Prod.fst).Nodup → ∀ account,
      (entries.flatMap fun e => List.replicate (amount e.2) e.1).count account =
        ((entries.find? fun e => e.1 = account).map Prod.snd).elim 0 amount := by
    intro entries hn account
    induction entries with
    | nil => rfl
    | cons e entries ih =>
      obtain ⟨he, hr⟩ := nodup_cons.1 hn
      rw [flatMap_cons, count_append, ih hr, List.find?_cons]
      by_cases hs : e.1 = account
      · have ho : entries.find? (fun o => o.1 = account) = none := by
          refine List.find?_eq_none.2 fun o ht => ?_
          simp only [decide_eq_true_eq]
          exact fun hq => he (hs ▸ hq ▸ mem_map_of_mem ht)
        simp [hs, ho]
      · simp [hs, count_replicate]
  have hp : items.Perm (accounts.entries.flatMap fun e => List.replicate (amount e.2) e.1) := by
    refine perm_iff_count.2 fun account => ?_
    rw [h account, hc accounts.entries accounts.nodup account]
    rfl
  rw [hp.length_eq, length_flatMap]
  simp [total]

end
end Balanced
end UnifiedCache.Ledger
