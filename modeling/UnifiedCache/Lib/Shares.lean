import Mathlib

/-! A common stock of items as the shares of its parties: each party's items in a
list, and the stock their concatenation. -/
namespace UnifiedCache.Shares
open List Function
variable {κ α : Type} [DecidableEq κ] {parties : List κ} {share : κ → List α} {party : κ}
  {items : List α} {item : α}

theorem flatMap_update (hn : parties.Nodup) (hm : party ∈ parties)
    (hs : items.Perm (item :: share party)) :
    (parties.flatMap (update share party items)).Perm (item :: parties.flatMap share) := by
  induction parties with
  | nil => cases hm
  | cons first r ih =>
    obtain ⟨hf, hr⟩ := nodup_cons.1 hn
    rw [flatMap_cons, flatMap_cons]
    by_cases he : first = party
    · subst he
      have ha : r.flatMap (update share first items) = r.flatMap share := by
        apply flatMap_congr
        intro o ho
        rw [update_of_ne]
        rintro rfl
        exact hf ho
      rw [ha, update_self]
      exact hs.append_right _
    · rw [update_of_ne he]
      have hin := (mem_cons.1 hm).resolve_left (Ne.symm he)
      exact ((ih hr hin).append_left _).trans perm_middle

theorem flatMap_take (hn : parties.Nodup) (hm : party ∈ parties)
    (hs : (share party).Perm (item :: items)) :
    (parties.flatMap share).Perm (item :: parties.flatMap (update share party items)) := by
  have hg : (parties.flatMap (update (update share party items) party
      (share party))).Perm (item :: parties.flatMap (update share party items)) := by
    apply flatMap_update hn hm
    rwa [update_self]
  rwa [update_idem, update_eq_self] at hg

omit [DecidableEq κ] in
theorem flatMap_eq_single (hn : parties.Nodup) (hm : party ∈ parties) (ht : ∀ o ∈ parties,
    o ≠ party → share o = []) : parties.flatMap share = share party := by
  induction parties with
  | nil => cases hm
  | cons first r ih =>
    obtain ⟨hf, hr⟩ := nodup_cons.1 hn
    rw [flatMap_cons]
    by_cases he : first = party
    · subst he
      have hno : r.flatMap share = [] := by
        rw [flatMap_eq_nil_iff]
        intro o ho
        apply ht o (mem_cons_of_mem _ ho)
        rintro rfl
        exact hf ho
      rw [hno, append_nil]
    · have hin := (mem_cons.1 hm).resolve_left (Ne.symm he)
      rw [ht first mem_cons_self he, nil_append]
      exact ih hr hin fun o ho => ht o (mem_cons_of_mem _ ho)

theorem countP_eq_sum (hn : parties.Nodup) (key : α → κ) (k : α → Bool) {s : List α}
    (ho : ∀ item ∈ s, key item ∈ parties) : s.countP k =
    (parties.map fun party => (s.filter fun item => key item = party).countP k).sum := by
  induction s with
  | nil => simp
  | cons item _ ih =>
    have hr := ih fun o ht => ho o (mem_cons_of_mem _ ht)
    have hon : (parties.map fun party =>
        if key item = party then if k item then 1 else 0 else 0).sum =
          if k item then 1 else 0 := by
      have hm := ho item mem_cons_self
      clear ho ih hr
      induction parties with
      | nil => cases hm
      | cons first others ih =>
        obtain ⟨hf, hot⟩ := nodup_cons.1 hn
        rw [map_cons, sum_cons]
        by_cases he : key item = first
        · have hno : (others.map fun party =>
              if key item = party then if k item then 1 else 0 else 0) = others.map fun _ => 0 := by
            apply map_congr_left
            intro party hp
            rw [if_neg]
            rintro rfl
            exact hf (he ▸ hp)
          simp [he, he ▸ hno]
        · rw [if_neg he, Nat.zero_add]
          exact ih hot ((mem_cons.1 hm).resolve_left he)
    rw [countP_cons, hr, ← hon, ← sum_map_add]
    congr 1
    apply map_congr_left
    intro party _
    by_cases he : key item = party
    · simp [he, countP_cons]
    · simp [he]

variable {amount : κ → Nat}

omit [DecidableEq κ] in
theorem sum_le {limit : Nat} (h : ∀ party ∈ parties, amount party ≤ limit) :
    (parties.map amount).sum ≤ parties.length * limit := by
  induction parties with
  | nil => exact Nat.zero_le _
  | cons first _ ih =>
    have hf := h first mem_cons_self
    have hr := ih fun o ho => h o (mem_cons_of_mem _ ho)
    rw [map_cons, sum_cons, length_cons, Nat.succ_mul]
    omega

omit [DecidableEq κ] in
theorem sum_lt {limit : Nat} (h : ∀ party ∈ parties, amount party ≤ limit) (hm : party ∈ parties)
    (hl : amount party < limit) : (parties.map amount).sum < parties.length * limit := by
  induction parties with
  | nil => cases hm
  | cons first r ih =>
    have hf := h first mem_cons_self
    have hr : ∀ o ∈ r, amount o ≤ limit :=
      fun o ho => h o (mem_cons_of_mem _ ho)
    have he := sum_le hr
    rw [map_cons, sum_cons, length_cons, Nat.succ_mul]
    obtain rfl | hn := mem_cons.1 hm
    · omega
    · have := ih hr hn
      omega

end UnifiedCache.Shares
