import Mathlib.Data.List.Basic

/-! The bytes of texts and of decimal numbers. A number has only digits, so that what stands in
front of another byte can be read off. -/
namespace UnifiedCache.Texts

theorem toList_loop (bytes : ByteArray) (index : Nat) (read : List UInt8) :
    ByteArray.toList.loop bytes index read = read.reverse ++ bytes.data.toList.drop index := by
  have hs : bytes.data.toList.length = bytes.size := rfl
  induction hleft : bytes.size - index generalizing index read with
  | zero =>
    rw [ByteArray.toList.loop, if_neg (by omega), List.drop_eq_nil_of_le (by omega),
      List.append_nil]
  | succ left ih =>
    have hl : index < bytes.data.toList.length := by omega
    have hg : bytes.get! index = bytes.data.toList[index] := by
      rw [Array.getElem_toList]
      exact getElem!_pos bytes.data index hl
    rw [ByteArray.toList.loop, if_pos (by omega), ih _ _ (by omega),
      List.drop_eq_getElem_cons hl, hg]
    simp

@[simp] theorem toList_eq (bytes : ByteArray) : bytes.toList = bytes.data.toList := by
  simp [ByteArray.toList, toList_loop]

theorem toUTF8_inj {text other : String} (h : text.toUTF8.toList = other.toUTF8.toList) :
    text = other := by
  simp only [toList_eq, Array.toList_inj] at h
  exact String.toByteArray_inj.1 (ByteArray.ext h)

theorem toUTF8_toString_inj {number other : Nat}
    (h : (toString number).toUTF8.toList = (toString other).toUTF8.toList) : number = other := by
  have hd : Nat.toDigits 10 number = Nat.toDigits 10 other := by
    rw [← Nat.toList_repr, ← Nat.toList_repr]
    exact congrArg String.toList (toUTF8_inj h)
  rw [← @Nat.ofDigitChars_ten_toDigits number, hd, Nat.ofDigitChars_ten_toDigits]

theorem isDigit_of_mem_toUTF8 {number : Nat} {byte : UInt8}
    (h : byte ∈ (toString number).toUTF8.toList) : 48 ≤ byte.toNat ∧ byte.toNat ≤ 57 := by
  have hb : (toString number).toUTF8 = (Nat.toDigits 10 number).utf8Encode := by
    rw [← String.toByteArray_ofList, ← Nat.repr_eq_ofList_toDigits]
    rfl
  rw [toList_eq, hb, List.utf8Encode, List.toList_data_toByteArray] at h
  obtain ⟨digit, hd, hm⟩ := List.mem_flatMap.1 h
  have hr := Nat.isDigit_of_mem_toDigits (by decide) (by decide) hd
  simp only [Char.isDigit, Bool.and_eq_true, decide_eq_true_eq, ge_iff_le] at hr
  have hlow : 48 ≤ digit.val.toNat := hr.1
  have hhigh : digit.val.toNat ≤ 57 := hr.2
  rw [String.utf8EncodeChar, if_pos (by omega), List.mem_singleton] at hm
  rw [hm]
  simp only [UInt8.toNat_ofNat']
  omega

/-- The first place of a byte divides a text in one way. -/
theorem append_cons_inj {α : Type*} {mark : α} {front other rest tail : List α}
    (hf : mark ∉ front) (ho : mark ∉ other) (h : front ++ mark :: rest = other ++ mark :: tail) :
    front = other ∧ rest = tail := by
  induction front generalizing other with
  | nil =>
    cases other with
    | nil => exact ⟨rfl, List.tail_eq_of_cons_eq h⟩
    | cons first others =>
      cases h
      exact absurd List.mem_cons_self ho
  | cons first fronts ih =>
    cases other with
    | nil =>
      cases h
      exact absurd List.mem_cons_self hf
    | cons second others =>
      obtain ⟨rfl, hs⟩ := List.cons.inj h
      obtain ⟨rfl, hr⟩ := ih (fun hm => hf (List.mem_cons_of_mem _ hm))
        (fun hm => ho (List.mem_cons_of_mem _ hm)) hs
      exact ⟨rfl, hr⟩

end UnifiedCache.Texts
