import MarsAllocator.Model.Layout
import Mathlib.Data.Nat.Bitwise

namespace Mars

/-! ### The fields of a word, arithmetically -/

theorem wordSize_eq (w : Nat) : wordSize w = w / 1024 * 16 := by
  simp [wordSize, wSizeShift, wSlackShift, wSlackBits, alignment, Nat.shiftRight_eq_div_pow]

theorem wordSize_dvd (w : Nat) : wordSize w % 16 = 0 := by
  rw [wordSize_eq]
  omega

theorem wordSize_lt {w : Nat} (h : w < 2 ^ 64) : wordSize w < 2 ^ 58 := by
  rw [wordSize_eq]
  omega

theorem wordUsed_eq (w : Nat) : wordUsed w = (w % 2 == 1) := by
  have h : w &&& 1 = w % 2 := Nat.and_one_is_mod w
  rw [wordUsed, wInUse, Nat.shiftLeft_zero, h]
  rcases Nat.mod_two_eq_zero_or_one w with h | h <;> simp [h]

theorem and_bit (w i : Nat) : w &&& 1 <<< i = w / 2 ^ i % 2 * 2 ^ i := by
  rw [Nat.one_shiftLeft, Nat.and_two_pow, Nat.testBit_eq_decide_div_mod_eq]
  rcases Nat.mod_two_eq_zero_or_one (w / 2 ^ i) with h | h <;> simp [h]

theorem wordPrevInUse_eq (w : Nat) : wordPrevInUse w = (w / 2 % 2 == 1) := by
  rw [wordPrevInUse, wPrevInUse, and_bit]
  rcases Nat.mod_two_eq_zero_or_one (w / 2) with h | h <;> simp [h]

theorem wordQuarantined_eq (w : Nat) : wordQuarantined w = (w / 4 % 2 == 1) := by
  rw [wordQuarantined, wQuarantined, and_bit]
  rcases Nat.mod_two_eq_zero_or_one (w / 4) with h | h <;> simp [h]

theorem wordSlack_eq (w : Nat) : wordSlack w = w / 8 % 128 := by
  have h : wSlackMask = 2 ^ 7 - 1 := by decide
  rw [wordSlack, h, Nat.and_two_pow_sub_one_eq_mod, wSlackShift, Nat.shiftRight_eq_div_pow]

theorem sizeField_eq {n : Nat} (h : n < 2 ^ 58) : sizeField n = n / 16 * 1024 := by
  rw [sizeField, alignment, wSizeShift, wSlackShift, wSlackBits, Nat.shiftLeft_eq]
  exact Nat.mod_eq_of_lt (by omega)

def mkWord (n slack : Nat) (quarantined prevUsed used : Bool) : Nat :=
  n / 16 * 1024 + slack * 8 + quarantined.toNat * 4 + prevUsed.toNat * 2 + used.toNat

theorem mkWord_lt {n slack : Nat} {q p u : Bool} (hn : n < 2 ^ 58) (hs : slack < 128) :
    mkWord n slack q p u < 2 ^ 64 := by
  have := q.toNat_le
  have := p.toNat_le
  have := u.toNat_le
  unfold mkWord
  omega

theorem wordSize_mkWord_div {n slack : Nat} {q p u : Bool} (hs : slack < 128) :
    wordSize (mkWord n slack q p u) = n / 16 * 16 := by
  have := q.toNat_le
  have := p.toNat_le
  have := u.toNat_le
  rw [wordSize_eq, mkWord]
  omega

theorem wordSize_mkWord {n slack : Nat} {q p u : Bool} (hn : n % 16 = 0) (hs : slack < 128) :
    wordSize (mkWord n slack q p u) = n := by
  rw [wordSize_mkWord_div hs]
  omega

theorem wordUsed_mkWord (n slack : Nat) (q p u : Bool) : wordUsed (mkWord n slack q p u) = u := by
  have h : mkWord n slack q p u % 2 = u.toNat := by
    have := u.toNat_le
    unfold mkWord
    omega
  rw [wordUsed_eq, h]
  cases u <;> rfl

theorem wordPrevInUse_mkWord (n slack : Nat) (q p u : Bool) :
    wordPrevInUse (mkWord n slack q p u) = p := by
  have h : mkWord n slack q p u / 2 % 2 = p.toNat := by
    have := u.toNat_le
    have := p.toNat_le
    unfold mkWord
    omega
  rw [wordPrevInUse_eq, h]
  cases p <;> rfl

theorem wordQuarantined_mkWord (n slack : Nat) (q p u : Bool) :
    wordQuarantined (mkWord n slack q p u) = q := by
  have h : mkWord n slack q p u / 4 % 2 = q.toNat := by
    have := u.toNat_le
    have := p.toNat_le
    have := q.toNat_le
    unfold mkWord
    omega
  rw [wordQuarantined_eq, h]
  cases q <;> rfl

theorem wordSlack_mkWord {n slack : Nat} {q p u : Bool} (hs : slack < 128) :
    wordSlack (mkWord n slack q p u) = slack := by
  have := u.toNat_le
  have := p.toNat_le
  have := q.toNat_le
  rw [wordSlack_eq, mkWord]
  omega

theorem mkWord_fields {w : Nat} :
    mkWord (wordSize w) (wordSlack w) (wordQuarantined w) (wordPrevInUse w) (wordUsed w) = w := by
  have h (k : Nat) : (k % 2 == 1).toNat = k % 2 := by
    rcases Nat.mod_two_eq_zero_or_one k with h | h <;> simp [h]
  rw [mkWord, wordSize_eq, wordSlack_eq, wordQuarantined_eq, wordPrevInUse_eq, wordUsed_eq]
  simp only [h]
  omega

theorem wordSet_eq {w n slack : Nat} {used quarantined : Bool} (hn : n < 2 ^ 58)
    (hs : slack < 128) :
    wordSet w n slack used quarantined = mkWord n slack quarantined (wordPrevInUse w) used := by
  have hp : w &&& wPrevInUse = (wordPrevInUse w).toNat * 2 := by
    rw [wordPrevInUse_eq, wPrevInUse, and_bit]
    rcases Nat.mod_two_eq_zero_or_one (w / 2) with h | h <;> simp [h]
  have hm : slack &&& wSlackMask = slack := by
    have h : wSlackMask = 2 ^ 7 - 1 := by decide
    rw [h, Nat.and_two_pow_sub_one_eq_mod, Nat.mod_eq_of_lt hs]
  have hl : ((if quarantined then wQuarantined else 0) ||| (if used then wInUse else 0) |||
      (wordPrevInUse w).toNat * 2) =
      quarantined.toNat * 4 + (wordPrevInUse w).toNat * 2 + used.toNat := by
    cases quarantined <;> cases used <;> cases wordPrevInUse w <;> rfl
  set low := quarantined.toNat * 4 + (wordPrevInUse w).toNat * 2 + used.toNat with hlow
  have hlt : low < 2 ^ 3 := by
    have := quarantined.toNat_le
    have := (wordPrevInUse w).toNat_le
    have := used.toNat_le
    omega
  have h₁ : slack <<< wSlackShift ||| low = slack * 8 + low :=
    (Nat.shiftLeft_add_eq_or_of_lt hlt slack).symm.trans (by
      rw [Nat.shiftLeft_eq])
  have hlt' : slack * 8 + low < 2 ^ 10 := by omega
  have h₂ : sizeField n ||| (slack * 8 + low) = n / 16 * 1024 + (slack * 8 + low) := by
    have hf : sizeField n = (n / 16) <<< 10 := by
      rw [sizeField_eq hn, Nat.shiftLeft_eq]
    rw [hf, ← Nat.shiftLeft_add_eq_or_of_lt hlt' (n / 16), Nat.shiftLeft_eq]
  rw [wordSet, hp, hm, Nat.or_assoc, Nat.or_assoc, Nat.or_assoc]
  rw [← Nat.or_assoc (if quarantined then wQuarantined else 0), hl, h₁, h₂, mkWord]
  omega

theorem wordSetSize_mkWord {n n' slack : Nat} {q p u : Bool} (hn : n' < 2 ^ 58) (hs : slack < 128) :
    wordSetSize (mkWord n slack q p u) n' = mkWord n' slack q p u := by
  have h₁ := q.toNat_le
  have h₂ := p.toNat_le
  have h₃ := u.toNat_le
  have hm : wFlagsMask = 2 ^ 10 - 1 := by decide
  have hf : sizeField n' = (n' / 16) <<< 10 := by
    rw [sizeField_eq hn, Nat.shiftLeft_eq]
  have hlt : mkWord n slack q p u % 2 ^ 10 < 2 ^ 10 := Nat.mod_lt _ (by decide)
  rw [wordSetSize, hm, Nat.and_two_pow_sub_one_eq_mod, hf, Nat.or_comm,
    ← Nat.shiftLeft_add_eq_or_of_lt hlt, Nat.shiftLeft_eq]
  unfold mkWord
  omega

theorem testBit_mkWord (n slack : Nat) (q p u : Bool) (i : Nat) :
    (mkWord n slack q p u).testBit i =
      if i < 2 then (p.toNat * 2 + u.toNat).testBit i
      else (n / 16 * 256 + slack * 2 + q.toNat).testBit (i - 2) := by
  have h : mkWord n slack q p u =
      2 ^ 2 * (n / 16 * 256 + slack * 2 + q.toNat) + (p.toNat * 2 + u.toNat) := by
    unfold mkWord
    omega
  have hlt : p.toNat * 2 + u.toNat < 2 ^ 2 := by
    have := p.toNat_le
    have := u.toNat_le
    omega
  rw [h, Nat.testBit_two_pow_mul_add _ hlt]

theorem wordSetPrevInUse_mkWord {n slack : Nat} {q p u used : Bool} (hn : n < 2 ^ 58)
    (hs : slack < 128) :
    wordSetPrevInUse (mkWord n slack q p u) used = mkWord n slack q used u := by
  have hw := mkWord_lt (q := q) (p := p) (u := u) hn hs
  have h2 (i : Nat) : wPrevInUse.testBit i = decide (i = 1) := by
    rw [wPrevInUse, Nat.one_shiftLeft, Nat.testBit_two_pow]
    simp [eq_comm]
  refine Nat.eq_of_testBit_eq fun i => ?_
  cases used with
  | true =>
    rw [wordSetPrevInUse, if_pos rfl, Nat.testBit_or, h2, testBit_mkWord, testBit_mkWord]
    rcases i with _ | _ | i
    · cases p <;> cases u <;> rfl
    · cases p <;> cases u <;> rfl
    · have hi : ¬ i + 1 + 1 < 2 := by omega
      simp [hi]
  | false =>
    have hm : sizeMax = 2 ^ 64 - 1 := rfl
    have hi : 64 ≤ i → (mkWord n slack q p u).testBit i = false := fun h =>
      Nat.testBit_lt_two_pow (lt_of_lt_of_le hw (Nat.pow_le_pow_right (by decide) h))
    rw [wordSetPrevInUse, if_neg (by decide), Nat.testBit_and, Nat.testBit_xor, h2, hm,
      Nat.testBit_two_pow_sub_one]
    by_cases h64 : i < 64
    · rw [testBit_mkWord, testBit_mkWord]
      rcases i with _ | _ | i
      · cases p <;> cases u <;> rfl
      · cases p <;> cases u <;> rfl
      · have hi : ¬ i + 1 + 1 < 2 := by omega
        simp [h64, hi]
    · rw [hi (by omega), Bool.false_and]
      have hw' := mkWord_lt (q := q) (p := false) (u := u) hn hs
      exact (Nat.testBit_lt_two_pow (lt_of_lt_of_le hw'
        (Nat.pow_le_pow_right (by decide) (by omega)))).symm

/-! ### What the setters leave alone -/

theorem wordSetPrevInUse_fields {w : Nat} (hw : w < 2 ^ 64) (used : Bool) :
    wordSetPrevInUse w used =
      mkWord (wordSize w) (wordSlack w) (wordQuarantined w) used (wordUsed w) := by
  have hs : wordSlack w < 128 := by
    rw [wordSlack_eq]
    omega
  conv_lhs => rw [← mkWord_fields (w := w)]
  exact wordSetPrevInUse_mkWord (wordSize_lt hw) hs

end Mars
