import MarsAllocator.Model.ControlWord
import MarsAllocator.Model.Heap

namespace Mars

theorem usub_of_le {x y : Nat} (hxy : y ≤ x) (hx : x < 2 ^ 64) : usub x y = x - y := by
  rw [usub]
  omega

theorem uadd_of_lt {x y : Nat} (h : x + y < 2 ^ 64) : uadd x y = x + y := Nat.mod_eq_of_lt h

theorem uadd_lt (x y : Nat) : uadd x y < 2 ^ 64 := Nat.mod_lt _ (Nat.two_pow_pos 64)

theorem usub_uadd {x y a : Nat} (hy : y < 2 ^ 64) (ha : usub x y + a < 2 ^ 64) :
    usub (uadd x a) y = usub x y + a := by
  have h₁ : uadd x a + 2 ^ 64 - y = (x + a) % 2 ^ 64 + (2 ^ 64 - y) := by
    rw [uadd]
    omega
  have h₂ : x + a + (2 ^ 64 - y) = x + 2 ^ 64 - y + a := by omega
  rw [← Nat.mod_eq_of_lt ha, usub, h₁, Nat.mod_add_mod, h₂, usub, Nat.mod_add_mod]

theorem and_add_xor_and (x m : Nat) : (x &&& m) + (x ^^^ (x &&& m)) = x := by
  induction x using Nat.strongRecOn generalizing m with
  | ind x ih =>
    by_cases h0 : x = 0
    · simp [h0]
    have hi := ih (x / 2) (by omega) (m / 2)
    have hd : (x &&& m) / 2 = x / 2 &&& m / 2 := Nat.and_div_two
    have hx : (x ^^^ (x &&& m)) / 2 = x / 2 ^^^ (x / 2 &&& m / 2) := by
      rw [Nat.xor_div_two, hd]
    have hm : (x &&& m) % 2 + (x ^^^ (x &&& m)) % 2 = x % 2 := by
      have h₁ : (x &&& m) % 2 = x % 2 * (m % 2) := by
        have := Nat.and_mod_two_pow (a := x) (b := m) (n := 1)
        rw [Nat.pow_one] at this
        rcases Nat.mod_two_eq_zero_or_one x with h | h <;>
          rcases Nat.mod_two_eq_zero_or_one m with h' | h' <;> simp [this, h, h']
      have h₂ : (x ^^^ (x &&& m)) % 2 = (x % 2 + (x &&& m) % 2) % 2 := by
        have := Nat.xor_mod_two_pow (a := x) (b := x &&& m) (n := 1)
        rw [Nat.pow_one] at this
        rcases Nat.mod_two_eq_zero_or_one x with h | h <;>
          rcases Nat.mod_two_eq_zero_or_one (x &&& m) with h' | h' <;> simp [this, h, h']
      rw [h₂, h₁]
      rcases Nat.mod_two_eq_zero_or_one x with h | h <;>
        rcases Nat.mod_two_eq_zero_or_one m with h' | h' <;> simp [h, h']
    omega

theorem and_not_mask {x m : Nat} (hx : x < 2 ^ 64) :
    x &&& (sizeMax ^^^ m) = x - (x &&& m) := by
  have hs : x &&& sizeMax = x := by
    rw [sizeMax, Nat.and_two_pow_sub_one_eq_mod, Nat.mod_eq_of_lt hx]
  have := and_add_xor_and x m
  rw [Nat.and_xor_distrib_left, hs]
  omega

theorem roundUp_alignment {n : Nat} (hn : n + 15 < 2 ^ 64) :
    roundUp n alignment = (n + 15) / 16 * 16 := by
  have h15 : alignment - 1 = 15 := rfl
  have hm : (n + 15) &&& 15 = (n + 15) % 2 ^ 4 := Nat.and_two_pow_sub_one_eq_mod (n + 15) 4
  rw [roundUp, h15, uadd_of_lt hn, and_not_mask hn, hm]
  omega

theorem sizeFor_spec (P : Profile) {n : Nat} (hn : sizeFor P n ≠ 0) :
    n + P.hdrSize + P.trail ≤ sizeFor P n ∧ P.minBlock ≤ sizeFor P n ∧ sizeFor P n % 16 = 0 ∧
      sizeFor P n < 2 ^ 64 ∧ sizeFor P n ≤ max (n + P.hdrSize + P.trail + 15) P.minBlock := by
  have hp := P.sizes
  have hmax : sizeMax = 2 ^ 64 - 1 := rfl
  unfold sizeFor at *
  split at hn
  · exact absurd rfl hn
  rename_i h
  rw [if_neg h, roundUp_alignment (by rw [hmax, alignment] at h; omega)]
  rw [hmax, alignment] at h
  omega

theorem sizeFor_ne_zero (P : Profile) {n : Nat} (hn : n < 2 ^ 63) : sizeFor P n ≠ 0 := by
  have hp := P.sizes
  have hmax : sizeMax = 2 ^ 64 - 1 := rfl
  have hal : alignment = 16 := rfl
  rw [sizeFor, if_neg (by omega)]
  omega

theorem requestedFrom_le (P : Profile) {w : Nat} (hw : P.minBlock ≤ wordSize w) (hlt : w < 2 ^ 64) :
    requestedFrom P w + P.hdrSize ≤ wordSize w := by
  have hp := P.sizes
  have := wordSize_lt hlt
  unfold requestedFrom
  rw [usub_of_le (by omega) (by omega)]
  dsimp only
  split
  · omega
  · split <;> omega

end Mars
