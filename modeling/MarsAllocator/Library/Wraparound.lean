import Mathlib.Data.BitVec
import Mathlib.Data.List.Count
import Mathlib.Data.List.Range

namespace Wraparound

theorem toInt_sub_of_lt {w a b : Nat} (hl : -(2 ^ (w - 1) : Int) ≤ (a : Int) - b)
    (hu : (a : Int) - b < 2 ^ (w - 1)) (hw : 0 < w) :
    (BitVec.ofNat w a - BitVec.ofNat w b).toInt = (a : Int) - b := by
  rw [BitVec.toInt_sub, BitVec.toInt_ofNat', BitVec.toInt_ofNat', Int.bmod_sub_bmod,
    Int.sub_bmod_bmod]
  have hp : (2 : Int) ^ w = 2 * 2 ^ (w - 1) := by
    obtain ⟨k, rfl⟩ := Nat.exists_eq_succ_of_ne_zero hw.ne'
    simp [pow_succ, mul_comm]
  apply Int.bmod_eq_of_le
  · push_cast
    omega
  · push_cast
    omega

theorem ofNat_eq_iff {w a b : Nat} (h : a < b + 2 ^ w) (h' : b < a + 2 ^ w) :
    BitVec.ofNat w a = BitVec.ofNat w b ↔ a = b := by
  constructor
  · intro e
    have he : a % 2 ^ w = b % 2 ^ w := by simpa using congrArg BitVec.toNat e
    rcases Nat.le_total a b with hab | hab
    · have hd : (b - a) % 2 ^ w = 0 := Nat.sub_mod_eq_zero_of_mod_eq he.symm
      rw [Nat.mod_eq_of_lt (by omega)] at hd
      omega
    · have hd : (a - b) % 2 ^ w = 0 := Nat.sub_mod_eq_zero_of_mod_eq he
      rw [Nat.mod_eq_of_lt (by omega)] at hd
      omega
  · rintro rfl
    rfl

theorem ofNat_succ (w a : Nat) : BitVec.ofNat w a + 1 = BitVec.ofNat w (a + 1) :=
  (BitVec.ofNat_add a 1).symm

variable {n : Nat}

theorem window_unique {T i j : Nat} (hi : T ≤ i ∧ i < T + n) (hj : T ≤ j ∧ j < T + n)
    (h : i % n = j % n) : i = j := by
  rcases Nat.le_total i j with hij | hij
  · have hd : (j - i) % n = 0 := Nat.sub_mod_eq_zero_of_mod_eq h.symm
    rw [Nat.mod_eq_of_lt (by omega)] at hd
    omega
  · have hd : (i - j) % n = 0 := Nat.sub_mod_eq_zero_of_mod_eq h
    rw [Nat.mod_eq_of_lt (by omega)] at hd
    omega

theorem window_exists (T p : Nat) (hn : 0 < n) : ∃ j, T ≤ j ∧ j < T + n ∧ j % n = p % n := by
  have hT := Nat.mod_lt T hn
  have hp := Nat.mod_lt p hn
  have hd := Nat.div_add_mod T n
  rcases Nat.lt_or_ge (p % n) (T % n) with h | h
  · refine ⟨n * (T / n + 1) + p % n, ?_, ?_, by simp⟩ <;> rw [Nat.mul_add] <;> omega
  · exact ⟨n * (T / n) + p % n, by omega, by omega, by simp⟩

def tally (f : Nat → Bool) (m : Nat) : Nat := (List.range m).countP f

theorem tally_le (f : Nat → Bool) (m : Nat) : tally f m ≤ m := by
  simpa [tally] using List.countP_le_length (p := f) (l := List.range m)

theorem tally_mono {f g : Nat → Bool} (h : ∀ i, f i = true → g i = true) (m : Nat) :
    tally f m ≤ tally g m := List.countP_mono_left fun i _ => h i

theorem tally_succ (f : Nat → Bool) (m : Nat) :
    tally f (m + 1) = tally f m + (if f m then 1 else 0) := by
  simp [tally, List.range_succ, List.countP_append, List.countP_singleton]

theorem tally_le_tally (f : Nat → Bool) {m k : Nat} (h : m ≤ k) : tally f m ≤ tally f k := by
  induction h with
  | refl => exact le_rfl
  | step _ ih =>
    rw [tally_succ]
    omega

theorem tally_full {f : Nat → Bool} {m : Nat} (h : ∀ i < m, f i = true) : tally f m = m := by
  have hall : ∀ i ∈ List.range m, f i = true := fun i hi => h i (List.mem_range.mp hi)
  rw [tally, List.countP_eq_length.mpr hall, List.length_range]

end Wraparound
