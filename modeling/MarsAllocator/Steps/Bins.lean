import MarsAllocator.Model.Freelist
import Mathlib.Data.Nat.Log

namespace Mars

open StateProgram

/-- The two bits below the leading one. -/
def subBin (n : Nat) : Nat := (n >>> (floorLog2 n - 2)) &&& 3

theorem subBin_eq {n : Nat} (hn : 4 ≤ n) : subBin n = n / 2 ^ (floorLog2 n - 2) - 4 := by
  have h0 : n ≠ 0 := by omega
  have hlog : 2 ≤ Nat.log2 n := (Nat.le_log2 h0).mpr (by omega)
  have hlo : 2 ^ Nat.log2 n ≤ n := Nat.log2_self_le h0
  have hhi : n < 2 ^ (Nat.log2 n + 1) := Nat.lt_log2_self
  have h3 : (3 : Nat) = 2 ^ 2 - 1 := rfl
  rw [subBin, h3, Nat.and_two_pow_sub_one_eq_mod, Nat.shiftRight_eq_div_pow, floorLog2]
  generalize hk : Nat.log2 n - 2 = k
  have hlog' : Nat.log2 n = k + 2 := by omega
  rw [hlog', Nat.pow_add] at hlo
  rw [hlog', show k + 2 + 1 = k + 3 from rfl, Nat.pow_add] at hhi
  have h4 : 4 ≤ n / 2 ^ k := (Nat.le_div_iff_mul_le (Nat.two_pow_pos k)).mpr (by omega)
  have h8 : n / 2 ^ k < 8 := (Nat.div_lt_iff_lt_mul (Nat.two_pow_pos k)).mpr (by omega)
  omega

theorem subBin_lt (n : Nat) : subBin n < 4 := by
  have h3 : (3 : Nat) = 2 ^ 2 - 1 := rfl
  rw [subBin, h3, Nat.and_two_pow_sub_one_eq_mod]
  exact Nat.mod_lt _ (by decide)

theorem floorLog2_mono {n n' : Nat} (h0 : n ≠ 0) (h : n ≤ n') : floorLog2 n ≤ floorLog2 n' :=
  (Nat.le_log2 (by omega)).mpr ((Nat.log2_self_le h0).trans h)

theorem octave_mono {n n' : Nat} (hn : 4 ≤ n) (h : n ≤ n') :
    floorLog2 n * 4 + subBin n ≤ floorLog2 n' * 4 + subBin n' := by
  have hk := floorLog2_mono (by omega) h
  have hs := subBin_lt n
  by_cases he : floorLog2 n = floorLog2 n'
  · rw [subBin_eq hn, subBin_eq (by omega), he]
    have := Nat.div_le_div_right (c := 2 ^ (floorLog2 n' - 2)) h
    omega
  · omega

theorem binOf_mono (P : Profile) {n n' : Nat} (h : n ≤ n') : binOf P n ≤ binOf P n' := by
  have hp := P.sizes
  have hmin : P.largeMin = P.minBlock + 1024 := by
    simp only [Profile.largeMin, alignment, smallBins]
  unfold binOf
  rw [hmin]
  by_cases hn' : n' < P.minBlock + 1024
  · have hn : n < P.minBlock + 1024 := by omega
    rw [if_pos hn, if_pos hn']
    split
    · omega
    · rw [if_neg (by omega)]
      exact Nat.div_le_div_right (by omega)
  rw [if_neg hn']
  have hlog : 10 ≤ floorLog2 n' := (Nat.le_log2 (by omega)).mpr (by omega)
  have hlarge : ∀ idx : Nat, (if idx < binCount then idx else binCount - 1) = min idx 127 := by
    intro idx
    have : binCount = 128 := rfl
    split <;> omega
  change (if n < P.minBlock + 1024 then
      (if n ≤ P.minBlock then 0 else (n - P.minBlock) / alignment)
    else (if smallBins + (floorLog2 n - largeOctave0) * largeSubbins + subBin n < binCount then
      smallBins + (floorLog2 n - largeOctave0) * largeSubbins + subBin n else binCount - 1)) ≤
    (if smallBins + (floorLog2 n' - largeOctave0) * largeSubbins + subBin n' < binCount then
      smallBins + (floorLog2 n' - largeOctave0) * largeSubbins + subBin n' else binCount - 1)
  rw [hlarge, hlarge]
  have h64 : smallBins = 64 := rfl
  have hoct : largeOctave0 = 10 := rfl
  have hsub : largeSubbins = 4 := rfl
  rw [h64, hoct, hsub]
  split
  · split
    · omega
    · have : (n - P.minBlock) / alignment < 64 := by
        rw [alignment]
        omega
      omega
  · have hlog' : 10 ≤ floorLog2 n := (Nat.le_log2 (by omega)).mpr (by omega)
    have := octave_mono (by omega : 4 ≤ n) h
    omega

theorem lt_of_binOf_lt {P : Profile} {n n' : Nat} (h : binOf P n < binOf P n') : n < n' := by
  by_contra hn
  exact absurd (binOf_mono P (Nat.le_of_not_lt hn)) (Nat.not_le.mpr h)

theorem binOf_lt (P : Profile) (n : Nat) : binOf P n < binCount := by
  have hp := P.sizes
  have hmin : P.largeMin = P.minBlock + 1024 := by
    simp only [Profile.largeMin, alignment, smallBins]
  have hc : binCount = 128 := rfl
  unfold binOf
  rw [hmin, hc, alignment]
  split
  · split <;> omega
  · dsimp only
    split <;> omega

theorem lowestBit_ge {w : BitVec 64} {k : Nat} (hk : k ≤ 64)
    (hw : ∀ i, i < k → w.getLsbD i = false) : k ≤ lowestBit w := by
  unfold lowestBit
  rcases hf : (List.range 64).find? w.getLsbD with _ | i
  · exact hk
  · have hi := List.find?_some hf
    by_contra hlt
    exact Bool.false_ne_true ((hw i (Nat.lt_of_not_le hlt)).symm.trans hi)

theorem nextNonemptyFrom_ge (bitmap : Nat → BitVec 64) (fuel word : Nat) (w : BitVec 64) {k : Nat}
    (hword : word < binWords) (hk : k ≤ 64) (hw : ∀ i, i < k → w.getLsbD i = false) :
    word * 64 + k ≤ nextNonemptyFrom bitmap fuel word w := by
  have h128 : binCount = binWords * 64 := rfl
  have hle : word * 64 + k ≤ binCount := by omega
  induction fuel generalizing word w k with
  | zero => exact hle
  | succ fuel ih =>
    rw [nextNonemptyFrom]
    split
    · exact Nat.add_le_add_left (lowestBit_ge hk hw) _
    split
    · exact hle
    · have hi := ih (k := 0) (word + 1) (bitmap (word + 1)) (by omega) (by omega)
        (fun i hi => absurd hi (by omega)) (by omega)
      omega

theorem nextNonempty_ge (start : Nat) (h : Heap) :
    (nextNonempty start h).1 < binCount → start ≤ (nextNonempty start h).1 := by
  rw [nextNonempty, Prog.ite_run]
  split
  · exact fun hlt => absurd hlt (by simp [Prog.pure_run])
  · rename_i hs
    intro _
    have h128 : binCount = binWords * 64 := rfl
    have hge := nextNonemptyFrom_ge h.binBitmap binWords (start / 64)
      (h.binBitmap (start / 64) &&& (BitVec.allOnes 64 <<< (start % 64))) (k := start % 64)
      (by omega) (by omega) (fun i hi => by simp [hi])
    rw [Prog.read_run]
    omega

theorem lowestBit_spec {w : BitVec 64} (hw : w ≠ 0) :
    lowestBit w < 64 ∧ w.getLsbD (lowestBit w) = true ∧
      ∀ i < lowestBit w, w.getLsbD i = false := by
  unfold lowestBit
  rcases hf : (List.range 64).find? w.getLsbD with _ | i
  · refine absurd (BitVec.eq_of_getLsbD_eq fun i hi => ?_) hw
    have hnone := List.find?_eq_none.mp hf i (List.mem_range.mpr hi)
    rw [Bool.not_eq_true] at hnone
    rw [hnone]
    exact (BitVec.getLsbD_zero (w := 64) (i := i)).symm
  · obtain ⟨hbit, hmem, hmin⟩ := List.find?_range_eq_some.mp hf
    exact ⟨List.mem_range.mp hmem, hbit, fun j hj => by simpa using hmin j hj⟩

def bitAt (bitmap : Nat → BitVec 64) (i : Nat) : Bool := (bitmap (i / 64)).getLsbD (i % 64)

theorem nextNonemptyFrom_spec (bitmap : Nat → BitVec 64) {fuel word k : Nat} {w : BitVec 64}
    (hword : word < binWords) (hfuel : binWords ≤ word + fuel) (hk : k ≤ 64)
    (hw : ∀ i < 64, w.getLsbD i = (decide (k ≤ i) && (bitmap word).getLsbD i)) :
    nextNonemptyFrom bitmap fuel word w ≤ binCount ∧
      (∀ i, word * 64 + k ≤ i → i < nextNonemptyFrom bitmap fuel word w → bitAt bitmap i = false) ∧
      (nextNonemptyFrom bitmap fuel word w < binCount →
        bitAt bitmap (nextNonemptyFrom bitmap fuel word w) = true) := by
  have h128 : binCount = binWords * 64 := rfl
  induction fuel generalizing word w k with
  | zero => omega
  | succ fuel ih =>
    rw [nextNonemptyFrom]
    by_cases hz : w ≠ 0
    · rw [if_pos hz]
      obtain ⟨hlt, hbit, hmin⟩ := lowestBit_spec hz
      have hbit' := hw _ hlt
      rw [hbit] at hbit'
      refine ⟨by omega, fun i hi hi' => ?_, fun _ => ?_⟩
      · have hm := hmin (i % 64) (by omega)
        have hv := hw (i % 64) (by omega)
        rw [hm, decide_eq_true (by omega), Bool.true_and] at hv
        rw [bitAt, show i / 64 = word by omega]
        exact hv.symm
      · rw [bitAt, show (word * 64 + lowestBit w) / 64 = word by omega,
          show (word * 64 + lowestBit w) % 64 = lowestBit w by omega]
        exact (Bool.and_eq_true_iff.mp hbit'.symm).2
    · have hzero : ∀ i, word * 64 + k ≤ i → i < (word + 1) * 64 → bitAt bitmap i = false := by
        intro i hi hi'
        have hv := hw (i % 64) (by omega)
        have hwz : w.getLsbD (i % 64) = false := by
          rw [not_not.mp hz]
          exact BitVec.getLsbD_zero
        rw [hwz, decide_eq_true (by omega), Bool.true_and] at hv
        rw [bitAt, show i / 64 = word by omega]
        exact hv.symm
      rw [if_neg hz]
      split
      · rename_i hlast
        exact ⟨le_refl _, fun i hi hi' => hzero i hi (by omega), fun hlt => absurd hlt (by omega)⟩
      · rename_i hmore
        obtain ⟨hle, hmin, hbit⟩ := @ih (word + 1) 0 (bitmap (word + 1))
          (by omega) (by omega) (by omega) fun i _ => by simp
        refine ⟨hle, fun i hi hi' => ?_, hbit⟩
        by_cases hin : i < (word + 1) * 64
        · exact hzero i hi hin
        · exact hmin i (by omega) hi'

theorem nextNonempty_spec (start : Nat) (h : Heap) :
    (∀ i, start ≤ i → i < (nextNonempty start h).1 → i < binCount →
      bitAt h.binBitmap i = false) ∧
      ((nextNonempty start h).1 < binCount →
        bitAt h.binBitmap (nextNonempty start h).1 = true) := by
  rw [nextNonempty, Prog.ite_run]
  split
  · rename_i hs
    refine ⟨fun i hi _ hi' => ?_, fun hlt => ?_⟩
    · omega
    · exact absurd hlt (by simp [Prog.pure_run])
  · rename_i hs
    have h128 : binCount = binWords * 64 := rfl
    have hspec := @nextNonemptyFrom_spec h.binBitmap binWords (start / 64) (start % 64)
      (h.binBitmap (start / 64) &&& (BitVec.allOnes 64 <<< (start % 64)))
      (by omega) (by omega) (by omega) fun i hi => by
        by_cases hk : start % 64 ≤ i
        · have h₁ : ¬ i < start % 64 := by omega
          have h₂ : i - start % 64 < 64 := by omega
          rw [BitVec.getLsbD_and, BitVec.getLsbD_shiftLeft, BitVec.getLsbD_allOnes,
            decide_eq_true hk, decide_eq_true h₂, decide_eq_true hi, decide_eq_false h₁, Bool.and_comm]
          rfl
        · have h₁ : i < start % 64 := by omega
          simp [hk, h₁]
    rw [Prog.read_run]
    refine ⟨fun i hi hi' _ => hspec.2.1 i (by omega) hi', hspec.2.2⟩

end Mars
