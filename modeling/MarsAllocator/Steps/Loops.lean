import MarsAllocator.Model.Core
import MarsAllocator.Steps.Sizes

namespace Mars

theorem usub_roundUp {align raw : Nat} (ha : align ≤ 2 ^ 64) (hr : raw < 2 ^ 64) :
    usub (roundUp raw align) raw = align - 1 - (uadd raw (align - 1) &&& (align - 1)) := by
  have hx := uadd_lt raw (align - 1)
  have h₁ : uadd raw (align - 1) &&& (align - 1) ≤ uadd raw (align - 1) := Nat.and_le_left
  have h₂ : uadd raw (align - 1) &&& (align - 1) ≤ align - 1 := Nat.and_le_right
  have hu : uadd raw (align - 1) = (raw + (align - 1)) % 2 ^ 64 := rfl
  rw [roundUp, and_not_mask hx, usub]
  generalize uadd raw (align - 1) &&& (align - 1) = y at h₁ h₂
  omega

theorem advanceWant_spec (P : Profile) {align raw : Nat} (ha : 16 < align) (ha' : align ≤ 2 ^ 63)
    (hr : raw < 2 ^ 64) (fuel : Nat) {want : Nat} (hw : want < 2 ^ 64)
    (hfuel : P.minBlock ≤ usub want raw + 16 * fuel) :
    advanceWant P align raw fuel want < 2 ^ 64 ∧
      P.minBlock ≤ usub (advanceWant P align raw fuel want) raw ∧
      (usub (advanceWant P align raw fuel want) raw ≤ usub want raw ∨
        usub (advanceWant P align raw fuel want) raw < P.minBlock + align) := by
  have hp := P.sizes
  induction fuel generalizing want with
  | zero =>
    rw [advanceWant]
    rw [Nat.mul_zero, Nat.add_zero] at hfuel
    exact ⟨hw, hfuel, Or.inl (le_refl _)⟩
  | succ fuel ih =>
    rw [advanceWant]
    split
    · rename_i hlt
      have hstep := usub_uadd (x := want) (a := align) hr (by omega)
      have hi := ih (uadd_lt want align) (by omega)
      refine ⟨hi.1, hi.2.1, Or.inr ?_⟩
      rcases hi.2.2 with hle | hle
      · rw [hstep] at hle
        exact lt_of_le_of_lt hle (by omega)
      · exact hle
    · exact ⟨hw, by omega, Or.inl (le_refl _)⟩

theorem alignedIn_spec (P : Profile) {align : Nat} (raw : Nat) (ha : 16 < align) (ha' : align ≤ 2 ^ 63)
    (hr : raw < 2 ^ 64) :
    alignedIn P align raw < 2 ^ 64 ∧ P.minBlock ≤ frontIn P align raw ∧
      frontIn P align raw < P.minBlock + align := by
  have hp := P.sizes
  have hround : roundUp raw align < 2 ^ 64 :=
    lt_of_le_of_lt Nat.and_le_left (uadd_lt raw (align - 1))
  have hfront := @usub_roundUp align raw (by omega) hr
  have hspec := advanceWant_spec P ha ha' hr 64 hround (by omega)
  refine ⟨hspec.1, hspec.2.1, ?_⟩
  rcases hspec.2.2 with hle | hle
  · exact lt_of_le_of_lt hle (by omega)
  · exact hle

theorem pow_dvd_of_lt {k : Nat} (hk : 2 ^ k < 2 ^ 64) : 2 ^ k ∣ 2 ^ 64 :=
  pow_dvd_pow 2 (Nat.pow_lt_pow_iff_right (by decide) |>.mp hk).le

theorem uadd_mod_pow {k x : Nat} (hk : 2 ^ k < 2 ^ 64) (hx : x % 2 ^ k = 0) :
    uadd x (2 ^ k) % 2 ^ k = 0 := by
  rw [uadd, Nat.mod_mod_of_dvd _ (pow_dvd_of_lt hk), Nat.add_mod_right, hx]

theorem roundUp_mod_pow (raw : Nat) {k : Nat} : roundUp raw (2 ^ k) % 2 ^ k = 0 := by
  have hx := uadd_lt raw (2 ^ k - 1)
  rw [roundUp, and_not_mask hx, Nat.and_two_pow_sub_one_eq_mod]
  exact Nat.sub_mod_eq_zero_of_mod_eq (by rw [Nat.mod_mod])

theorem advanceWant_mod_pow (P : Profile) {k raw want : Nat} (hk : 2 ^ k < 2 ^ 64)
    (hw : want % 2 ^ k = 0) (fuel : Nat) : advanceWant P (2 ^ k) raw fuel want % 2 ^ k = 0 := by
  induction fuel generalizing want with
  | zero => exact hw
  | succ fuel ih =>
    rw [advanceWant]
    split
    · exact ih (uadd_mod_pow hk hw)
    · exact hw

/-- The address is aligned, whether or not it has wrapped. -/
theorem alignedIn_mod_pow (P : Profile) {k : Nat} (raw : Nat) (hk : 2 ^ k < 2 ^ 64) :
    alignedIn P (2 ^ k) raw % 2 ^ k = 0 := advanceWant_mod_pow P hk (roundUp_mod_pow raw) 64

theorem nextNonemptyFrom_fuel (bitmap : Nat → BitVec 64) {fuel word : Nat} (w : BitVec 64)
    (hf : binWords ≤ fuel + word) (hw : word < binWords) :
    nextNonemptyFrom bitmap fuel word w = nextNonemptyFrom bitmap (binWords - word) word w := by
  induction fuel generalizing word w with
  | zero => omega
  | succ fuel ih =>
    have hk : binWords - word = binWords - (word + 1) + 1 := by omega
    rw [hk, nextNonemptyFrom, nextNonemptyFrom]
    split
    · rfl
    split
    · rfl
    · exact ih _ (by omega) (by omega)

/-- The loops of the source without a bound of their own end within the steps they are given. -/
def LoopsEnd (P : Profile) : Prop :=
  (∀ align raw, 16 < align → align ≤ 2 ^ 63 → raw < 2 ^ 64 →
      P.minBlock ≤ usub (alignedIn P align raw) raw) ∧
    ∀ bitmap fuel start w, start < binCount → binWords ≤ fuel →
      nextNonemptyFrom bitmap fuel (start / 64) w =
        nextNonemptyFrom bitmap binWords (start / 64) w

theorem loopsEnd (P : Profile) : LoopsEnd P := by
  refine ⟨fun align raw ha ha' hr => (alignedIn_spec P raw ha ha' hr).2.1, ?_⟩
  intro bitmap fuel start w hs hf
  have h128 : binCount = binWords * 64 := rfl
  have hword : start / 64 < binWords := by omega
  rw [nextNonemptyFrom_fuel bitmap w (by omega) hword,
    @nextNonemptyFrom_fuel bitmap binWords _ w (by omega) hword]

end Mars
