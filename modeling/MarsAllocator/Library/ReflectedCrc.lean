import MarsAllocator.Library.ByteMemory
import Mathlib.Data.Nat.Bitwise
import Mathlib.Data.Nat.Prime.Basic
import Mathlib.Dynamics.PeriodicPts.Defs

namespace ReflectedCrc

open ByteMemory

variable {poly : Nat}

/-- One step of a division whose remainder has its highest power in the lowest place. -/
def shiftOut (poly x : Nat) : Nat := (x >>> 1) ^^^ (if x.testBit 0 then poly else 0)

def divide (poly : Nat) : Nat → Nat → Nat
  | 0, x => x
  | n + 1, x => divide poly n (shiftOut poly x)

theorem shiftOut_xor (x y : Nat) : shiftOut poly (x ^^^ y) = shiftOut poly x ^^^ shiftOut poly y := by
  rw [shiftOut, shiftOut, shiftOut, Nat.shiftRight_xor_distrib, Nat.testBit_xor]
  apply Nat.eq_of_testBit_eq
  intro i
  cases x.testBit 0 <;> cases y.testBit 0 <;> simp <;> cases (x >>> 1).testBit i <;>
    cases (y >>> 1).testBit i <;> cases poly.testBit i <;> simp

theorem shiftOut_shiftLeft (x : Nat) : shiftOut poly (x <<< 1) = x := by
  simp [shiftOut, Nat.shiftLeft_shiftRight]

theorem shiftOut_lt {w x : Nat} (hp : poly < 2 ^ w) (hx : x < 2 ^ (w + 1)) :
    shiftOut poly x < 2 ^ w := by
  refine Nat.xor_lt_two_pow ?_ ?_
  · rw [Nat.shiftRight_eq_div_pow]
    rw [pow_succ] at hx
    omega
  · split
    · exact hp
    · exact Nat.two_pow_pos w

/-- The step loses nothing: what it feeds back is seen in the highest place. -/
theorem eq_zero_of_shiftOut {w x : Nat} (hp : 2 ^ w ≤ poly) (hx : x < 2 ^ (w + 1))
    (h : shiftOut poly x = 0) : x = 0 := by
  rw [shiftOut, Nat.xor_eq_zero_iff, Nat.shiftRight_eq_div_pow] at h
  rw [pow_succ] at hx
  rw [Nat.testBit_zero] at h
  split at h
  · omega
  · rename_i hlow
    simp only [decide_eq_true_eq] at hlow
    omega

theorem divide_xor (n x y : Nat) : divide poly n (x ^^^ y) = divide poly n x ^^^ divide poly n y := by
  induction n generalizing x y with
  | zero => rfl
  | succ n ih => rw [divide, divide, divide, shiftOut_xor, ih]

theorem divide_add (m n x : Nat) : divide poly (m + n) x = divide poly n (divide poly m x) := by
  induction m generalizing x with
  | zero => rw [Nat.zero_add, divide]
  | succ m ih => rw [Nat.succ_add, divide, divide, ih]

theorem divide_shiftLeft (n x : Nat) : divide poly n (x <<< n) = x := by
  induction n with
  | zero => rfl
  | succ n ih => rw [divide, Nat.shiftLeft_add, shiftOut_shiftLeft, ih]

theorem divide_lt {w n x : Nat} (hp : poly < 2 ^ w) (hx : x < 2 ^ (w + n)) :
    divide poly n x < 2 ^ w := by
  induction n generalizing x with
  | zero => exact hx
  | succ n ih =>
    refine ih (shiftOut_lt ?_ hx)
    exact hp.trans_le (Nat.pow_le_pow_right (by decide) (Nat.le_add_right _ _))

theorem eq_zero_of_divide {w n x : Nat} (hl : 2 ^ w ≤ poly) (hp : poly < 2 ^ (w + 1))
    (hx : x < 2 ^ (w + 1)) (h : divide poly n x = 0) : x = 0 := by
  induction n generalizing x with
  | zero => exact h
  | succ n ih =>
    have hlt : shiftOut poly x < 2 ^ (w + 1) :=
      shiftOut_lt hp (hx.trans_le (Nat.pow_le_pow_right (by decide) (Nat.le_succ _)))
    exact eq_zero_of_shiftOut hl hx (ih hlt h)

theorem divide_inj {w n x y : Nat} (hl : 2 ^ w ≤ poly) (hp : poly < 2 ^ (w + 1))
    (hx : x < 2 ^ (w + 1)) (hy : y < 2 ^ (w + 1)) (h : divide poly n x = divide poly n y) :
    x = y := by
  refine Nat.xor_eq_zero_iff.mp (eq_zero_of_divide hl hp (Nat.xor_lt_two_pow hx hy) (n := n) ?_)
  rw [divide_xor, h, Nat.xor_self]

/-- The bits of a message taken into the register one at a time. -/
def serial (poly c : Nat) : List Bool → Nat
  | [] => c
  | b :: bs => serial poly (shiftOut poly (c ^^^ b.toNat)) bs

/-- The `n` lowest bits of an operand, the lowest first. -/
def operandBits (n v : Nat) : List Bool := (List.range n).map v.testBit

def byteBits (bs : List UInt8) : List Bool := bs.flatMap fun b => operandBits 8 b.toNat

theorem serial_append (c : Nat) (xs ys : List Bool) :
    serial poly c (xs ++ ys) = serial poly (serial poly c xs) ys := by
  induction xs generalizing c with
  | nil => rfl
  | cons b xs ih => exact ih _

theorem operandBits_succ (n v : Nat) :
    operandBits (n + 1) v = v.testBit 0 :: operandBits n (v >>> 1) := by
  rw [operandBits, List.range_succ_eq_map, List.map_cons, List.map_map, operandBits]
  refine congrArg _ (List.map_congr_left fun i _ => ?_)
  rw [Nat.testBit_shiftRight, Nat.add_comm]
  rfl

theorem shiftOut_absorb (c v : Nat) :
    shiftOut poly (c ^^^ v) = shiftOut poly (c ^^^ (v.testBit 0).toNat) ^^^ (v >>> 1) := by
  have hv : v = (v.testBit 0).toNat ^^^ ((v >>> 1) <<< 1) := by
    apply Nat.eq_of_testBit_eq
    intro i
    rw [Nat.testBit_xor, Nat.testBit_shiftLeft, Nat.testBit_bool_toNat]
    cases i with
    | zero => simp
    | succ i => simp [Nat.testBit_shiftRight, Nat.add_comm]
  conv_lhs => rw [hv, ← Nat.xor_assoc, shiftOut_xor, shiftOut_shiftLeft]

theorem serial_operandBits {n v : Nat} (c : Nat) (hv : v < 2 ^ n) :
    serial poly c (operandBits n v) = divide poly n (c ^^^ v) := by
  induction n generalizing c v with
  | zero =>
    obtain rfl : v = 0 := by simpa using hv
    simp [operandBits, serial, divide]
  | succ n ih =>
    have hv' : v >>> 1 < 2 ^ n := by
      rw [Nat.shiftRight_eq_div_pow]
      rw [pow_succ] at hv
      omega
    rw [operandBits_succ, serial, ih _ hv', divide, ← shiftOut_absorb]

theorem add_eq_xor {n lo : Nat} (hi : Nat) (hlo : lo < 2 ^ n) :
    lo + 2 ^ n * hi = lo ^^^ (hi <<< n) := by
  apply Nat.eq_of_testBit_eq
  intro i
  rw [Nat.add_comm, Nat.testBit_two_pow_mul_add _ hlo, Nat.testBit_xor, Nat.testBit_shiftLeft]
  split_ifs with hi'
  · simp [Nat.not_le.mpr hi']
  · have hz : lo.testBit i = false :=
      Nat.testBit_lt_two_pow (hlo.trans_le (Nat.pow_le_pow_right (by decide) (Nat.le_of_not_lt hi')))
    simp [hz, Nat.le_of_not_lt hi']

theorem divide_add_mul {n lo : Nat} (c hi : Nat) (hlo : lo < 2 ^ n) :
    divide poly n (c ^^^ (lo + 2 ^ n * hi)) = divide poly n (c ^^^ lo) ^^^ hi := by
  rw [add_eq_xor hi hlo, ← Nat.xor_assoc, divide_xor, divide_shiftLeft]

theorem divide_split (n x : Nat) : divide poly n x = divide poly n (x % 2 ^ n) ^^^ (x >>> n) := by
  have h := @divide_add_mul poly n (x % 2 ^ n) 0 (x / 2 ^ n) (Nat.mod_lt x (Nat.two_pow_pos n))
  rwa [Nat.zero_xor, Nat.zero_xor, Nat.mod_add_div, ← Nat.shiftRight_eq_div_pow] at h

theorem serial_byteBits (c : Nat) (bs : List UInt8) :
    serial poly c (byteBits bs) = divide poly (8 * bs.length) (c ^^^ Memory.ofBytes bs) := by
  induction bs generalizing c with
  | nil => simp [byteBits, serial, divide, Memory.ofBytes]
  | cons b bs ih =>
    have hb : b.toNat < 2 ^ 8 := b.toNat_lt
    have hlen : 8 * (b :: bs).length = 8 + 8 * bs.length := by
      rw [List.length_cons]
      omega
    have hcons : byteBits (b :: bs) = operandBits 8 b.toNat ++ byteBits bs := rfl
    have hstep := @divide_add_mul poly 8 b.toNat c (Memory.ofBytes bs) hb
    rw [hcons, serial_append, serial_operandBits c hb, ih, hlen, divide_add, ← hstep]
    rfl

/-- Whether an odd number of the lowest `n` bits is set. -/
def parity : Nat → Nat → Bool
  | 0, _ => false
  | n + 1, x => x.testBit 0 ^^ parity n (x >>> 1)

theorem parity_xor (n x y : Nat) : parity n (x ^^^ y) = (parity n x ^^ parity n y) := by
  induction n generalizing x y with
  | zero => rfl
  | succ n ih =>
    rw [parity, parity, parity, Nat.shiftRight_xor_distrib, ih, Nat.testBit_xor]
    cases x.testBit 0 <;> cases y.testBit 0 <;> simp

theorem parity_zero (n : Nat) : parity n 0 = false := by
  induction n with
  | zero => rfl
  | succ n ih => simp [parity, ih]

theorem parity_of_lt {n x : Nat} (m : Nat) (hx : x < 2 ^ n) : parity (n + m) x = parity n x := by
  induction n generalizing x with
  | zero =>
    obtain rfl : x = 0 := by simpa using hx
    rw [parity_zero, parity_zero]
  | succ n ih =>
    have hx' : x >>> 1 < 2 ^ n := by
      rw [Nat.shiftRight_eq_div_pow]
      rw [pow_succ] at hx
      omega
    rw [Nat.succ_add, parity, parity, ih hx']

/-- With an odd number of taps a step puts in what it takes out. -/
theorem parity_shiftOut {w : Nat} (hp : poly < 2 ^ w) (hodd : parity w poly = true) (m x : Nat) :
    parity (w + m) (shiftOut poly x) = parity (w + m + 1) x := by
  rw [shiftOut, parity_xor, parity, Bool.xor_comm]
  cases x.testBit 0
  · simp [parity_zero]
  · simp [parity_of_lt m hp, hodd]

theorem parity_divide {w : Nat} (hp : poly < 2 ^ w) (hodd : parity w poly = true) (n x : Nat) :
    parity w (divide poly n x) = parity (w + n) x := by
  induction n generalizing x with
  | zero => rfl
  | succ n ih => rw [divide, ih, parity_shiftOut hp hodd, Nat.add_assoc]

theorem divide_eq_iterate (n x : Nat) : divide poly n x = (shiftOut poly)^[n] x := by
  induction n generalizing x with
  | zero => rfl
  | succ n ih => rw [divide, ih, Function.iterate_succ_apply]

def Linear (f : Nat → Nat) : Prop := ∀ x y, f (x ^^^ y) = f x ^^^ f y

theorem Linear.zero {f : Nat → Nat} (hf : Linear f) : f 0 = 0 := by
  have h := hf 0 0
  rwa [Nat.xor_self, Nat.xor_self] at h

theorem Linear.divide (n : Nat) : Linear (divide poly n) := divide_xor n

theorem Linear.comp {f g : Nat → Nat} (hf : Linear f) (hg : Linear g) : Linear (f ∘ g) :=
  fun x y => (congrArg f (hg x y)).trans (hf _ _)

theorem Linear.ext {f g : Nat → Nat} (hf : Linear f) (hg : Linear g) {n : Nat}
    (h : ∀ i < n, f (2 ^ i) = g (2 ^ i)) {x : Nat} (hx : x < 2 ^ n) : f x = g x := by
  induction n generalizing x with
  | zero =>
    obtain rfl : x = 0 := by simpa using hx
    rw [hf.zero, hg.zero]
  | succ n ih =>
    have hlow : x % 2 ^ n < 2 ^ n := Nat.mod_lt _ (Nat.two_pow_pos n)
    have hrec := ih (fun i hi => h i (Nat.lt_succ_of_lt hi)) hlow
    rcases Nat.lt_or_ge x (2 ^ n) with hn | hn
    · rwa [Nat.mod_eq_of_lt hn] at hrec
    · have hsplit : x = x % 2 ^ n ^^^ 2 ^ n := by
        have hadd := add_eq_xor 1 hlow
        rw [Nat.one_shiftLeft, Nat.mul_one] at hadd
        rw [← hadd]
        rw [pow_succ] at hx
        rw [Nat.mod_eq_sub_mod hn, Nat.mod_eq_of_lt (by omega)]
        omega
      rw [hsplit, hf, hg, hrec, h n (Nat.lt_succ_self n)]

/-- The map that takes `2 ^ i` to the `i`-th column. -/
def combine : List Nat → Nat → Nat
  | [], _ => 0
  | c :: cs, x => (if x.testBit 0 then c else 0) ^^^ combine cs (x >>> 1)

theorem linear_combine (cols : List Nat) : Linear (combine cols) := by
  induction cols with
  | nil => exact fun _ _ => (Nat.xor_self 0).symm
  | cons c cs ih =>
    intro x y
    rw [combine, combine, combine, Nat.shiftRight_xor_distrib, ih, Nat.testBit_xor]
    apply Nat.eq_of_testBit_eq
    intro i
    cases x.testBit 0 <;> cases y.testBit 0 <;> simp <;> cases (combine cs (x >>> 1)).testBit i <;>
      cases (combine cs (y >>> 1)).testBit i <;> cases c.testBit i <;> simp

theorem combine_two_pow (cols : List Nat) (i : Nat) : combine cols (2 ^ i) = cols.getD i 0 := by
  induction cols generalizing i with
  | nil => simp [combine]
  | cons c cs ih =>
    cases i with
    | zero => simp [combine, (linear_combine cs).zero]
    | succ i =>
      have hsh : 2 ^ (i + 1) >>> 1 = 2 ^ i := by
        rw [Nat.shiftRight_eq_div_pow, pow_succ, pow_one, Nat.mul_div_cancel _ (by decide)]
      have hlow : (2 ^ (i + 1)).testBit 0 = false := Nat.testBit_two_pow_of_ne (by omega)
      rw [combine, hlow, hsh, ih]
      simp

/-- Where squaring takes a register of `w + 1` bits, `2 ^ w` being the unit. -/
def squares (poly w : Nat) : List Nat :=
  (List.range (w + 1)).map fun j => divide poly (2 * (w - j)) (2 ^ w)

theorem square_two_pow {w j : Nat} (hj : j ≤ w) :
    combine (squares poly w) (2 ^ j) = divide poly (2 * (w - j)) (2 ^ w) := by
  rw [combine_two_pow, squares]
  simp [Nat.lt_succ_of_le hj]

section

variable {w : Nat} (hl : 2 ^ w ≤ poly) (hp : poly < 2 ^ (w + 1))
  (hs : combine (squares poly w) poly = divide poly (2 * (w + 1)) (2 ^ w))
include hs

theorem square_shiftOut {x : Nat} (hx : x < 2 ^ (w + 1)) :
    combine (squares poly w) (shiftOut poly x) = divide poly 2 (combine (squares poly w) x) := by
  have hf : Linear fun x => combine (squares poly w) (shiftOut poly x) :=
    (linear_combine _).comp fun x y => shiftOut_xor x y
  have hg : Linear fun x => divide poly 2 (combine (squares poly w) x) :=
    (Linear.divide 2).comp (linear_combine _)
  refine hf.ext hg (fun j hj => ?_) hx
  rw [square_two_pow (Nat.le_of_lt_succ hj), ← divide_add]
  cases j with
  | zero =>
    have hone : shiftOut poly (2 ^ 0) = poly := by simp [shiftOut]
    rw [hone, hs]
    congr 1
  | succ j =>
    have hdown : shiftOut poly (2 ^ (j + 1)) = 2 ^ j := by
      have h := @shiftOut_shiftLeft poly (2 ^ j)
      rwa [Nat.shiftLeft_eq, pow_one, ← pow_succ] at h
    rw [hdown, square_two_pow (by omega)]
    congr 1
    omega

include hp

theorem square_divide (k : Nat) :
    combine (squares poly w) (divide poly k (2 ^ w)) = divide poly (2 * k) (2 ^ w) := by
  induction k with
  | zero =>
    have h := @square_two_pow poly w w (Nat.le_refl w)
    rwa [Nat.sub_self] at h
  | succ k ih =>
    have hlt : divide poly k (2 ^ w) < 2 ^ (w + 1) :=
      divide_lt hp (Nat.pow_lt_pow_right (by decide) (by omega))
    rw [divide_add, divide, divide, square_shiftOut hs hlt, ih, ← divide_add, Nat.mul_succ]

theorem square_iterate (n : Nat) :
    (combine (squares poly w))^[n] (shiftOut poly (2 ^ w)) = divide poly (2 ^ n) (2 ^ w) := by
  induction n with
  | zero => rfl
  | succ n ih => rw [Function.iterate_succ_apply', ih, square_divide hp hs, pow_succ']

include hl

/-- The unit comes back after `2 ^ n - 1` steps and, this being prime, not before. -/
theorem divide_unit_ne {n : Nat} (hn : (2 ^ n - 1).Prime)
    (hback : (combine (squares poly w))^[n] (shiftOut poly (2 ^ w)) = shiftOut poly (2 ^ w))
    (hone : shiftOut poly (2 ^ w) ≠ 2 ^ w) {k : Nat} (h0 : 0 < k) (hk : k < 2 ^ n - 1) :
    divide poly k (2 ^ w) ≠ 2 ^ w := by
  intro hper
  have hunit : 2 ^ w < 2 ^ (w + 1) := Nat.pow_lt_pow_right (by decide) (by omega)
  have hfull : divide poly (2 ^ n - 1) (2 ^ w) = 2 ^ w := by
    refine divide_inj hl hp (n := 1) (divide_lt hp (by
      exact hunit.trans_le (Nat.pow_le_pow_right (by decide) (by omega)))) hunit ?_
    rw [← divide_add, Nat.sub_add_cancel Nat.one_le_two_pow, ← square_iterate hp hs, hback]
    rfl
  rw [divide_eq_iterate] at hper hfull
  have hgcd := Function.IsPeriodicPt.gcd (f := shiftOut poly) hper hfull
  have hcop : Nat.gcd k (2 ^ n - 1) = 1 :=
    (Nat.coprime_of_lt_prime h0.ne' hk hn).symm
  rw [hcop] at hgcd
  exact hone hgcd

end

end ReflectedCrc
