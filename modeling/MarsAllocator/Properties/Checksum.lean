import MarsAllocator.Library.ReflectedCrc
import MarsAllocator.Model.Crc32
import Mathlib.NumberTheory.LucasLehmer

namespace Mars

open ByteMemory ReflectedCrc

def castagnoli : Nat := 0x82F63B78

theorem castagnoli_lt : castagnoli < 2 ^ 32 := by decide

theorem castagnoli_high : 2 ^ 31 ≤ castagnoli := by decide

theorem castagnoli_square :
    combine (squares castagnoli 31) castagnoli = divide castagnoli 64 (2 ^ 31) := by
  decide +kernel

theorem castagnoli_back : (combine (squares castagnoli 31))^[31] (shiftOut castagnoli (2 ^ 31)) =
    shiftOut castagnoli (2 ^ 31) := by
  decide +kernel

theorem castagnoli_order_prime : (2 ^ 31 - 1).Prime :=
  lucas_lehmer_sufficiency 31 (by norm_num) (by norm_num)

/-- The powers of x are distinct up to the order of the polynomial. -/
theorem castagnoli_powers_ne {j k : Nat} (hjk : j < k) (hk : k < j + (2 ^ 31 - 1)) :
    divide castagnoli k (2 ^ 31) ≠ divide castagnoli j (2 ^ 31) := by
  intro h
  have hlt : divide castagnoli (k - j) (2 ^ 31) < 2 ^ 32 :=
    divide_lt castagnoli_lt (Nat.pow_lt_pow_right (by decide) (by omega))
  have hk' : k = k - j + j := by omega
  rw [hk', divide_add] at h
  exact divide_unit_ne castagnoli_high castagnoli_lt castagnoli_square castagnoli_order_prime
    castagnoli_back (by decide) (Nat.sub_pos_of_lt hjk) (by omega)
    (divide_inj castagnoli_high castagnoli_lt hlt (by decide) h)

theorem kCrc32cTable_all : ∀ i ∈ List.range 256, kCrc32cTable i = divide castagnoli 8 i := by
  decide +kernel

theorem kCrc32cTable_eq {i : Nat} (hi : i < 256) : kCrc32cTable i = divide castagnoli 8 i :=
  kCrc32cTable_all i (List.mem_range.mpr hi)

theorem crc32cSw_step (crc data : Nat) :
    (crc >>> 8) ^^^ kCrc32cTable ((crc ^^^ data) &&& 0xFF) =
      divide castagnoli 8 (crc ^^^ data % 2 ^ 8) := by
  have hlow : (crc ^^^ data) &&& 0xFF = (crc ^^^ data % 2 ^ 8) % 2 ^ 8 := by
    rw [Nat.and_two_pow_sub_one_eq_mod _ 8, Nat.xor_mod_two_pow, Nat.xor_mod_two_pow,
      Nat.mod_mod]
  have hhigh : (crc ^^^ data % 2 ^ 8) >>> 8 = crc >>> 8 := by
    have hz : (data % 2 ^ 8) >>> 8 = 0 := by
      rw [Nat.shiftRight_eq_div_pow, Nat.div_eq_of_lt (Nat.mod_lt _ (by decide))]
    rw [Nat.shiftRight_xor_distrib, hz, Nat.xor_zero]
  rw [divide_split 8 (crc ^^^ data % 2 ^ 8), hhigh, ← hlow,
    kCrc32cTable_eq (Nat.and_lt_two_pow _ (by decide : 0xFF < 2 ^ 8)), Nat.xor_comm]

theorem crc32cSw_eq (crc data len : Nat) :
    crc32cSw crc data len = divide castagnoli (8 * len) (crc ^^^ data % 2 ^ (8 * len)) := by
  induction len generalizing crc data with
  | zero => simp [crc32cSw, divide, Nat.mod_one]
  | succ len ih =>
    have hmod : data % 2 ^ (8 + 8 * len) = data % 2 ^ 8 + 2 ^ 8 * (data >>> 8 % 2 ^ (8 * len)) := by
      rw [Nat.pow_add, Nat.mod_mul, Nat.shiftRight_eq_div_pow]
    have hlen : 8 * (len + 1) = 8 + 8 * len := by omega
    rw [crc32cSw, ih, crc32cSw_step, hlen, hmod, divide_add,
      divide_add_mul crc _ (Nat.mod_lt data (by decide))]

theorem crc32cSw_serial (crc : Nat) (bs : List UInt8) :
    crc32cSw crc (Memory.ofBytes bs) bs.length = serial castagnoli crc (byteBits bs) := by
  rw [crc32cSw_eq, Nat.mod_eq_of_lt (Memory.ofBytes_lt bs), serial_byteBits]

theorem crc32cSw_add (crc data m n : Nat) :
    crc32cSw crc data (m + n) = crc32cSw (crc32cSw crc data m) (data >>> (8 * m)) n := by
  induction m generalizing crc data with
  | zero => rw [Nat.zero_add, crc32cSw, Nat.mul_zero, Nat.shiftRight_zero]
  | succ m ih =>
    have hlen : m + 1 + n = m + n + 1 := by omega
    have hsh : 8 * (m + 1) = 8 + 8 * m := by omega
    rw [hlen, crc32cSw, ih, crc32cSw, hsh, Nat.shiftRight_add]

theorem xor_xor_xor_cancel (c x y : Nat) : (c ^^^ x) ^^^ (c ^^^ y) = x ^^^ y := by
  rw [Nat.xor_comm c x, Nat.xor_assoc, ← Nat.xor_assoc c c y, Nat.xor_self, Nat.zero_xor]

theorem crc32c_xor (data data' len : Nat) : crc32c data len ^^^ crc32c data' len =
    divide castagnoli (8 * len) ((data ^^^ data') % 2 ^ (8 * len)) := by
  rw [crc32c, crc32c, crc32cUpdate, crc32cUpdate, crc32cSw_eq, crc32cSw_eq,
    xor_xor_xor_cancel, ← divide_xor, xor_xor_xor_cancel, ← Nat.xor_mod_two_pow]

/-- What the manual says of the instruction: the update by the bits of its operand. -/
structure CrcUnit.Castagnoli (cpu : CrcUnit) : Prop where
  u64 : ∀ c v, c < 2 ^ 32 → v < 2 ^ 64 → cpu.u64 c v = serial castagnoli c (operandBits 64 v)
  u8 : ∀ c v, c < 2 ^ 32 → v < 2 ^ 8 → cpu.u8 c v = serial castagnoli c (operandBits 8 v)

variable {cpu : CrcUnit}

theorem CrcUnit.Castagnoli.tail (h : cpu.Castagnoli) {crc : Nat} (hc : crc < 2 ^ 32)
    (data len : Nat) : crc32cTail cpu crc data len = crc32cSw crc data len := by
  induction len generalizing crc data with
  | zero => rfl
  | succ len ih =>
    have hv : data % 2 ^ 8 < 2 ^ 8 := Nat.mod_lt _ (by decide)
    have hstep : cpu.u8 crc (data % 2 ^ 8) =
        (crc >>> 8) ^^^ kCrc32cTable ((crc ^^^ data) &&& 0xFF) := by
      rw [h.u8 _ _ hc hv, serial_operandBits _ hv, crc32cSw_step]
    rw [crc32cTail, hstep, crc32cSw]
    exact ih (crc32cSw_lt hc data 1) _

theorem CrcUnit.Castagnoli.loop (h : cpu.Castagnoli) {crc : Nat} (hc : crc < 2 ^ 32)
    (data len : Nat) : crc32cSse42 cpu crc data len = crc32cSw crc data len := by
  induction len using Nat.strongRecOn generalizing crc data with
  | ind len ih =>
    rw [crc32cSse42]
    split_ifs with hlen
    · have hv : data % 2 ^ 64 < 2 ^ 64 := Nat.mod_lt _ (by decide)
      have hstep : cpu.u64 crc (data % 2 ^ 64) = crc32cSw crc data 8 := by
        rw [h.u64 _ _ hc hv, serial_operandBits _ hv, crc32cSw_eq]
      have hlt := crc32cSw_lt hc data 8
      rw [hstep, Nat.mod_eq_of_lt hlt, ih _ (by omega) hlt, ← crc32cSw_add]
      congr 1
      omega
    · exact h.tail hc data len

theorem CrcUnit.Castagnoli.dispatch (h : cpu.Castagnoli) {crc : Nat} (hc : crc < 2 ^ 32)
    (data len : Nat) : crc32cDispatch cpu crc data len = crc32cUpdate crc data len := by
  rw [crc32cDispatch, crc32cUpdate]
  split_ifs
  · exact h.loop hc data len
  · rfl

theorem crc32c_paths_agree (cpu : CrcUnit) (h : cpu.Castagnoli) (c : UInt32) (a b : List UInt8) :
    crc32cSw c.toNat (Memory.ofBytes a) a.length = serial castagnoli c.toNat (byteBits a) ∧
      crc32cSse42 cpu c.toNat (Memory.ofBytes a) a.length =
        crc32cSw c.toNat (Memory.ofBytes a) a.length ∧
      crc32cDispatch cpu c.toNat (Memory.ofBytes (a ++ b)) (a ++ b).length =
        crc32cDispatch cpu (crc32cDispatch cpu c.toNat (Memory.ofBytes a) a.length)
          (Memory.ofBytes b) b.length := by
  have hc : c.toNat < 2 ^ 32 := c.toNat_lt
  have hmid := crc32cSw_lt hc (Memory.ofBytes a) a.length
  refine ⟨crc32cSw_serial c.toNat a, h.loop hc _ _, ?_⟩
  rw [h.dispatch hc, h.dispatch hc, crc32cUpdate, crc32cUpdate, h.dispatch hmid, crc32cUpdate,
    crc32cSw_serial, crc32cSw_serial, crc32cSw_serial, byteBits, List.flatMap_append,
    serial_append]
  rfl

/-- The instruction as the manual has it. -/
def serialUnit : CrcUnit where
  u64 c v := serial castagnoli c (operandBits 64 v)
  u8 c v := serial castagnoli c (operandBits 8 v)
  supported := true

theorem crc32c_paths_agree_serialUnit :
    crc32cSse42 serialUnit 0xFFFFFFFF (Memory.ofBytes [49, 50, 51, 52, 53, 54, 55, 56, 57]) 9 =
      crc32cSw 0xFFFFFFFF (Memory.ofBytes [49, 50, 51, 52, 53, 54, 55, 56, 57]) 9 :=
  (crc32c_paths_agree serialUnit ⟨fun _ _ _ _ => rfl, fun _ _ _ _ => rfl⟩ 0xFFFFFFFF
    [49, 50, 51, 52, 53, 54, 55, 56, 57] []).2.1

end Mars
