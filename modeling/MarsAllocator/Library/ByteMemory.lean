import Mathlib.Data.Nat.Bitwise
import Mathlib.Tactic.Ring

namespace ByteMemory

/-- Byte-addressed memory. Address `a` is the `a`-th base-256 digit, so every address reads as a
byte and a closed run of a program evaluates on big numbers. -/
structure Memory where
  bits : Nat
  deriving DecidableEq

namespace Memory

def load (m : Memory) (a n : Nat) : Nat := (m.bits >>> (8 * a)) % (1 <<< (8 * n))

def store (m : Memory) (a n v : Nat) : Memory :=
  ⟨m.bits ^^^ ((m.load a n ^^^ v % (1 <<< (8 * n))) <<< (8 * a))⟩

def byte (m : Memory) (a : Nat) : Nat := m.load a 1

theorem load_lt (m : Memory) (a n : Nat) : m.load a n < 2 ^ (8 * n) := by
  rw [load, Nat.one_shiftLeft]
  exact Nat.mod_lt _ (Nat.two_pow_pos _)

theorem testBit_load (m : Memory) (a n i : Nat) :
    (m.load a n).testBit i = (decide (i < 8 * n) && m.bits.testBit (8 * a + i)) := by
  simp [load, Nat.one_shiftLeft, Nat.testBit_mod_two_pow, Nat.testBit_shiftRight]

theorem testBit_store (m : Memory) (a n v i : Nat) :
    (m.store a n v).bits.testBit i =
      if 8 * a ≤ i ∧ i < 8 * a + 8 * n then v.testBit (i - 8 * a) else m.bits.testBit i := by
  simp only [store, Nat.one_shiftLeft, Nat.testBit_xor, Nat.testBit_shiftLeft, testBit_load,
    Nat.testBit_mod_two_pow]
  by_cases h₁ : 8 * a ≤ i
  · have hi : 8 * a + (i - 8 * a) = i := by omega
    by_cases h₂ : i < 8 * a + 8 * n
    · have h₃ : i - 8 * a < 8 * n := by omega
      simp [h₁, h₂, h₃, hi]
    · have h₃ : ¬ i - 8 * a < 8 * n := by omega
      simp [h₂, h₃]
  · simp [h₁]

theorem testBit_byte (m : Memory) (a i : Nat) :
    (m.byte a).testBit i = (decide (i < 8) && m.bits.testBit (8 * a + i)) := by
  simpa [byte] using testBit_load m a 1 i

theorem bits_testBit (m : Memory) (i : Nat) :
    m.bits.testBit i = (m.byte (i / 8)).testBit (i % 8) := by
  have h : 8 * (i / 8) + i % 8 = i := Nat.div_add_mod i 8
  simp [testBit_byte, h, Nat.mod_lt]

theorem ext_byte {m m' : Memory} (h : ∀ a, m.byte a = m'.byte a) : m = m' := by
  obtain ⟨b⟩ := m
  obtain ⟨b'⟩ := m'
  congr 1
  refine Nat.eq_of_testBit_eq fun i => ?_
  have hi := bits_testBit ⟨b⟩ i
  rw [h, ← bits_testBit ⟨b'⟩ i] at hi
  exact hi

theorem load_congr {m m' : Memory} {a n : Nat}
    (h : ∀ x, a ≤ x → x < a + n → m.byte x = m'.byte x) : m.load a n = m'.load a n := by
  refine Nat.eq_of_testBit_eq fun i => ?_
  simp only [testBit_load]
  by_cases hi : i < 8 * n
  · have hx := h ((8 * a + i) / 8) (by omega) (by omega)
    simp [hi, bits_testBit, hx]
  · simp [hi]

theorem byte_store_of_notMem {m : Memory} {a n v x : Nat} (h : x < a ∨ a + n ≤ x) :
    (m.store a n v).byte x = m.byte x := by
  refine Nat.eq_of_testBit_eq fun i => ?_
  simp only [testBit_byte, testBit_store]
  by_cases hi : i < 8
  · rw [if_neg (by omega)]
  · simp [hi]

theorem load_store_self (m : Memory) (a n v : Nat) :
    (m.store a n v).load a n = v % 2 ^ (8 * n) := by
  refine Nat.eq_of_testBit_eq fun i => ?_
  simp only [testBit_load, testBit_store, Nat.testBit_mod_two_pow]
  by_cases hi : i < 8 * n
  · rw [if_pos (by omega)]
    simp
  · simp [hi]

theorem load_store_of_disjoint {m : Memory} {a n v b k : Nat} (h : b + k ≤ a ∨ a + n ≤ b) :
    (m.store a n v).load b k = m.load b k :=
  load_congr fun _ _ _ => byte_store_of_notMem (by omega)

theorem load_sub {m : Memory} {a n b k : Nat} (h₁ : a ≤ b) (h₂ : b + k ≤ a + n) :
    m.load b k = (m.load a n >>> (8 * (b - a))) % 2 ^ (8 * k) := by
  refine Nat.eq_of_testBit_eq fun i => ?_
  simp only [testBit_load, Nat.testBit_mod_two_pow, Nat.testBit_shiftRight]
  by_cases hi : i < 8 * k
  · simp only [hi, decide_true, Bool.true_and, show 8 * (b - a) + i < 8 * n by omega,
      show 8 * a + (8 * (b - a) + i) = 8 * b + i by omega]
  · simp [hi]

theorem load_sub_eq {m m' : Memory} {a a' n k : Nat} (h : m.load a n = m'.load a' n)
    {i : Nat} (hi : i + k ≤ n) : m.load (a + i) k = m'.load (a' + i) k := by
  rw [load_sub (a := a) (n := n) (by omega) (by omega),
    load_sub (m := m') (a := a') (n := n) (by omega) (by omega), h]
  simp

/-- `m'` differs from `m` on `[x, y)` at most. -/
def AgreeOff (m m' : Memory) (x y : Nat) : Prop := ∀ a, a < x ∨ y ≤ a → m'.byte a = m.byte a

theorem AgreeOff.refl (m : Memory) (x y : Nat) : AgreeOff m m x y := fun _ _ => rfl

theorem AgreeOff.trans {m₁ m₂ m₃ : Memory} {x y : Nat} (h : AgreeOff m₁ m₂ x y)
    (h' : AgreeOff m₂ m₃ x y) : AgreeOff m₁ m₃ x y := fun a ha => (h' a ha).trans (h a ha)

theorem AgreeOff.mono {m m' : Memory} {x y x' y' : Nat} (h : AgreeOff m m' x y) (hx : x' ≤ x)
    (hy : y ≤ y') : AgreeOff m m' x' y' := fun a ha => h a (by omega)

theorem AgreeOff.load {m m' : Memory} {x y a n : Nat} (h : AgreeOff m m' x y)
    (ha : a + n ≤ x ∨ y ≤ a) : m'.load a n = m.load a n :=
  load_congr fun b _ _ => h b (by omega)

theorem agreeOff_store (m : Memory) (a n v : Nat) : AgreeOff m (m.store a n v) a (a + n) :=
  fun _ h => byte_store_of_notMem h

theorem AgreeOff.store {m m' : Memory} {x y a n v : Nat} (h : AgreeOff m m' x y) (hx : x ≤ a)
    (hy : a + n ≤ y) : AgreeOff m (m'.store a n v) x y :=
  h.trans ((agreeOff_store m' a n v).mono hx hy)

def toBytes (v : Nat) : Nat → List UInt8
  | 0 => []
  | n + 1 => UInt8.ofNat (v % 256) :: toBytes (v / 256) n

def ofBytes : List UInt8 → Nat
  | [] => 0
  | b :: bs => b.toNat + 256 * ofBytes bs

@[simp] theorem length_toBytes (v n : Nat) : (toBytes v n).length = n := by
  induction n generalizing v with
  | zero => rfl
  | succ n ih => simp [toBytes, ih]

theorem ofBytes_lt (bs : List UInt8) : ofBytes bs < 2 ^ (8 * bs.length) := by
  induction bs with
  | nil => simp [ofBytes]
  | cons b bs ih =>
    have hb : b.toNat < 256 := b.toNat_lt
    have h : 2 ^ (8 * (b :: bs).length) = 256 * 2 ^ (8 * bs.length) := by
      rw [List.length_cons, Nat.mul_succ, Nat.pow_add]
      omega
    rw [ofBytes, h]
    omega

theorem ofBytes_toBytes (v n : Nat) : ofBytes (toBytes v n) = v % 2 ^ (8 * n) := by
  induction n generalizing v with
  | zero => simp [ofBytes, toBytes, Nat.mod_one]
  | succ n ih =>
    have h : 2 ^ (8 * (n + 1)) = 256 * 2 ^ (8 * n) := by
      rw [Nat.mul_succ, Nat.pow_add]
      omega
    rw [toBytes, ofBytes, ih, h, Nat.mod_mul]
    simp

theorem toBytes_ofBytes (bs : List UInt8) : toBytes (ofBytes bs) bs.length = bs := by
  induction bs with
  | nil => rfl
  | cons b bs ih =>
    have hb : b.toNat < 256 := b.toNat_lt
    have h₁ : (b.toNat + 256 * ofBytes bs) % 256 = b.toNat := by omega
    have h₂ : (b.toNat + 256 * ofBytes bs) / 256 = ofBytes bs := by omega
    simp [ofBytes, toBytes, h₁, h₂, ih]

def bytes (m : Memory) (a n : Nat) : List UInt8 := toBytes (m.load a n) n

def storeBytes (m : Memory) (a : Nat) (bs : List UInt8) : Memory :=
  m.store a bs.length (ofBytes bs)

@[simp] theorem length_bytes (m : Memory) (a n : Nat) : (m.bytes a n).length = n :=
  length_toBytes _ _

theorem ofBytes_bytes (m : Memory) (a n : Nat) : ofBytes (m.bytes a n) = m.load a n := by
  rw [bytes, ofBytes_toBytes, Nat.mod_eq_of_lt (m.load_lt a n)]

theorem bytes_eq_iff {m m' : Memory} {a a' n : Nat} :
    m.bytes a n = m'.bytes a' n ↔ m.load a n = m'.load a' n := by
  refine ⟨fun h => ?_, fun h => by rw [bytes, bytes, h]⟩
  rw [← ofBytes_bytes, h, ofBytes_bytes]

theorem bytes_storeBytes (m : Memory) (a : Nat) (bs : List UInt8) :
    (m.storeBytes a bs).bytes a bs.length = bs := by
  rw [bytes, storeBytes, load_store_self, Nat.mod_eq_of_lt (ofBytes_lt bs), toBytes_ofBytes]

theorem getElem_toBytes (v n i : Nat) (h : i < (toBytes v n).length) :
    (toBytes v n)[i] = UInt8.ofNat ((v >>> (8 * i)) % 256) := by
  induction n generalizing v i with
  | zero => simp [toBytes] at h
  | succ n ih =>
    cases i with
    | zero => simp [toBytes]
    | succ i =>
      have hs : v >>> (8 * (i + 1)) = (v / 256) >>> (8 * i) := by
        rw [Nat.mul_succ, Nat.add_comm, Nat.shiftRight_add, Nat.shiftRight_eq_div_pow v 8]
      simp only [toBytes, List.getElem_cons_succ, ih, hs]

theorem getElem_bytes (m : Memory) (a n i : Nat) (h : i < (m.bytes a n).length) :
    (m.bytes a n)[i] = UInt8.ofNat (m.byte (a + i)) := by
  have hi : i < n := by simpa using h
  have hb : m.byte (a + i) = (m.load a n >>> (8 * i)) % 256 := by
    rw [byte, load_sub (a := a) (n := n) (by omega) (by omega)]
    simp
  rw [hb]
  exact getElem_toBytes _ _ _ _

theorem take_bytes (m : Memory) {a n k : Nat} (h : k ≤ n) :
    (m.bytes a n).take k = m.bytes a k := by
  refine List.ext_getElem (by simp [h]) fun i _ _ => ?_
  rw [List.getElem_take, getElem_bytes, getElem_bytes]

theorem drop_bytes (m : Memory) (a n k : Nat) :
    (m.bytes a n).drop k = m.bytes (a + k) (n - k) := by
  refine List.ext_getElem (by simp) fun i _ _ => ?_
  rw [List.getElem_drop, getElem_bytes, getElem_bytes, Nat.add_assoc]

theorem bytes_eq_replicate {m : Memory} {a n : Nat} (h : ∀ i < n, m.byte (a + i) = 0) :
    m.bytes a n = List.replicate n 0 := by
  refine List.ext_getElem (by simp) fun i hi _ => ?_
  rw [length_bytes] at hi
  rw [getElem_bytes, h i hi, List.getElem_replicate]
  rfl

theorem bytes_storeBytes_within (m : Memory) {a n o : Nat} {bs : List UInt8}
    (h : o + bs.length ≤ n) :
    (m.storeBytes (a + o) bs).bytes a n =
      (m.bytes a n).take o ++ bs ++ (m.bytes a n).drop (o + bs.length) := by
  have hsplit : ∀ m' : Memory, m'.bytes a n =
      m'.bytes a o ++ m'.bytes (a + o) bs.length ++ m'.bytes (a + (o + bs.length))
        (n - (o + bs.length)) := by
    intro m'
    have h₁ := List.take_append_drop (o + bs.length) (m'.bytes a n)
    have h₂ := List.take_append_drop o (m'.bytes a (o + bs.length))
    rw [take_bytes _ (by omega), drop_bytes] at h₁ h₂
    rw [← h₁, ← h₂, show o + bs.length - o = bs.length by omega]
  rw [hsplit, take_bytes _ (by omega), drop_bytes, bytes_storeBytes]
  congr 1
  · congr 1
    exact bytes_eq_iff.mpr (load_store_of_disjoint (by omega))
  · exact bytes_eq_iff.mpr (load_store_of_disjoint (by omega))

end Memory

end ByteMemory
