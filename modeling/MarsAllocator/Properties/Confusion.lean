import MarsAllocator.Properties.Bookkeeping
import MarsAllocator.Properties.Flips
import Mathlib.Data.Nat.ModEq

namespace Mars

open ByteMemory StateProgram ReflectedCrc

variable {P : Profile} {h : Heap} {s t : Span} {b : Nat}

/-- The index is a field of the checksum no wider than its remainder. -/
theorem hdrCrcOf_index {w c i j secret : Nat} (hw : w < 2 ^ 64) (hc : c < 2 ^ 32)
    (hi : i < 2 ^ 32) (hj : j < 2 ^ 32) (heq : hdrCrcOf w c i secret = hdrCrcOf w c j secret) :
    i = j := by
  have hsplit : ∀ k, hdrFields w c k secret =
      ((w + 2 ^ 64 * c) + 2 ^ 128 * k) + 2 ^ 192 * secret := fun k => by
    rw [hdrFields]
  have hlow : w + 2 ^ 64 * c < 2 ^ 128 := by omega
  have hfields : ∀ k, k < 2 ^ 32 → (w + 2 ^ 64 * c) + 2 ^ 128 * k < 2 ^ 192 := fun k hk => by omega
  have hxor : i ^^^ j < 2 ^ 32 := Nat.xor_lt_two_pow hi hj
  have hlt : (i ^^^ j) <<< 128 < 2 ^ (8 * 32) := by
    rw [Nat.shiftLeft_eq]
    omega
  have hz := crc32c_xor (hdrFields w c i secret) (hdrFields w c j secret) 32
  rw [hdrCrcOf, hdrCrcOf] at heq
  rw [heq, Nat.xor_self, hsplit, hsplit, add_eq_xor _ (hfields i hi), add_eq_xor _ (hfields j hj),
    Nat.xor_comm _ (secret <<< 192), Nat.xor_comm _ (secret <<< 192), xor_xor_xor_cancel,
    add_eq_xor i hlow, add_eq_xor j hlow, xor_xor_xor_cancel, ← Nat.shiftLeft_xor_distrib,
    Nat.mod_eq_of_lt hlt] at hz
  have hdown : divide castagnoli (8 * 32) ((i ^^^ j) <<< 128) = divide castagnoli 128 (i ^^^ j) := by
    have hadd := @divide_add castagnoli 128 128 ((i ^^^ j) <<< 128)
    rwa [divide_shiftLeft] at hadd
  rw [hdown] at hz
  exact Nat.xor_eq_zero_iff.mp (eq_zero_of_divide castagnoli_high castagnoli_lt hxor hz.symm)

theorem headerSeals.index {raw i j secret : Nat} (hk : headerSeals raw i secret)
    (hk' : headerSeals raw j secret) (hi : i < 2 ^ 32) (hj : j < 2 ^ 32) : i = j :=
  hdrCrcOf_index (headerWord_lt raw) (headerPayloadCrc_lt raw) hi hj (hk.symm.trans hk')

/-- An odd factor loses nothing modulo a power of two. -/
theorem canaryValue_inj {i j secret : Nat} (hi : i < 2 ^ 64) (hj : j < 2 ^ 64)
    (heq : canaryValue i secret = canaryValue j secret) : i = j := by
  have hmod : i * 0x9E3779B97F4A7C15 ≡ j * 0x9E3779B97F4A7C15 [MOD 2 ^ 64] := by
    rw [canaryValue, canaryValue] at heq
    exact Nat.xor_right_injective heq
  have hcancel := Nat.ModEq.cancel_right_of_coprime (by decide) hmod
  rwa [Nat.ModEq, Nat.mod_eq_of_lt hi, Nat.mod_eq_of_lt hj] at hcancel

def Heap.copyHeader (h : Heap) (b b' : Nat) : Heap :=
  { h with mem := h.mem.store b' 16 (h.mem.load b 16) }

theorem headerOk_copied {b' : Nat} (hcrc : P.hasCrc = true) (hk : h.HeaderOk P s b)
    (hs : h.spanOf b' = some t) (hi : indexIn s b < 2 ^ 32) (hj : indexIn t b' < 2 ^ 32)
    (hne : indexIn s b ≠ indexIn t b') : (headerOk P b' (h.copyHeader b b')).1 = false := by
  by_contra hok
  obtain ⟨u, hk'⟩ := (headerOk_fst _ b').mp (Bool.eq_true_of_not_eq_false hok)
  obtain rfl : u = t := Option.some.inj (hk'.span.symm.trans hs)
  have hseal := hk'.sealed.seals hcrc
  have hraw : (h.copyHeader b b').mem.load b' 16 = h.mem.load b 16 :=
    (Memory.load_store_self _ _ _ _).trans (Nat.mod_eq_of_lt (h.mem.load_lt b 16))
  rw [hraw] at hseal
  exact hne ((hk.sealed.seals hcrc).index hseal hi hj)

theorem mirrorSays_eq_some {lo resync : Nat} {m : Mirror}
    (hm : (mirrorSays P s lo resync h).1 = some m) :
    m.raw = h.mem.load (resync - P.mirrorSize) P.hdrSize ∧
      m.start = resync - wordSize m.word ∧ P.minBlock ≤ wordSize m.word ∧
      wordSize m.word ≤ resync - lo ∧ (m.start - s.lo) % alignment = 0 ∧
      headerSeals m.raw (indexIn s m.start) h.secret := by
  rw [mirrorSays, Prog.ite_run] at hm
  split_ifs at hm with hc
  · change mirrorAt P s lo resync (h.mem.load (resync - P.mirrorSize) P.hdrSize) h.secret = _ at hm
    rw [mirrorAt] at hm
    split_ifs at hm with hsize hused halign hseal
    obtain rfl := Option.some.inj hm
    obtain ⟨hmin, hle⟩ := not_or.mp hsize
    exact ⟨rfl, rfl, Nat.le_of_not_lt hmin, Nat.le_of_not_lt hle, not_not.mp halign,
      not_not.mp hseal⟩

/-- A mirror sealed for the block at `b` is accepted for no other, whatever has become of the header
that it is there to replace. -/
theorem mirrorSays_place {lo resync : Nat} {m : Mirror} (hb : h.Booked) (hs : s ∈ h.spans)
    (hlo : s.lo ≤ lo) (hhi : resync ≤ s.hi) (hspan : h.spanOf b = some t)
    (hst : startOkIn P t b = true) (hm : (mirrorSays P s lo resync h).1 = some m)
    (hseal : headerSeals m.raw (indexIn t b) h.secret) (hi : indexIn t b < 2 ^ 32)
    (hj : indexIn s m.start < 2 ^ 32) : m.start = b := by
  have hp := P.sizes
  have hal : alignment = 16 := rfl
  obtain ⟨ht, htlo, hthi⟩ := hb.spanOf_iff.mp hspan
  obtain ⟨-, hstart, hmin, hle, halign, hseal'⟩ := mirrorSays_eq_some hm
  simp only [startOkIn, Bool.and_eq_true, beq_iff_eq, decide_eq_true_eq] at hst
  exact hb.place hs ht ⟨by omega, by omega, halign⟩ ⟨htlo, by omega, hst.1⟩ (hseal'.index hseal hj hi)

theorem block_confusion_seen :
    (∀ (P : Profile) (h : Heap) (s t : Span) (b b' : Nat), P.hasCrc = true → h.HeaderOk P s b →
      h.spanOf b' = some t → indexIn s b < 2 ^ 32 → indexIn t b' < 2 ^ 32 →
      indexIn s b ≠ indexIn t b' → (headerOk P b' (h.copyHeader b b')).1 = false) ∧
    (∀ i j secret : Nat, i < 2 ^ 32 → j < 2 ^ 32 → i ≠ j →
      canaryValue i secret ≠ canaryValue j secret) ∧
    ∀ (h : Heap) (s t : Span) (b lo resync : Nat) (m : Mirror), Weathered .paranoid h →
      s ∈ h.spans → s.lo ≤ lo → resync ≤ s.hi → h.spanOf b = some t →
      startOkIn .paranoid t b = true → (mirrorSays .paranoid s lo resync h).1 = some m →
      headerSeals m.raw (indexIn t b) h.secret → indexIn t b < 2 ^ 32 →
      indexIn s m.start < 2 ^ 32 → m.start = b := by
  refine ⟨fun P h s t b b' hcrc hk hs hi hj hne => headerOk_copied hcrc hk hs hi hj hne,
    fun i j secret hi hj hne heq => ?_,
    fun h s t b lo resync m hr hs hlo hhi hspan hst hm hseal hi hj =>
      mirrorSays_place hr.booked hs hlo hhi hspan hst hm hseal hi hj⟩
  exact hne (canaryValue_inj (by omega) (by omega) heq)

def hundredHeap : Heap :=
  ((Call.malloc 100).run .paranoid { (mmInit .paranoid (4096 : UInt64).toNat (1024 : UInt64).toNat
    (1 : UInt64).toNat (Heap.blank ⟨0⟩)).2 with supply := [] }).2

theorem hundred_weathered : Weathered .paranoid hundredHeap :=
  .called (.init (.blank ⟨0⟩) 4096 1024 1) (.malloc 100) [] (Heap.stocked_nil rfl)

/-- The header word of the block has been wiped. -/
def mirroredHeap : Heap := { hundredHeap with mem := hundredHeap.mem.store 4096 8 0 }

theorem mirrored_weathered : Weathered .paranoid mirroredHeap :=
  .damaged hundred_weathered (hundredHeap.mem.store 4096 8 0)

theorem headerOk_freshHeap :
    (freshHeap .hardened).HeaderOk .hardened (Buffer.kilo .hardened).span 4096 :=
  ⟨legible_freshHeap, fun _ => by decide +kernel⟩

theorem block_confusion_seen_kilo :
    (headerOk .hardened 4112 ((freshHeap .hardened).copyHeader 4096 4112)).1 = false ∧
      canaryValue 0 5 ≠ canaryValue 1 5 ∧ (headerOk .paranoid 4096 mirroredHeap).1 = false ∧
      ((mirrorSays .paranoid (Buffer.kilo .paranoid).span 4096 4240 mirroredHeap).1.map
        Mirror.start) = some 4096 := by
  refine ⟨block_confusion_seen.1 .hardened (freshHeap .hardened) (Buffer.kilo .hardened).span
    (Buffer.kilo .hardened).span 4096 4112 rfl headerOk_freshHeap (by decide +kernel) (by decide)
    (by decide) (by decide), block_confusion_seen.2.1 0 1 5 (by decide) (by decide) (by decide),
    by decide +kernel, ?_⟩
  have hsome : (mirrorSays .paranoid (Buffer.kilo .paranoid).span 4096 4240 mirroredHeap).1.isSome =
      true := by
    decide +kernel
  obtain ⟨m, hm⟩ := Option.isSome_iff_exists.mp hsome
  have hseal : headerSeals (mirroredHeap.mem.load 4224 16) 0 mirroredHeap.secret := by
    rw [headerSeals]
    decide +kernel
  have hraw := (mirrorSays_eq_some hm).1
  have hindex : indexIn (Buffer.kilo .paranoid).span m.start < 2 ^ 32 := by
    obtain ⟨-, hstart, -⟩ := mirrorSays_eq_some hm
    have hbase : (Buffer.kilo .paranoid).span.indexBase = 0 := rfl
    have hal : alignment = 16 := rfl
    rw [indexIn, hbase, hal]
    omega
  rw [hm, Option.map_some, block_confusion_seen.2.2 mirroredHeap (Buffer.kilo .paranoid).span
    (Buffer.kilo .paranoid).span 4096 4096 4240 m mirrored_weathered (by decide +kernel) (by decide)
    (by decide) (by decide +kernel) (by decide) hm (hraw ▸ hseal) (by decide) hindex]

end Mars
