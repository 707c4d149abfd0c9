import MarsAllocator.Properties.Checksum
import MarsAllocator.Invariant.Sessions
import MarsAllocator.Properties.Binning
import MarsAllocator.Properties.Pointers
import Mathlib.Data.Finset.Card

namespace Mars

open ByteMemory StateProgram Tiling ReflectedCrc

set_option synthInstance.maxSize 100000

variable {P : Profile} {h : Heap} {s : Span} {b : Nat}

def headerWord (raw : Nat) : Nat := raw % 2 ^ 64

def headerCrc (raw : Nat) : Nat := (raw >>> 64) % 2 ^ 32

def headerPayloadCrc (raw : Nat) : Nat := (raw >>> 96) % 2 ^ 32

def headerSeals (raw index secret : Nat) : Prop :=
  headerCrc raw = hdrCrcOf (headerWord raw) (headerPayloadCrc raw) index secret

/-- What a change of the header makes of the comparison of its checksum. -/
def headerSyndrome (e : Nat) : Nat :=
  headerCrc e ^^^ divide castagnoli 256 (headerWord e + 2 ^ 64 * headerPayloadCrc e)

theorem headerWord_lt (raw : Nat) : headerWord raw < 2 ^ 64 := Nat.mod_lt _ (by decide)

theorem headerPayloadCrc_lt (raw : Nat) : headerPayloadCrc raw < 2 ^ 32 := Nat.mod_lt _ (by decide)

theorem headerWord_xor (x y : Nat) : headerWord (x ^^^ y) = headerWord x ^^^ headerWord y :=
  Nat.xor_mod_two_pow

theorem headerCrc_xor (x y : Nat) : headerCrc (x ^^^ y) = headerCrc x ^^^ headerCrc y := by
  rw [headerCrc, Nat.shiftRight_xor_distrib, Nat.xor_mod_two_pow]
  rfl

theorem headerPayloadCrc_xor (x y : Nat) :
    headerPayloadCrc (x ^^^ y) = headerPayloadCrc x ^^^ headerPayloadCrc y := by
  rw [headerPayloadCrc, Nat.shiftRight_xor_distrib, Nat.xor_mod_two_pow]
  rfl

theorem xor_middle (a b c d : Nat) : (a ^^^ b) ^^^ (c ^^^ d) = (a ^^^ c) ^^^ (b ^^^ d) := by
  ac_rfl

theorem fields_xor {w c w' c' : Nat} (hw : w < 2 ^ 64) (hw' : w' < 2 ^ 64) :
    (w + 2 ^ 64 * c) ^^^ (w' + 2 ^ 64 * c') = (w ^^^ w') + 2 ^ 64 * (c ^^^ c') := by
  rw [add_eq_xor c hw, add_eq_xor c' hw', add_eq_xor _ (Nat.xor_lt_two_pow hw hw'),
    Nat.shiftLeft_xor_distrib, xor_middle]

theorem linear_headerSyndrome : Linear headerSyndrome := by
  intro x y
  rw [headerSyndrome, headerCrc_xor, headerWord_xor, headerPayloadCrc_xor,
    ← fields_xor (headerWord_lt x) (headerWord_lt y), divide_xor, xor_middle]
  rfl

theorem hdrCrcOf_xor {w c w' c' : Nat} (index secret : Nat) (hw : w < 2 ^ 64) (hc : c < 2 ^ 32)
    (hw' : w' < 2 ^ 64) (hc' : c' < 2 ^ 32) :
    hdrCrcOf w c index secret ^^^ hdrCrcOf w' c' index secret =
      divide castagnoli 256 ((w ^^^ w') + 2 ^ 64 * (c ^^^ c')) := by
  have hsplit : ∀ w c : Nat, hdrFields w c index secret =
      (w + 2 ^ 64 * c) + 2 ^ 128 * (index + 2 ^ 64 * secret) := fun w c => by
    rw [hdrFields]
    omega
  have hlow : w + 2 ^ 64 * c < 2 ^ 128 := by omega
  have hlow' : w' + 2 ^ 64 * c' < 2 ^ 128 := by omega
  have hx : (w ^^^ w') + 2 ^ 64 * (c ^^^ c') < 2 ^ (8 * 32) := by
    have := Nat.xor_lt_two_pow hw hw'
    have := Nat.xor_lt_two_pow hc hc'
    omega
  rw [hdrCrcOf, hdrCrcOf, crc32c_xor, hsplit, hsplit, add_eq_xor _ hlow, add_eq_xor _ hlow',
    Nat.xor_comm (w + 2 ^ 64 * c), Nat.xor_comm (w' + 2 ^ 64 * c'), xor_xor_xor_cancel,
    fields_xor hw hw', Nat.mod_eq_of_lt hx]

/-- Two headers that both check out at one place differ by a codeword. -/
theorem headerSeals.syndrome {raw e index secret : Nat} (hk : headerSeals raw index secret)
    (hk' : headerSeals (raw ^^^ e) index secret) : headerSyndrome e = 0 := by
  have hcancel : ∀ f : Nat → Nat, (∀ x y, f (x ^^^ y) = f x ^^^ f y) →
      f raw ^^^ f (raw ^^^ e) = f e := fun f hf => by
    rw [hf, ← Nat.xor_assoc, Nat.xor_self, Nat.zero_xor]
  have hcrc := hdrCrcOf_xor index secret (headerWord_lt raw) (headerPayloadCrc_lt raw)
    (headerWord_lt (raw ^^^ e)) (headerPayloadCrc_lt (raw ^^^ e))
  rw [← hk, ← hk', hcancel _ headerCrc_xor, hcancel _ headerWord_xor,
    hcancel _ headerPayloadCrc_xor] at hcrc
  rw [headerSyndrome, ← hcrc, Nat.xor_self]

/-- The power of x that a bit of the header stands for: the checksum's own bits come last. -/
def headerPower (i : Nat) : Nat := if i < 64 then 287 - i else if i < 96 then 95 - i else 319 - i

theorem headerSyndrome_all : ∀ i ∈ List.range 128,
    headerSyndrome (2 ^ i) = divide castagnoli (headerPower i) (2 ^ 31) := by
  decide +kernel

theorem headerSyndrome_bit {i : Nat} (hi : i < 128) :
    headerSyndrome (2 ^ i) = divide castagnoli (headerPower i) (2 ^ 31) :=
  headerSyndrome_all i (List.mem_range.mpr hi)

theorem headerPower_inj {i j : Nat} (hi : i < 128) (hj : j < 128)
    (h : headerPower i = headerPower j) : i = j := by
  unfold headerPower at h
  split_ifs at h <;> omega

theorem headerPower_lt (i : Nat) : headerPower i < 320 := by
  unfold headerPower
  split_ifs <;> omega

/-- The taps are odd in number, so every power of x is. -/
theorem headerSyndrome_odd {i : Nat} (hi : i < 128) :
    parity 32 (headerSyndrome (2 ^ i)) = true := by
  rw [headerSyndrome_bit hi, parity_divide castagnoli_lt (by decide),
    parity_of_lt _ (by decide : 2 ^ 31 < 2 ^ 32)]
  decide

theorem headerSyndrome_ne {i j : Nat} (hi : i < 128) (hj : j < 128) (hij : i ≠ j) :
    headerSyndrome (2 ^ i) ≠ headerSyndrome (2 ^ j) := by
  have hne : headerPower i ≠ headerPower j := fun h => hij (headerPower_inj hi hj h)
  have hi' := headerPower_lt i
  have hj' := headerPower_lt j
  rw [headerSyndrome_bit hi, headerSyndrome_bit hj]
  rcases Nat.lt_or_gt_of_ne hne with hlt | hgt
  · exact (castagnoli_powers_ne hlt (by omega)).symm
  · exact castagnoli_powers_ne hgt (by omega)

def bitMask (flips : Finset Nat) : Nat := flips.fold (· ^^^ ·) 0 (2 ^ ·)

theorem bitMask_lt {flips : Finset Nat} {n : Nat} (hf : flips ⊆ Finset.range n) :
    bitMask flips < 2 ^ n := by
  induction flips using Finset.induction with
  | empty => exact Nat.two_pow_pos n
  | insert i flips hi ih =>
    rw [bitMask, Finset.fold_insert hi]
    have hlt := Finset.mem_range.mp (hf (Finset.mem_insert_self i flips))
    exact Nat.xor_lt_two_pow (Nat.pow_lt_pow_right (by decide) hlt)
      (ih ((Finset.subset_insert i flips).trans hf))

theorem headerSyndrome_bitMask {flips : Finset Nat} (hf : flips ⊆ Finset.range 128)
    (h₁ : 1 ≤ flips.card) (h₃ : flips.card ≤ 3) : headerSyndrome (bitMask flips) ≠ 0 := by
  have hlt : ∀ i ∈ flips, i < 128 := fun i hi => Finset.mem_range.mp (hf hi)
  intro hz
  have hodd := congrArg (parity 32) hz
  rw [parity_zero] at hodd
  rcases (by omega : flips.card = 1 ∨ flips.card = 2 ∨ flips.card = 3) with hc | hc | hc
  · obtain ⟨i, rfl⟩ := Finset.card_eq_one.mp hc
    have hi := hlt i (by simp)
    rw [bitMask, Finset.fold_singleton, Nat.xor_zero, headerSyndrome_odd hi] at hodd
    exact absurd hodd (by decide)
  · obtain ⟨i, j, hij, rfl⟩ := Finset.card_eq_two.mp hc
    have hi := hlt i (by simp)
    have hj := hlt j (by simp)
    rw [bitMask, Finset.fold_insert (by simpa using hij), Finset.fold_singleton, Nat.xor_zero,
      linear_headerSyndrome] at hz
    exact headerSyndrome_ne hi hj hij (Nat.xor_eq_zero_iff.mp hz)
  · obtain ⟨i, j, k, hij, hik, hjk, rfl⟩ := Finset.card_eq_three.mp hc
    have hi := hlt i (by simp)
    have hj := hlt j (by simp)
    have hk := hlt k (by simp)
    rw [bitMask, Finset.fold_insert (by simp [hij, hik]), Finset.fold_insert (by simpa using hjk),
      Finset.fold_singleton, Nat.xor_zero, linear_headerSyndrome, linear_headerSyndrome,
      parity_xor, parity_xor, headerSyndrome_odd hi, headerSyndrome_odd hj,
      headerSyndrome_odd hk] at hodd
    exact absurd hodd (by decide)

/-- The stored header of `b` with these bits changed. -/
def Heap.damageHeader (h : Heap) (b e : Nat) : Heap :=
  { h with mem := h.mem.store b 16 (h.mem.load b 16 ^^^ e) }

theorem word_eq_headerWord (h : Heap) (b : Nat) : h.word b = headerWord (h.mem.load b 16) := by
  rw [Heap.word, Memory.load_sub (le_refl b) (by omega : b + 8 ≤ b + 16), Nat.sub_self]
  rfl

theorem load_eq_headerCrc (m : Memory) (b : Nat) :
    m.load (b + 8) 4 = headerCrc (m.load b 16) := by
  rw [Memory.load_sub (by omega : b ≤ b + 8) (by omega : b + 8 + 4 ≤ b + 16), Nat.add_sub_cancel_left]
  rfl

theorem load_eq_headerPayloadCrc (m : Memory) (b : Nat) :
    m.load (b + 12) 4 = headerPayloadCrc (m.load b 16) := by
  rw [Memory.load_sub (by omega : b ≤ b + 12) (by omega : b + 12 + 4 ≤ b + 16),
    Nat.add_sub_cancel_left]
  rfl

theorem Heap.Sealed.seals (hq : h.Sealed P s b) (hcrc : P.hasCrc = true) :
    headerSeals (h.mem.load b 16) (indexIn s b) h.secret := by
  have hk := hq hcrc
  rwa [word_eq_headerWord, load_eq_headerCrc, load_eq_headerPayloadCrc] at hk

theorem headerOk_damaged (hcrc : P.hasCrc = true) (hk : h.HeaderOk P s b) {e : Nat}
    (he : e < 2 ^ 128) (hs : headerSyndrome e ≠ 0) :
    (headerOk P b (h.damageHeader b e)).1 = false := by
  by_contra hok
  obtain ⟨s', hk'⟩ := (headerOk_fst _ b).mp (Bool.eq_true_of_not_eq_false hok)
  obtain rfl : s' = s := Option.some.inj (hk'.span.symm.trans hk.span)
  have hseal := hk'.sealed.seals hcrc
  have hraw : (h.damageHeader b e).mem.load b 16 = h.mem.load b 16 ^^^ e :=
    (Memory.load_store_self _ _ _ _).trans
      (Nat.mod_eq_of_lt (Nat.xor_lt_two_pow (h.mem.load_lt b 16) he))
  rw [hraw] at hseal
  exact hs ((hk.sealed.seals hcrc).syndrome hseal)

theorem mmVerify_ok {ptr : Nat} (hok : (mmVerify P ptr h).1 = .ok) :
    (headerOk P (ptr - P.hdrSize) h).1 = true := by
  have hw : wp (mmVerify P ptr) (fun r _ => r = .ok → (headerOk P (ptr - P.hdrSize) h).1 = true) h := by
    refine wp_observe (refl_of Alike h) rfl fun h₁ h₁a => ?_
    refine wp_blockOf h₁a fun h₂ h₂a hnull => ?_
    have hb := blockOf_fst (P := P) ptr h
    rw [wp_ite]
    split
    · exact fun hst => absurd hst (hnull ‹_›)
    rename_i hne
    rcases hb with ⟨hb, -⟩ | ⟨hb, -⟩
    · exact absurd hb hne
    refine wp_observe h₂a rfl fun h₃ h₃a => ?_
    rw [wp_ite]
    split
    · exact fun hst => nomatch hst
    · rename_i hh
      refine wp_any fun _ _ => fun _ => ?_
      rw [← hb]
      simpa using hh
  exact hw hok

theorem mmCheckHeap_ok (hsh : h.Shaped) (hok : (mmCheckHeap P h).1 = .ok) {t : Span}
    (ht : t ∈ h.spans) {bs : List Nat} (hw : Tiles h.extent b t.lo bs) (hb : b < t.hi) :
    (headerOk P b h).1 = true := by
  rw [mmCheckHeap, fst_bind] at hok
  obtain ⟨blocks, hT, -⟩ := check_counts hsh hok
  have hmem := (hT.spans t ht).tiled.mem_of_reaches hw hb
  exact (headerOk_fst h b).mpr ⟨t, ((hT.spans t ht).stands b hmem).header⟩

theorem header_flips_seen (P : Profile) (hcrc : P.hasCrc = true) (h : Heap) (s : Span) (b : Nat)
    (hl : h.Legible P s b) (flips : Finset Nat) (hf : flips ⊆ Finset.range 128)
    (h₁ : 1 ≤ flips.card) (h₃ : flips.card ≤ 3) :
    let d := (sealHeader P b h).2.damageHeader b (bitMask flips)
    (headerOk P b d).1 = false ∧ (mmVerify P (payloadOf P b) d).1 ≠ .ok ∧
      (d.Shaped → ∀ t ∈ d.spans, ∀ bs, Tiles d.extent b t.lo bs → b < t.hi →
        (mmCheckHeap P d).1 ≠ .ok) := by
  intro d
  have hbad : (headerOk P b d).1 = false := headerOk_damaged hcrc (sealHeader_seals hl).1
    (bitMask_lt hf) (headerSyndrome_bitMask hf h₁ h₃)
  refine ⟨hbad, fun hok => ?_, fun hsh t ht bs hw hb hok => ?_⟩
  · have hgood := mmVerify_ok hok
    rw [payloadOf, Nat.add_sub_cancel, hbad] at hgood
    exact absurd hgood (by decide)
  · have hgood := mmCheckHeap_ok hsh hok ht hw hb
    rw [hbad] at hgood
    exact absurd hgood (by decide)

theorem legible_freshHeap :
    (freshHeap .hardened).Legible .hardened (Buffer.kilo .hardened).span 4096 :=
  ⟨by decide, by decide +kernel, by decide +kernel, by decide +kernel, by decide +kernel⟩

theorem header_flips_seen_freshHeap : (headerOk .hardened 4096
    ((sealHeader .hardened 4096 (freshHeap .hardened)).2.damageHeader 4096 (bitMask {3, 70}))).1 =
      false :=
  (header_flips_seen .hardened rfl (freshHeap .hardened) (Buffer.kilo .hardened).span 4096
    legible_freshHeap {3, 70} (by decide) (by decide) (by decide)).1

end Mars
