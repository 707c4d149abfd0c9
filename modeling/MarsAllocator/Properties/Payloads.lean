import MarsAllocator.Properties.Flips

namespace Mars

open ByteMemory StateProgram ReflectedCrc

set_option synthInstance.maxSize 100000

variable {P : Profile} {h : Heap} {b i : Nat}

theorem payloadCrcOf_ne {x y n : Nat} (h0 : crc32c x n ^^^ crc32c y n ≠ 0)
    (h1 : crc32c x n ^^^ crc32c y n ≠ 1) : payloadCrcOf x n ≠ payloadCrcOf y n := by
  unfold payloadCrcOf
  dsimp only
  split <;> split <;> intro heq
  · rename_i hx hy
    rw [hx, hy] at h0
    exact h0 rfl
  · rename_i hx hy
    rw [hx, ← heq] at h1
    exact h1 rfl
  · rename_i hx hy
    rw [hy, heq] at h1
    exact h1 rfl
  · rw [heq, Nat.xor_self] at h0
    exact h0 rfl

/-- The syndrome of one bit is a power of x, and below the order of the polynomial no power but
the first is the one that folding 0 onto 1 would hide. -/
theorem payloadCrcOf_flip {v n : Nat} (hn : n < 2 ^ 28) (hi : i < 8 * n) :
    payloadCrcOf (v ^^^ 2 ^ i) n ≠ payloadCrcOf v n := by
  have hlen : 8 * n = i + (8 * n - i) := by omega
  have hunit : (1 : Nat) = divide castagnoli 31 (2 ^ 31) := by decide
  have hpow : crc32c (v ^^^ 2 ^ i) n ^^^ crc32c v n =
      divide castagnoli (31 + (8 * n - i)) (2 ^ 31) := by
    have hdown := @divide_add castagnoli i (8 * n - i) (1 <<< i)
    rw [divide_shiftLeft, ← hlen, Nat.one_shiftLeft] at hdown
    have hcancel : (v ^^^ 2 ^ i) ^^^ v = 2 ^ i := by
      rw [Nat.xor_comm, ← Nat.xor_assoc, Nat.xor_self, Nat.zero_xor]
    rw [crc32c_xor, hcancel, Nat.mod_eq_of_lt (Nat.pow_lt_pow_right (by decide) hi), hdown,
      divide_add, ← hunit]
  refine payloadCrcOf_ne ?_ ?_
  · rw [hpow]
    intro hz
    exact absurd (eq_zero_of_divide castagnoli_high castagnoli_lt (by decide) hz) (by decide)
  · rw [hpow, hunit]
    exact castagnoli_powers_ne (by omega) (by omega)

theorem blockOf_value (ptr : Nat) (h : Heap) : (blockOf P ptr h).1 =
    if h.spans = [] then 0
    else match if ptr = 0 then none else h.spanOf ptr with
      | none => 0
      | some s =>
        if ptr < s.lo + P.hdrSize ∨ (ptr - (s.lo + P.hdrSize)) % alignment ≠ 0 then 0
        else if (isBlock P (ptr - P.hdrSize) h).1 then ptr - P.hdrSize else 0 := by
  have hread : Observes (Prog.read fun h : Heap => if ptr = 0 then none else h.spanOf ptr) :=
    observes_read fun _ _ _ _ _ => rfl
  have hlive : (arenaLive h).1 = !h.spans.isEmpty := rfl
  rw [blockOf, fst_bind, fst_ite, hlive]
  cases h.spans with
  | nil => rfl
  | cons =>
    rw [if_neg (by simp), if_neg (by simp), fst_bind, Prog.read_run]
    dsimp only
    rcases (if ptr = 0 then none else h.spanOf ptr) with _ | s
    · rfl
    · rw [Prog.elim_some, fst_ite, fst_bind, fst_bind, fst_ite]
      rfl

def Heap.requested (P : Profile) (h : Heap) (b : Nat) : Nat := requestedFrom P (h.word b)

def Heap.payload (P : Profile) (h : Heap) (b : Nat) : Nat :=
  h.mem.load (payloadOf P b) (h.requested P b)

/-- A live block that `mm_read` has nothing to say against but its payload. -/
structure Heap.Intact (P : Profile) (h : Heap) (b : Nat) : Prop where
  header : (headerOk P b h).1 = true
  used : wordUsed (h.word b) = true
  kept : wordQuarantined (h.word b) = false
  canary : (canaryOk P b h).1 = true

/-- The payload is covered by a checksum. -/
structure Heap.Checksummed (P : Profile) (h : Heap) (b : Nat) : Prop extends h.Intact P b where
  established : h.mem.load (b + 12) 4 = payloadCrcOf (h.payload P b) (h.requested P b)

def Heap.flipPayload (P : Profile) (h : Heap) (b i : Nat) : Heap :=
  { h with mem := h.mem.store (payloadOf P b) (h.requested P b) (h.payload P b ^^^ 2 ^ i) }

theorem blockIndex_congr {h' : Heap} (hr : h'.registry = h.registry) :
    (blockIndex b h').1 = (blockIndex b h).1 := by
  have hs : h'.spanOf b = h.spanOf b := by rw [Heap.spanOf, Heap.spanOf, hr]
  rw [blockIndex, withSpanOf, Prog.bind_run, Prog.bind_run, Prog.read_run, Prog.read_run, hs]
  cases h.spanOf b <;> rfl

theorem canaryOk_fst (hc : P.hasCanary = true) (h : Heap) (b : Nat) : (canaryOk P b h).1 =
    if !wordUsed (h.word b) || wordQuarantined (h.word b) then true
    else h.mem.load (payloadOf P b + requestedFrom P (h.word b)) 8 ==
      canaryValue (blockIndex b h).1 h.secret := by
  have hread : ∀ seen index, Observes (Prog.read fun h : Heap => seen == canaryValue index h.secret) :=
    fun _ _ => observes_read fun _ _ _ _ _ => rfl
  have hat : Observes (canaryAt P b) := by
    unfold canaryAt
    infer_instance
  rw [canaryOk, if_pos hc, fst_bind, fst_ite, fst_bind, fst_bind, fst_bind]
  rfl

theorem sameHeader_flipPayload : SameHeader P b h (h.flipPayload P b i) := by
  refine ⟨rfl, rfl, fun a n ha hn => Memory.load_store_of_disjoint (.inl ?_)⟩
  rw [payloadOf]
  omega

theorem requested_flipPayload : (h.flipPayload P b i).requested P b = h.requested P b := by
  rw [Heap.requested, sameHeader_flipPayload.word]
  rfl

theorem payload_flipPayload (hi : i < 8 * h.requested P b) :
    (h.flipPayload P b i).payload P b = h.payload P b ^^^ 2 ^ i := by
  rw [Heap.payload, requested_flipPayload]
  exact (Memory.load_store_self _ _ _ _).trans (Nat.mod_eq_of_lt (Nat.xor_lt_two_pow
    (h.mem.load_lt _ _) (Nat.pow_lt_pow_right (by decide) hi)))

theorem canaryOk_flipPayload : (canaryOk P b (h.flipPayload P b i)).1 = (canaryOk P b h).1 := by
  by_cases hc : P.hasCanary
  · have hcan : (h.flipPayload P b i).mem.load (payloadOf P b + requestedFrom P (h.word b)) 8 =
        h.mem.load (payloadOf P b + requestedFrom P (h.word b)) 8 :=
      Memory.load_store_of_disjoint (.inr (le_refl _))
    have hindex : (blockIndex b (h.flipPayload P b i)).1 = (blockIndex b h).1 :=
      blockIndex_congr sameHeader_flipPayload.registry
    have hsecret : (h.flipPayload P b i).secret = h.secret := rfl
    rw [canaryOk_fst hc, canaryOk_fst hc, sameHeader_flipPayload.word, hcan, hindex, hsecret]
  · rw [canaryOk, if_neg hc]
    rfl

theorem isBlock_flipPayload : (isBlock P b (h.flipPayload P b i)).1 = (isBlock P b h).1 := by
  rw [Bool.eq_iff_iff, isBlock_fst, isBlock_fst]
  exact ⟨fun ⟨s, hl⟩ => ⟨s, sameHeader_flipPayload.symm.legible hl⟩,
    fun ⟨s, hl⟩ => ⟨s, sameHeader_flipPayload.legible hl⟩⟩

theorem blockOf_flipPayload {ptr : Nat} (hp : (blockOf P ptr h).1 = b) (hb : b ≠ 0) :
    (blockOf P ptr (h.flipPayload P b i)).1 = b := by
  have hlook := (blockOf_fst ptr h).resolve_left fun h0 => hb (hp.symm.trans h0.1)
  have hptr : ptr - P.hdrSize = b := hlook.1.symm.trans hp
  rw [blockOf_value, hptr] at hp
  rw [blockOf_value, hptr, isBlock_flipPayload]
  exact hp

theorem Heap.Intact.flip (hb : h.Intact P b) : (h.flipPayload P b i).Intact P b := by
  obtain ⟨s, hk⟩ := (headerOk_fst h b).mp hb.header
  exact ⟨(headerOk_fst _ b).mpr ⟨s, sameHeader_flipPayload.headerOk hk⟩,
    sameHeader_flipPayload.word.symm ▸ hb.used, sameHeader_flipPayload.word.symm ▸ hb.kept,
    canaryOk_flipPayload.trans hb.canary⟩

theorem Heap.Checksummed.payloadOk_flip (hcrc : P.hasCrc = true) (hb : h.Checksummed P b) (hn : h.requested P b < 2 ^ 28)
    (hi : i < 8 * h.requested P b) : (payloadOk P b (h.flipPayload P b i)).1 = false := by
  have h16 := Profile.hdrSize_of_crc hcrc
  have hne := payloadCrcOf_flip (v := h.payload P b) hn hi
  have hcrc' : (h.flipPayload P b i).mem.load (b + 12) 4 = h.mem.load (b + 12) 4 :=
    sameHeader_flipPayload.load _ _ (by omega) (by omega)
  have hpay := payload_flipPayload hi
  have hreq : requestedFrom P ((h.flipPayload P b i).mem.load b 8) = h.requested P b :=
    requested_flipPayload
  rw [Heap.payload, requested_flipPayload] at hpay
  rw [payloadOk_fst, if_pos hcrc, hcrc', hb.established, if_neg (payloadCrcOf_ne_zero _ _), hreq,
    hpay]
  simpa using hne

theorem Heap.Intact.checkedBlock (hb : h.Intact P b) {h' : Heap} (ha : Alike h h')
    {ptr : Nat} (hp : (blockOf P ptr h).1 = b) (offset len : Nat) :
    wp (checkedBlock P ptr offset len) (fun b' h'' => (b' = 0 ∨ b' = b) ∧ Alike h h'') h' := by
  obtain ⟨s, hk⟩ := (headerOk_fst h b).mp hb.header
  refine wp_blockOf ha fun h₁ h₁a _ => ?_
  rw [hp, wp_ite, if_neg hk.ne_zero]
  refine wp_soundHeader h₁a hb.header fun h₂ h₂a => ?_
  rw [wp_ite, if_neg (by decide)]
  refine wp_observe h₂a hb.kept fun h₃ h₃a => ?_
  rw [if_neg (by decide)]
  refine wp_observe h₃a hb.used fun h₄ h₄a => ?_
  rw [wp_ite, if_neg (by decide)]
  refine wp_observe h₄a hb.canary fun h₅ h₅a => ?_
  rw [wp_ite, if_neg (by decide)]
  refine wp_observe h₅a rfl fun h₆ h₆a => ?_
  rw [wp_ite]
  split
  · exact ⟨.inl rfl, trans_of Alike h₆a (Respects.step h₆)⟩
  · exact ⟨.inr rfl, h₆a⟩

theorem Heap.Intact.read (hb : h.Intact P b) (hbad : (payloadOk P b h).1 = false)
    {ptr : Nat} (hp : (blockOf P ptr h).1 = b) (offset : Nat) (bufNull : Bool) (len : Nat) :
    (mmRead P ptr offset bufNull len h).1 = none := by
  have hw : wp (mmRead P ptr offset bufNull len) (fun r _ => r = none) h := by
    refine wp_observe (refl_of Alike h) rfl fun h₁ h₁a => ?_
    rw [wp_ite]
    split
    · exact rfl
    refine wp_seq (hb.checkedBlock h₁a hp offset len) fun b' h₂ ⟨hb', h₂a⟩ => ?_
    rw [wp_ite]
    split
    · exact rfl
    obtain rfl := hb'.resolve_left ‹_›
    refine wp_observe h₂a hbad fun h₃ h₃a => ?_
    rw [if_neg (by decide)]
    exact wp_any fun _ _ => wp_any fun _ _ => rfl
  exact hw

theorem Heap.Intact.verify (hb : h.Intact P b) (hbad : (payloadOk P b h).1 = false)
    {ptr : Nat} (hp : (blockOf P ptr h).1 = b) : (mmVerify P ptr h).1 = .corruptPayload := by
  obtain ⟨s, hk⟩ := (headerOk_fst h b).mp hb.header
  have hw : wp (mmVerify P ptr) (fun r _ => r = .corruptPayload) h := by
    refine wp_observe (refl_of Alike h) rfl fun h₁ h₁a => ?_
    refine wp_blockOf h₁a fun h₂ h₂a _ => ?_
    rw [hp, wp_ite, if_neg hk.ne_zero]
    refine wp_observe h₂a hb.header fun h₃ h₃a => ?_
    rw [wp_ite, if_neg (by decide)]
    refine wp_observe h₃a hb.kept fun h₄ h₄a => ?_
    rw [if_neg (by decide)]
    refine wp_observe h₄a hb.canary fun h₅ h₅a => ?_
    rw [wp_ite, if_neg (by decide), wp_bind_assoc]
    refine wp_observe h₅a hb.used fun h₆ h₆a => ?_
    rw [if_pos rfl]
    refine wp_observe h₆a hbad fun h₇ h₇a => ?_
    rw [wp_ite, if_pos (by decide)]
    exact rfl
  exact hw

theorem payload_flip_seen (P : Profile) (hcrc : P.hasCrc = true) (h : Heap) (b ptr i : Nat)
    (hb : h.Checksummed P b) (hp : (blockOf P ptr h).1 = b) (hn : h.requested P b < 2 ^ 28)
    (hi : i < 8 * h.requested P b) :
    payloadCrcOf ((h.flipPayload P b i).payload P b) (h.requested P b) ≠
        payloadCrcOf (h.payload P b) (h.requested P b) ∧
      (∀ offset bufNull len,
        (mmRead P ptr offset bufNull len (h.flipPayload P b i)).1 = none) ∧
      (mmVerify P ptr (h.flipPayload P b i)).1 = .corruptPayload := by
  have hbad := hb.payloadOk_flip hcrc hn hi
  obtain ⟨s, hk⟩ := (headerOk_fst h b).mp hb.header
  have hp' := blockOf_flipPayload (i := i) hp hk.ne_zero
  refine ⟨?_, hb.toIntact.flip.read hbad hp', hb.toIntact.flip.verify hbad hp'⟩
  rw [payload_flipPayload hi]
  exact payloadCrcOf_flip hn hi

def writtenHeap : Heap :=
  (mmWrite .hardened 4112 0 (.data [7, 9]) (mmMalloc .hardened 2 (freshHeap .hardened)).2).2

theorem checksummed_writtenHeap : writtenHeap.Checksummed .hardened 4096 :=
  ⟨⟨by decide +kernel, by decide +kernel, by decide +kernel, by decide +kernel⟩, by decide +kernel⟩

theorem payload_flip_seen_writtenHeap :
    (mmVerify .hardened 4112 (writtenHeap.flipPayload .hardened 4096 5)).1 = .corruptPayload :=
  (payload_flip_seen .hardened rfl writtenHeap 4096 4112 5 checksummed_writtenHeap
    (by decide +kernel) (by decide +kernel) (by decide +kernel)).2.2

end Mars
