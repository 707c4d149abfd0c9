import MarsAllocator.Invariant.Moved

namespace Mars

open ByteMemory StateProgram

variable {P : Profile} {h h' h₁ : Heap} {s : Span} {a b n : Nat} {c : Cell}
  {L L' : Span → List Cell} {pre post : List Cell} {X : Nat → Prop} {off len : Nat} {bufNull : Bool}

def Cell.surrendered (c : Cell) : Cell := ⟨c.size, 0, 0, .lost⟩

theorem Cell.Fits.surrendered (hf : c.Fits P) : c.surrendered.Fits P :=
  ⟨hf.dvd, hf.min_le, hf.lt, Nat.zero_lt_succ _, nofun, nofun⟩

def lostBytes (cs : List Cell) : Nat := extents (cs.filter fun c => c.kind = .lost)

@[simp] theorem lostBytes_append {cs ds : List Cell} :
    lostBytes (cs ++ ds) = lostBytes cs + lostBytes ds := by
  rw [lostBytes, List.filter_append, extents_append]
  rfl

theorem lostBytes_one (c : Cell) : lostBytes [c] = if c.kind = .lost then c.size else 0 := by
  rw [lostBytes, List.filter_singleton]
  by_cases hk : c.kind = .lost
  · rw [decide_eq_true hk, if_pos hk]
    exact extents_one c
  · rw [decide_eq_false hk, if_neg hk]
    rfl

theorem lostBytes_cons (c : Cell) (cs : List Cell) :
    lostBytes (c :: cs) = (if c.kind = .lost then c.size else 0) + lostBytes cs := by
  rw [← List.singleton_append, lostBytes_append, lostBytes_one]

/-- The block of the cell `c` at `b` has been given up. -/
structure Heap.Surrendered (P : Profile) (s : Span) (b : Nat) (c : Cell) (h : Heap)
    (L : Span → List Cell) (h' : Heap) (L' : Span → List Cell) : Prop
    extends h.Outcome P (· = b) L h' L' where
  served : { h with lostBytes := h.lostBytes + c.size }.Served h'
  cell : h'.CellIn L' s b c.surrendered
  others : ∀ t, t ≠ s → L' t = L t
  lost : Mars.lostBytes (L' s) = Mars.lostBytes (L s) + c.size
  counts : h'.stats.standing = h.stats.standing

theorem Heap.Sound.run_quarantine (hS : h.Sound P L) (hset : h.Settled L) (hc : h.CellIn L s b c)
    (hk : c.kind = .live) :
    ∃ h' L', quarantine P b h = ((), h') ∧ h.Surrendered P s b c L h' L' ∧
      h'.lastError = .quarantined := by
  have hu : c.used = true := Cell.used_of_ne (by rw [hk]; decide)
  have hq : c.quarantined = false := by rw [Cell.quarantined, hk]; rfl
  have hp := P.sizes
  obtain ⟨pre, post, hL, hb⟩ := hc.split
  obtain ⟨v, -, hh⟩ := hS.tiled.cell hc
  have ho := hS.open hc.1 hL hb hu hq
  obtain ⟨d, hd⟩ : ∃ d, d = c.surrendered := ⟨_, rfl⟩
  have hfit : d.Fits P := hd ▸ hh.fits.surrendered
  have hmin := hfit.min_le
  have hsize : d.size = c.size := by rw [hd]; rfl
  have hslack : d.slack = 0 := by rw [hd]; rfl
  have hcrc : d.crc = 0 := by rw [hd]; rfl
  have hkind : d.kind = .lost := by rw [hd]; rfl
  have hdu : d.used = true := Cell.used_of_ne (by rw [hkind]; decide)
  have hdq : d.quarantined = true := by rw [Cell.quarantined, hkind]; rfl
  have hset₁ : setWord b c.size 0 true true h =
      ((), h.withMem (h.mem.store b 8 (d.word (lastUsed true pre)))) := by
    have hrun := run_setWord_cell ho.writ.covers8 ho.writ.prevInUse_eq hfit
    rw [hsize, hslack, hdu, hdq] at hrun
    exact hrun
  obtain ⟨m₁, hm₁⟩ : ∃ m₁, m₁ = h.mem.store b 8 (d.word (lastUsed true pre)) := ⟨_, rfl⟩
  rw [← hm₁] at hset₁
  have hsame₁ : ∀ a, a < b ∨ b + P.hdrSize ≤ a → m₁.byte a = h.mem.byte a := fun a ha => by
    rw [hm₁]
    exact Memory.byte_store_of_notMem (by omega)
  have hcov : (h.withMem m₁).Covers b P.hdrSize := hh.covers_head.withMem m₁
  obtain ⟨m₂, hrun₂, hset₂⟩ := Mars.run_setPayloadCrc hcov (v := 0) (Nat.two_pow_pos 32)
  have hin : ∀ a, a < b ∨ b + c.opened.size ≤ a → m₂.byte a = h.mem.byte a := fun a ha => by
    have hsz : c.opened.size = c.size := rfl
    exact (hset₂.same a (by omega)).trans (hsame₁ a (by omega))
  have hclear := ho.toClear.inside hin
  have hw₂ : (h.withMem m₂).Writ P s b (lastUsed true pre) d := by
    refine ⟨?_, hfit, hset₂.word.trans ?_⟩
    · rw [hsize]
      exact hh.room.withMem m₂
    · rw [Heap.withMem_mem, hm₁, load_word hfit]
  obtain ⟨m₃, hrun₃, hsound, hspares, -⟩ := hclear.run_settle hw₂ hsize
    (fun hc => (hset₂.crc hc).trans hcrc.symm) (fun _ hl => absurd (hkind.symm.trans hl) (by decide)) hdu
  rw [Function.update_idem] at hsound
  obtain ⟨L', hL'⟩ : ∃ L', L' = Function.update L s (pre ++ [d] ++ post) := ⟨_, rfl⟩
  have hself : L' s = pre ++ [d] ++ post := by rw [hL', Function.update_self]
  have hsp : h.Spares P (· = b) L ((h.withMem m₂).withMem m₃) L' := by
    have h₁ : h.Spares P (· = b) L h (Function.update L s (pre ++ [c.opened] ++ post)) :=
      hS.tiled.plan.spares_recell hc.1 hL hb rfl rfl rfl fun a _ => rfl
    have h₂ := ho.toClear.spares_inside (h.kin_withMem m₂).spans hin (X := (· = b)) rfl
    have h₃ := hspares (· = b) rfl
    rw [Function.update_idem] at h₃
    exact hL' ▸ h₁.trans (h₂.trans h₃)
  rw [← hL'] at hsound
  obtain ⟨h₄, hh₄⟩ : ∃ h₄ : Heap, h₄ = (fail .quarantined (statNote .quarantine c.size (addLost c.size
    ((h.withMem m₂).withMem m₃)).2).2).2 := ⟨_, rfl⟩
  have hcell : h₄.CellIn L' s b d := by
    rw [hh₄]
    exact Heap.cellIn_of_eq hc.1 hself hb
  have heq : h₄ = { h with
      mem := m₃, lostBytes := h.lostBytes + c.size, stats := h₄.stats,
      lastError := .quarantined, raised := h₄.raised } := by
    rw [hh₄]
    rfl
  have hsp₄ : h.Spares P (· = b) L h₄ L' := hsp.congr (by rw [heq]; rfl) (by rw [heq]; rfl)
  have hS₄ : h₄.Sound P L' := by
    refine hsound.same ⟨?_, ?_, ?_⟩ ?_ ?_ ?_ (hsound.cursor.congr ?_ ?_ ?_) <;>
    · rw [heq]
      rfl
  refine ⟨h₄, L', ?_, ⟨⟨hS₄, hset.put hsp₄ hS₄ hcell (by rw [hkind]; decide), hsp₄⟩, ?_, hd ▸ hcell,
    fun t ht => by rw [hL', Function.update_of_ne ht], ?_, ?_⟩, ?_⟩
  · have hpub : publish P b (h.withMem m₂) = (true, (h.withMem m₂).withMem m₃) := hrun₃
    rw [quarantine, Prog.bind_run_of_eq hh.run_isBlockStart, if_pos rfl,
      Prog.bind_run_of_eq hh.run_headerOk, if_pos rfl, Prog.bind_run_of_eq hh.run_isQuarantined, hq,
      if_neg (by decide), Prog.bind_run_of_eq hh.run_blockSize, Prog.bind_run_of_eq hh.run_isUsed, hu,
      if_pos rfl, Prog.bind_run, Prog.pure_run, if_pos rfl, Prog.bind_run_of_eq hset₁]
    change (setPayloadCrc P b 0 >>= _) (h.withMem m₁) = _
    rw [Prog.bind_run_of_eq hrun₂]
    change (publish P b >>= _) (h.withMem m₂) = _
    rw [Prog.bind_run_of_eq hpub, if_pos rfl, hh₄]
    rfl
  · refine ⟨?_⟩
    rw [heq]
  · rw [hself, hL, lostBytes_append, lostBytes_append, lostBytes_append, lostBytes_append,
      lostBytes_one, lostBytes_one, if_pos hkind, if_neg (by rw [hk]; decide)]
    omega
  · rw [hh₄]
    rfl
  · rw [heq]

theorem Heap.Sound.run_checkedBlock (hS : h.Sound P L) (hc : h.CellIn L s b c) (hk : c.kind = .live)
    (off len : Nat) : checkedBlock P (b + P.hdrSize) off len h =
      if off + len ≤ c.requested P then (b, h) else (0, (fail .oob h).2) := by
  have hu : c.used = true := Cell.used_of_ne (by rw [hk]; decide)
  have hq : c.quarantined = false := by rw [Cell.quarantined, hk]; rfl
  obtain ⟨v, hcell, hh⟩ := hS.tiled.cell hc
  have hb : b ≠ 0 := by
    have := hh.room.lo_pos
    have := hh.room.lo_le
    omega
  have hsound : (do if ← headerOk P b then pure true else rescue P b) h = (true, h) := by
    rw [Prog.bind_run_of_eq hh.run_headerOk]
    rfl
  rw [checkedBlock, Prog.bind_run_of_eq (hS.run_blockOf hc), if_neg hb, Prog.bind_run_of_eq hsound,
    if_neg (by decide), Prog.bind_run_of_eq hh.run_isQuarantined, hq, if_neg (by decide),
    Prog.bind_run_of_eq hh.run_isUsed, hu, if_neg (by decide),
    Prog.bind_run_of_eq (run_canaryOk hcell hh.room hh.fits (by rw [hk]; decide)), if_neg (by decide),
    Prog.bind_run_of_eq (hh.run_requestedSize hk), Prog.ite_run]
  by_cases hin : off + len ≤ c.requested P
  · rw [if_neg (by omega), if_pos hin]
    rfl
  · rw [if_pos (by omega), if_neg hin]
    rfl

theorem Heap.Sound.run_mmRead (hS : h.Sound P L) (hset : h.Settled L) (hc : h.CellIn L s b c)
    (hk : c.kind = .live) (off len : Nat) (bufNull : Bool) :
    ∃ r h', mmRead P (b + P.hdrSize) off bufNull len h = (r, h') ∧
      ((r = none ∧ (bufNull = true ∧ len ≠ 0 ∨ c.requested P < off + len) ∧ h.Idled L h') ∨
        (r = some (h.mem.bytes (b + P.hdrSize + off) len) ∧ off + len ≤ c.requested P ∧
          (payloadOk P b h).1 = true ∧ h.Idled L h') ∨
        r = none ∧ (payloadOk P b h).1 = false ∧ ∃ L', h.Surrendered P s b c L h' L') := by
  obtain ⟨h₁, hh₁⟩ : ∃ h₁, h₁ = (clearError h).2 := ⟨_, rfl⟩
  have hrun₁ : clearError h = ((), h₁) := by rw [hh₁, clearError, Prog.modify_run]
  have hn₁ : h.Counted h₁ := hh₁ ▸ ⟨rfl⟩
  have hi₁ : h.Idled L h₁ := hn₁.idled hS.cursor (by rw [hh₁]; rfl)
  have hS₁ := hS.idled hi₁
  have hc₁ : h₁.CellIn L s b c := ⟨hn₁.kin.spans ▸ hc.1, hc.2⟩
  obtain ⟨v, -, hh⟩ := hS₁.tiled.cell hc₁
  have hb : b ≠ 0 := by
    have := hh.room.lo_pos
    have := hh.room.lo_le
    omega
  have hfail : ∀ status, h.Idled L (fail status h₁).2 := fun status =>
    hi₁.trans ((⟨rfl⟩ : h₁.Counted (fail status h₁).2).idled hS₁.cursor rfl)
  rw [mmRead, Prog.bind_run_of_eq hrun₁, Prog.ite_run]
  by_cases hnull : bufNull = true ∧ len ≠ 0
  · rw [if_pos hnull]
    exact ⟨none, _, rfl, .inl ⟨rfl, .inl hnull, hfail .invalidPtr⟩⟩
  have hcheck := hS₁.run_checkedBlock hc₁ hk off len
  rw [if_neg hnull, readUnlocked]
  by_cases hin : off + len ≤ c.requested P
  swap
  · rw [if_neg hin] at hcheck
    rw [Prog.bind_run_of_eq hcheck, if_pos rfl]
    exact ⟨none, _, rfl, .inl ⟨rfl, .inr (by omega), hfail .oob⟩⟩
  have hok : payloadOk P b h₁ = ((payloadOk P b h).1, h₁) :=
    Prod.ext (payloadOk_congr hn₁.mem) (still_payloadOk hh.toWrit)
  rw [if_pos hin] at hcheck
  rw [Prog.bind_run_of_eq hcheck, if_neg hb, Prog.bind_run_of_eq hok, Prog.ite_run]
  have hreq : c.requested P = c.size - P.hdrSize - c.slack := rfl
  have hslack := hh.fits.slack_le hk
  cases hpay : (payloadOk P b h).1 with
  | true =>
    have hcov : h₁.Covers (payloadOf P b + off) len :=
      hh.covers.sub (by rw [payloadOf]; omega) (by rw [payloadOf]; omega)
    rw [if_pos rfl, Prog.bind_run_of_eq (run_loadN hcov), hn₁.mem]
    exact ⟨_, h₁, rfl, .inr (.inl ⟨rfl, hin, rfl, hi₁⟩)⟩
  | false =>
    obtain ⟨h₂, L', hrun₂, hsur, -⟩ := hS₁.run_quarantine (hset.congr hn₁.kin.spans) hc₁ hk
    have hn₂ : h₂.Counted (fail .corruptPayload h₂).2 := ⟨rfl⟩
    rw [if_neg (by decide), Prog.bind_run_of_eq hrun₂]
    have hlost : h₁.lostBytes = h.lostBytes := hn₁.served.lostBytes
    refine ⟨none, _, rfl, .inr (.inr ⟨rfl, rfl, L', ?_, ?_, ?_, hsur.others, hsur.lost, ?_⟩)⟩
    · exact ((hi₁.outcome hS hset).trans hsur.toOutcome).counted hn₂
    · refine Heap.Served.trans ⟨?_⟩ (hsur.served.trans hn₂.served)
      rw [hn₁.eq]
    · exact ⟨hn₂.kin.spans ▸ hsur.cell.1, hsur.cell.2⟩
    · exact hsur.counts.trans hi₁.counts

def Source.bytes : Source → Option (List UInt8)
  | .null 0 => some []
  | .null (_ + 1) => none
  | .data src => some src

/-- The payload checksum of `c` at `b` after a write that left `h'`. -/
def Heap.resummed (P : Profile) (h h' : Heap) (b : Nat) (c : Cell) : Nat :=
  if (P.hasCrc && h.mode == .managed) = true then
    payloadCrcOf (h'.mem.load (b + P.hdrSize) (c.requested P)) (c.requested P)
  else c.crc

/-- `src` has been written at `off` into the payload of the block of the cell `c` at `b`. -/
structure Heap.Written (P : Profile) (s : Span) (b : Nat) (c : Cell) (off : Nat) (src : List UInt8)
    (h : Heap) (L : Span → List Cell) (h' : Heap) (L' : Span → List Cell) : Prop
    extends h.Outcome P (· = b) L h' L' where
  served : h.Served h'
  cell : ∃ v, h'.CellIn L' s b (c.summed v)
  others : ∀ t, t ≠ s → L' t = L t
  room : freeBytes (L' s) = freeBytes (L s)
  counts : h'.stats.standing = h.stats.standing
  bytes : ∀ a, b + P.hdrSize ≤ a → a < b + P.hdrSize + c.requested P →
    h'.mem.byte a = (h.mem.storeBytes (b + P.hdrSize + off) src).byte a
  sum : ∀ v, h'.CellIn L' s b (c.summed v) → v = h.resummed P h' b c

theorem Heap.Sound.run_writeUnlocked (hS : h.Sound P L) (hset : h.Settled L) (hc : h.CellIn L s b c)
    (hk : c.kind = .live) (off : Nat) (src : List UInt8) :
    ∃ r h', writeUnlocked P (b + P.hdrSize) off src h = (r, h') ∧
      ((r = none ∧ c.requested P < off + src.length ∧ h' = (fail .oob h).2) ∨
        r = some src.length ∧ off + src.length ≤ c.requested P ∧
          ∃ L', h.Written P s b c off src L h' L') := by
  obtain ⟨v, -, hh⟩ := hS.tiled.cell hc
  have hb : b ≠ 0 := by
    have := hh.room.lo_pos
    have := hh.room.lo_le
    omega
  have hreq : c.requested P = c.size - P.hdrSize - c.slack := rfl
  have hslack := hh.fits.slack_le hk
  have hcheck := hS.run_checkedBlock hc hk off src.length
  rw [writeUnlocked]
  by_cases hin : off + src.length ≤ c.requested P
  swap
  · rw [if_neg hin] at hcheck
    rw [Prog.bind_run_of_eq hcheck, if_pos rfl]
    exact ⟨none, _, rfl, .inl ⟨rfl, by omega, rfl⟩⟩
  rw [if_pos hin] at hcheck
  have hcov : h.Covers (payloadOf P b + off) src.length :=
    hh.covers.sub (by rw [payloadOf]; omega) (by rw [payloadOf]; omega)
  obtain ⟨m, hm⟩ : ∃ m, m = h.mem.storeBytes (b + P.hdrSize + off) src := ⟨_, rfl⟩
  have hstore : storeN (payloadOf P b + off) src.length (Memory.ofBytes src) h =
      ((), h.withMem m) := by
    rw [hm]
    exact run_storeN hcov
  have hsame : ∀ a, a < b + P.hdrSize ∨ b + P.hdrSize + c.requested P ≤ a →
      m.byte a = h.mem.byte a := fun a ha => by
    rw [hm]
    exact Memory.byte_store_of_notMem (by omega)
  have hS₁ := hS.poke hc hk hsame
  have hsp₁ := Heap.Spares.poke (X := (· = b)) hS hc hk hsame rfl
  have hset₁ : (h.withMem m).Settled L := hset.congr rfl
  have hc₁ : (h.withMem m).CellIn L s b c := hc
  obtain ⟨u, hcell₁, hh₁⟩ := hS₁.tiled.cell hc₁
  have hcan := run_canaryOk hcell₁ hh₁.room hh₁.fits (by rw [hk]; decide)
  have hlive : payloadCrcLive P (h.withMem m) = (P.hasCrc && h.mode == .managed, h.withMem m) := rfl
  rw [Prog.bind_run_of_eq hcheck, if_neg hb, Prog.bind_run_of_eq hstore, Prog.bind_run_of_eq hcan,
    if_pos rfl, Prog.bind_run_of_eq hlive, Prog.bind_run, Prog.when_run]
  by_cases hsum : (P.hasCrc && h.mode == .managed) = true
  · have hcov₁ : (h.withMem m).Covers (payloadOf P b) (c.requested P) :=
      hh₁.covers.sub (by rw [payloadOf]; omega) (by rw [payloadOf]; omega)
    obtain ⟨v, hv⟩ : ∃ v, v = payloadCrcOf (m.load (payloadOf P b) (c.requested P)) (c.requested P) :=
      ⟨_, rfl⟩
    have hlt : v < 2 ^ 32 := hv ▸ payloadCrcOf_lt _ _
    obtain ⟨h₂, h', L', hrun₂, hrun₃, hwork, hout, hcell, hothers, hroom, hsame'⟩ :=
      hS₁.run_resum_live hset₁ hc₁ hk hlt
    refine ⟨some src.length, h', ?_, .inr ⟨rfl, hin, L', ⟨⟨hout.sound, hout.settled,
      hsp₁.trans hout.spares⟩, (h.work_withMem m).served.trans hwork.served, ⟨v, hcell⟩, hothers,
      hroom, ?_, fun a h₁ h₂ => ?_, fun w hw => ?_⟩⟩⟩
    · rw [if_pos hsum, Prog.bind_run_of_eq (hh₁.run_requestedSize hk),
        Prog.bind_run_of_eq (run_loadN hcov₁), Heap.withMem_mem, ← hv, Prog.bind_run_of_eq hrun₂, hrun₃]
      rfl
    · rw [hwork.stats]
      rfl
    · rw [hsame' a h₁ h₂, ← hm]
      rfl
    · have hw' : w = v := congrArg Cell.crc (hout.sound.tiled.plan.cell_unique hw hcell).2
      have hload : h'.mem.load (b + P.hdrSize) (c.requested P) =
          m.load (payloadOf P b) (c.requested P) :=
        Memory.load_congr fun a h₁ h₂ => hsame' a h₁ h₂
      rw [hw', Heap.resummed, if_pos hsum, hload, hv]
  · have hself : c.summed c.crc = c := rfl
    refine ⟨some src.length, h.withMem m, ?_, .inr ⟨rfl, hin, L, ⟨⟨hS₁, hset₁, hsp₁⟩,
      (h.work_withMem m).served, ⟨c.crc, hself ▸ hc₁⟩, fun _ _ => rfl, rfl, rfl, fun a _ _ => ?_,
      fun w hw => ?_⟩⟩⟩
    · rw [if_neg hsum]
      rfl
    · rw [hm]
      rfl
    · rw [Heap.resummed, if_neg hsum]
      exact congrArg Cell.crc (hS₁.tiled.plan.cell_unique hw hc₁).2

theorem Heap.Sound.run_mmWrite (hS : h.Sound P L) (hset : h.Settled L) (hc : h.CellIn L s b c)
    (hk : c.kind = .live) (off : Nat) (src : Source) :
    ∃ r h', mmWrite P (b + P.hdrSize) off src h = (r, h') ∧
      ((r = none ∧ (∀ bs, src.bytes = some bs → c.requested P < off + bs.length) ∧ h.Idled L h') ∨
        ∃ bs L', src.bytes = some bs ∧ r = some bs.length ∧ off + bs.length ≤ c.requested P ∧
          h.Written P s b c off bs L h' L') := by
  obtain ⟨h₁, hh₁⟩ : ∃ h₁, h₁ = (clearError h).2 := ⟨_, rfl⟩
  have hn₁ : h.Counted h₁ := hh₁ ▸ ⟨rfl⟩
  have hi₁ : h.Idled L h₁ := hn₁.idled hS.cursor (by rw [hh₁]; rfl)
  have hS₁ := hS.idled hi₁
  have hc₁ : h₁.CellIn L s b c := ⟨hn₁.kin.spans ▸ hc.1, hc.2⟩
  have hfail : ∀ status, h.Idled L (fail status h₁).2 := fun status =>
    hi₁.trans ((⟨rfl⟩ : h₁.Counted (fail status h₁).2).idled hS₁.cursor rfl)
  have hmain : ∀ bs, src.bytes = some bs → ∃ r h', writeUnlocked P (b + P.hdrSize) off bs h₁ = (r, h') ∧
      ((r = none ∧ (∀ bs, src.bytes = some bs → c.requested P < off + bs.length) ∧ h.Idled L h') ∨
        ∃ bs L', src.bytes = some bs ∧ r = some bs.length ∧ off + bs.length ≤ c.requested P ∧
          h.Written P s b c off bs L h' L') := by
    intro bs hbs
    obtain ⟨r, h', hrun, hres⟩ := hS₁.run_writeUnlocked (hset.congr hn₁.kin.spans) hc₁ hk off bs
    refine ⟨r, h', hrun, ?_⟩
    rcases hres with ⟨rfl, hout, rfl⟩ | ⟨rfl, hin, L', hw⟩
    · refine .inl ⟨rfl, fun bs' h' => ?_, hfail .oob⟩
      rwa [← Option.some.inj (hbs.symm.trans h')]
    · refine .inr ⟨bs, L', hbs, rfl, hin, ⟨(hi₁.outcome hS hset).trans hw.toOutcome,
        hn₁.served.trans hw.served, hw.cell, hw.others, hw.room, hw.counts.trans hi₁.counts,
        fun a h₁ h₂ => ?_, fun v hv => ?_⟩⟩
      · rw [hw.bytes a h₁ h₂, hn₁.mem]
      · rw [hw.sum v hv, Heap.resummed, Heap.resummed, hn₁.served.mode]
  subst hh₁
  match src with
  | .null 0 => exact hmain [] rfl
  | .null (_ + 1) => exact ⟨none, _, rfl, .inl ⟨rfl, nofun, hfail .invalidPtr⟩⟩
  | .data src => exact hmain src rfl

end Mars
