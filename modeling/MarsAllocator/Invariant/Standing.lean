import MarsAllocator.Invariant.Cells
import MarsAllocator.Steps.Checks
import MarsAllocator.Steps.Reads

namespace Mars

open ByteMemory StateProgram

variable {P : Profile} {h : Heap} {s : Span} {b n : Nat} {u : Bool} {c : Cell}

/-- The bytes `[b, b + n)` are in the span `s` of the arena, where a block may start. -/
structure Heap.Room (h : Heap) (s : Span) (b n : Nat) : Prop where
  span : s ∈ h.spans
  found : h.Found s
  lo_pos : 0 < s.lo
  top : s.hi < 2 ^ 64
  lo_le : s.lo ≤ b
  end_le : b + n ≤ s.hi
  dvd : (b - s.lo) % 16 = 0

/-- The word at `b` is the one of `c`. -/
structure Heap.Writ (P : Profile) (h : Heap) (s : Span) (b : Nat) (u : Bool) (c : Cell) : Prop where
  room : h.Room s b c.size
  fits : c.Fits P
  word : h.mem.load b 8 = c.word u

/-- The header at `b` is the one of `c`, sealed. -/
structure Heap.Holds (P : Profile) (h : Heap) (s : Span) (b : Nat) (u : Bool) (c : Cell) : Prop
    extends h.Writ P s b u c where
  head : HeadAt P h.secret s h.mem b u c

theorem Heap.Room.covers (hr : h.Room s b n) : h.Covers b n := ⟨s, hr.span, hr.lo_le, hr.end_le⟩

theorem Heap.Room.own (hr : h.Room s b n) (hn : 0 < n) : h.Own b := by
  intro s' hs'
  have hlt : b < s.hi := Nat.lt_of_lt_of_le (Nat.lt_add_of_pos_right hn) hr.end_le
  rw [hr.found b hr.lo_le hlt, Option.some.injEq] at hs'
  exact hs' ▸ hr.span

theorem Cell.Fits.pos (hf : c.Fits P) : 0 < c.size := by
  have hp := P.sizes
  have := hf.min_le
  omega

namespace Cell

theorem wordSize_word (hf : c.Fits P) (u : Bool) : wordSize (c.word u) = c.size :=
  wordSize_mkWord hf.dvd hf.slack_lt

theorem wordUsed_word (c : Cell) (u : Bool) : wordUsed (c.word u) = c.used :=
  wordUsed_mkWord _ _ _ _ _

theorem wordQuarantined_word (c : Cell) (u : Bool) : wordQuarantined (c.word u) = c.quarantined :=
  wordQuarantined_mkWord _ _ _ _ _

theorem wordPrevInUse_word (c : Cell) (u : Bool) : wordPrevInUse (c.word u) = u :=
  wordPrevInUse_mkWord _ _ _ _ _

theorem word_lt (hf : c.Fits P) (u : Bool) : c.word u < 2 ^ 64 := mkWord_lt hf.lt hf.slack_lt

theorem requestedFrom_word (hf : c.Fits P) (hk : c.kind = .live) (u : Bool) :
    requestedFrom P (c.word u) = c.requested P := by
  have hp := P.sizes
  have hs := hf.slack_le hk
  have hlt := hf.lt
  have hu : c.used = true := used_of_ne (by rw [hk]; decide)
  have hsl : wordSlack (c.word u) = c.slack := wordSlack_mkWord hf.slack_lt
  rw [requestedFrom, wordUsed_word, hu, wordSize_word hf, hsl, usub_of_le (by omega) (by omega)]
  rw [if_neg (by decide), if_pos (by omega), requested]

end Cell

namespace Heap.Writ

variable (hw : h.Writ P s b u c)
include hw

theorem covers : h.Covers b c.size := hw.room.covers

theorem covers8 : h.Covers b 8 := by
  have hp := P.sizes
  have := hw.fits.min_le
  exact hw.covers.sub (le_refl b) (by omega)

theorem own : h.Own b := hw.room.own hw.fits.pos

theorem spanOf : h.spanOf b = some s :=
  hw.room.found b hw.room.lo_le (Nat.lt_of_lt_of_le (Nat.lt_add_of_pos_right hw.fits.pos)
    hw.room.end_le)

theorem word_eq : h.word b = c.word u := hw.word

theorem legible : h.Legible P s b := by
  have hp := P.sizes
  have hr := hw.room
  have := hr.lo_pos
  have := hr.lo_le
  have := hr.end_le
  have := hr.dvd
  have hf := hw.fits
  have := hf.min_le
  have := hf.pos
  have hsize : wordSize (h.word b) = c.size := by rw [hw.word_eq, Cell.wordSize_word hf]
  refine ⟨by omega, hw.spanOf, ?_, by omega, by omega⟩
  simp only [startOkIn, alignment, Bool.and_eq_true, beq_iff_eq, decide_eq_true_eq]
  omega

theorem run_load64 : load64 b h = (c.word u, h) :=
  Prod.ext hw.word (still_load64 hw.covers8)

theorem run_blockSize : blockSize b h = (c.size, h) := by
  refine Prod.ext ?_ (still_blockSize hw.covers8)
  rw [← Cell.wordSize_word hw.fits u, ← hw.word]
  rfl

theorem run_blockEnd : blockEnd b h = (b + c.size, h) := by
  rw [blockEnd, Prog.bind_run_of_eq hw.run_blockSize]
  rfl

theorem run_isUsed : isUsed b h = (c.used, h) := by
  refine Prod.ext ?_ (still_isUsed hw.covers8)
  rw [← Cell.wordUsed_word c u, ← hw.word]
  rfl

theorem run_prevInUse : prevInUse b h = (u, h) := by
  refine Prod.ext ?_ (still_prevInUse hw.covers8)
  rw [← Cell.wordPrevInUse_word c u, ← hw.word]
  rfl

theorem run_isQuarantined : isQuarantined b h = (c.quarantined, h) := by
  refine Prod.ext ?_ (still_isQuarantined hw.covers8)
  rw [← Cell.wordQuarantined_word c u, ← hw.word]
  rfl

theorem run_requestedSize (hk : c.kind = .live) : requestedSize P b h = (c.requested P, h) := by
  refine Prod.ext ?_ (still_requestedSize hw.covers8)
  rw [← Cell.requestedFrom_word hw.fits hk u, ← hw.word]
  rfl

theorem run_isBlock : isBlock P b h = (true, h) :=
  Prod.ext ((isBlock_fst h b).mpr ⟨s, hw.legible⟩) (still_isBlock hw.own)

theorem run_isBlockStart : isBlockStart P b h = (true, h) :=
  Prod.ext (isBlockStart_fst hw.legible) still_isBlockStart

theorem run_blockIndex : blockIndex b h = (indexIn s b, h) :=
  Prod.ext (blockIndex_fst hw.spanOf) (Still.withSpanOf rfl fun _ _ => rfl)

theorem covers_head : h.Covers b P.hdrSize := by
  have hp := P.sizes
  have := hw.fits.min_le
  exact hw.covers.sub (le_refl b) (by omega)

end Heap.Writ

namespace Heap.Holds

variable (hh : h.Holds P s b u c)
include hh

theorem headerOk_of : h.HeaderOk P s b := by
  refine ⟨hh.legible, fun hc => ?_⟩
  rw [hh.word_eq, hh.head.crc hc]
  exact hh.head.sealed hc

theorem run_headerOk : headerOk P b h = (true, h) :=
  Prod.ext ((headerOk_fst h b).mpr ⟨s, hh.headerOk_of⟩) (still_headerOk hh.own)

theorem run_unchanged (n : Nat) (used : Bool) :
    unchanged P b n used h = (c.size == n && c.used == used, h) := by
  rw [unchanged, Prog.bind_run_of_eq hh.run_headerOk]
  change (blockSize b >>= _) h = _
  rw [Prog.bind_run_of_eq hh.run_blockSize, Prog.bind_run_of_eq hh.run_isUsed]
  rfl

theorem run_unchanged_self : unchanged P b c.size c.used h = (true, h) := by
  rw [hh.run_unchanged, beq_self_eq_true, beq_self_eq_true]
  rfl

end Heap.Holds

def Heap.withMem (h : Heap) (m : Memory) : Heap := { h with mem := m }

@[simp] theorem Heap.withMem_mem (h : Heap) (m : Memory) : (h.withMem m).mem = m := rfl

theorem Heap.Covers.withMem {a : Nat} (hc : h.Covers a n) (m : Memory) : (h.withMem m).Covers a n :=
  hc

theorem Heap.Room.withMem (hr : h.Room s b n) (m : Memory) : (h.withMem m).Room s b n :=
  ⟨hr.span, hr.found, hr.lo_pos, hr.top, hr.lo_le, hr.end_le, hr.dvd⟩

theorem run_storeN {a k v : Nat} (hc : h.Covers a k) :
    storeN a k v h = ((), h.withMem (h.mem.store a k v)) :=
  Prod.ext rfl (congrArg (Heap.withMem · (h.mem.store a k v)) (Heap.touch_eq hc))

theorem run_store64 {a v : Nat} (hc : h.Covers a 8) :
    store64 a v h = ((), h.withMem (h.mem.store a 8 v)) := run_storeN hc

theorem run_loadN {a k : Nat} (hc : h.Covers a k) : loadN a k h = (h.mem.load a k, h) :=
  Prod.ext rfl (Still.loadN hc)

theorem run_load64 {a : Nat} (hc : h.Covers a 8) : load64 a h = (h.mem.load a 8, h) := run_loadN hc

end Mars
