import MarsAllocator.Invariant.Calls
import MarsAllocator.Steps.Looks

namespace Mars

open ByteMemory StateProgram

set_option synthInstance.maxSize 100000

variable {P : Profile} {h h' h₁ : Heap} {s s' t : Span} {a b b' k m n p : Nat} {c c' d : Cell}
  {L L' L₁ : Span → List Cell} {X : Nat → Prop} {live : List Nat}

namespace Heap.Thriving

variable (hT : h.Thriving P L)
include hT

theorem alike (ha : Alike h h') : h'.Thriving P L := by
  obtain ⟨e, r, st, w⟩ := ha
  exact ⟨hT.sound.same ⟨rfl, rfl, rfl⟩ rfl rfl rfl (hT.sound.cursor.congr rfl rfl rfl),
    hT.settled.congr rfl, hT.distinct, hT.root, hT.origin, hT.low, hT.fixed, hT.total, hT.lost, hT.paged⟩

theorem surrendered (hs : h.Surrendered P s b c L h' L') (hc : h.CellIn L s b c) :
    h'.Thriving P L' := by
  have hspans : h'.spans = h.spans := hs.served.kin.spans
  have heq := hs.served.eq
  refine ⟨hs.sound, hs.settled, hspans ▸ hT.distinct, hspans ▸ hT.root, hspans ▸ hT.origin,
    hspans ▸ hT.low, ?_, ?_, ?_, ?_⟩
  · rw [hspans, hs.served.growable]
    exact hT.fixed
  · rw [hspans, heq]
    exact hT.total
  · have hsum := ((List.perm_cons_erase hc.1).map fun t : Span => Mars.lostBytes (L t)).sum_nat
    have hsum' := ((List.perm_cons_erase hc.1).map fun t : Span => Mars.lostBytes (L' t)).sum_nat
    have hrest : (h.spans.erase s).map (fun t : Span => Mars.lostBytes (L' t)) =
        (h.spans.erase s).map fun t : Span => Mars.lostBytes (L t) :=
      List.map_congr_left fun t ht => by
        rw [hs.others t (hT.distinct.mem_erase_iff.mp ht).1]
    rw [List.map_cons, List.sum_cons] at hsum hsum'
    rw [hrest, hs.lost] at hsum'
    have hlost := hT.lost
    rw [hspans, hs.served.lostBytes]
    change h.lostBytes + c.size = _
    omega
  · rw [heq]
    exact hT.paged

theorem poke (hb : h.Backs P L p) {off : Nat} {bs : List UInt8}
    (hin : off + bs.length ≤ (sizeOfLive P p h).1) :
    (h.withMem (h.mem.storeBytes (p + off) bs)).Thriving P L := by
  have hk := h.kin_withMem (h.mem.storeBytes (p + off) bs)
  refine ⟨?_, hT.settled.congr hk.spans, hT.distinct, hT.root, hT.origin, hT.low, hT.fixed, hT.total,
    hT.lost, hT.paged⟩
  obtain ⟨u, b, c, rfl, hc, hkind⟩ := hb
  rw [hT.sound.sizeOfLive hc hkind] at hin
  rcases hkind with hkind | hkind
  · rw [if_pos hkind] at hin
    exact hT.sound.poke hc hkind fun a ha => Memory.byte_store_of_notMem (by omega)
  · rw [if_neg (by rw [hkind]; decide)] at hin
    have hsame : h.mem.storeBytes (b + P.hdrSize + off) bs = h.mem :=
      Memory.ext_byte fun a => Memory.byte_store_of_notMem (by omega)
    rw [hsame]
    exact hT.sound

theorem configured (hk : h.Kin h') (heq : h' = { h with
      mode := h'.mode, opsSinceScrub := h'.opsSinceScrub, scrubInterval := h'.scrubInterval,
      scrubBudget := h'.scrubBudget }) : h'.Thriving P L := by
  have hcur : h'.Cursor L := hT.sound.cursor.congr hk.spans (by rw [heq]) (by rw [heq])
  refine ⟨hT.sound.same hk (by rw [heq]) (by rw [heq]) (by rw [heq]) hcur, hT.settled.congr hk.spans,
    hk.spans ▸ hT.distinct, hk.spans ▸ hT.root, hk.spans ▸ hT.origin, hk.spans ▸ hT.low, ?_, ?_, ?_, ?_⟩
  · rw [heq]
    exact hT.fixed
  · rw [heq]
    exact hT.total
  · rw [heq]
    exact hT.lost
  · rw [heq]
    exact hT.paged

theorem forgot (hf : h.Forgot P h.spans L h' L') : h'.Thriving P L' := by
  have hspans := hf.work.kin.spans
  have hcells : ∀ t ∈ h.spans, L' t = (L t).map Cell.unsummed := fun t ht => by
    rw [hf.cells, if_pos ht]
  have heq := hf.work.served.eq
  refine ⟨hf.sound, fun t b c hc => ?_, hspans ▸ hT.distinct, hspans ▸ hT.root, hspans ▸ hT.origin,
    hspans ▸ hT.low, ?_, ?_, ?_, ?_⟩
  · obtain ⟨ht, hat⟩ := hc
    rw [hspans] at ht
    rw [hcells t ht, at_unsummed] at hat
    obtain ⟨d, hd, rfl⟩ := hat
    exact hT.settled t b d ⟨ht, hd⟩
  · rw [hspans, hf.work.served.growable]
    exact hT.fixed
  · rw [hspans, heq]
    exact hT.total
  · rw [hspans, hf.work.served.lostBytes, hT.lost]
    refine congrArg List.sum (List.map_congr_left fun t ht => ?_)
    rw [hcells t ht, lostBytes_unsummed]
  · rw [heq]
    exact hT.paged

end Heap.Thriving

theorem Heap.Forgot.cell (hf : h.Forgot P h.spans L h' L') (hc : h.CellIn L t b c) :
    h'.CellIn L' t b c.unsummed := by
  refine ⟨hf.work.kin.spans ▸ hc.1, ?_⟩
  rw [hf.cells, if_pos hc.1]
  exact at_unsummed.mpr ⟨c, hc.2, rfl⟩

theorem Heap.Forgot.busy (hf : h.Forgot P h.spans L h' L') (hB : h.Busy L fun _ => False) :
    h'.Busy L' fun _ => False := by
  intro t ht hk
  rw [hf.work.kin.spans] at ht
  obtain ⟨b, c, hc, hu⟩ := (hB t ht hk).resolve_left id
  exact .inr ⟨b, c.unsummed, (hf.cell ⟨ht, hc⟩).2, hu⟩

theorem Heap.Surrendered.busy (hs : h.Surrendered P s b c L h' L') (hT : h.Thriving P L)
    (hB : h.Busy L fun _ => False) (hc : h.CellIn L s b c) : h'.Busy L' fun _ => False := by
  refine hB.spares hs.spares (fun t ht => hs.served.kin.spans ▸ ht) (fun t x d hx hd _ => .inr ?_)
    fun _ ht => ht.elim
  obtain rfl : t = s := (hT.sound.tiled.plan.cell_unique (hx ▸ hd) hc).1
  exact ⟨b, c.surrendered, hs.cell.2, rfl⟩

def Reply.pointed : Reply → Nat
  | .pointer p => p
  | _ => 0

/-- The size that a call asks a new block for. -/
def Call.asks : Call → Option Nat
  | .malloc size | .memalign _ size => some size.toNat
  | .realloc ptr size => if ptr.toNat = 0 then some size.toNat else none
  | _ => none

/-- All calls but one under one profile: it aligns no bytes at all to 32, and what is cut off its
over-allocation need not be enough for a block. -/
def Call.ample (P : Profile) : Call → Bool
  | .memalign align size => P != .hardened || align.toNat != 32 || size.toNat != 0
  | _ => true

/-- What a call asks the new block to be a multiple of. -/
def Call.aligns : Call → Nat
  | .memalign align _ => align.toNat
  | _ => 1

def Call.looks : Call → Bool
  | .verify _ | .checkHeap | .scrub _ => true
  | _ => false

/-- The replies to calls on `h` that leave every block as it was. -/
inductive Heap.Rests (P : Profile) (h : Heap) (L : Span → List Cell) : Call → Reply → Prop
  | ungranted {call : Call} {n : Nat} (hn : call.asks = some n) : Rests P h L call (.pointer 0)
  | null {ptr : UInt64} (h0 : ptr.toNat = 0) : Rests P h L (.free ptr) .void
  | unmoved {ptr size : UInt64} (h0 : ptr.toNat ≠ 0) (hz : size.toNat ≠ 0) :
      Rests P h L (.realloc ptr size) (.pointer 0)
  | copied {ptr off : UInt64} {bufNull : Bool} {len : UInt64} {s : Span} {b : Nat} {d : Cell}
      (hp : ptr.toNat = b + P.hdrSize) (hd : h.CellIn L s b d) (hk : d.kind = .live)
      (hin : off.toNat + len.toNat ≤ d.requested P) : Rests P h L (.read ptr off bufNull len)
      (.copied (some (h.mem.bytes (b + P.hdrSize + off.toNat) len.toNat)))
  | uncopied {ptr off : UInt64} {bufNull : Bool} {len : UInt64} {s : Span} {b : Nat} {d : Cell}
      (hp : ptr.toNat = b + P.hdrSize) (hd : h.CellIn L s b d) (hk : d.kind = .live)
      (hwhy : bufNull = true ∧ len.toNat ≠ 0 ∨ d.requested P < off.toNat + len.toNat) :
      Rests P h L (.read ptr off bufNull len) (.copied none)
  | unwritten {ptr off : UInt64} {src : Source} {s : Span} {b : Nat} {d : Cell}
      (hp : ptr.toNat = b + P.hdrSize) (hd : h.CellIn L s b d) (hk : d.kind = .live)
      (hwhy : ∀ bs, src.bytes = some bs → d.requested P < off.toNat + bs.length) :
      Rests P h L (.write ptr off src) (.written none)
  | looked {call : Call} {st : Status} (hl : call.looks = true) : Rests P h L call (.status st)
  | lost {call : Call} {r : Reply} {s : Span} {b : Nat} {d : Cell} (hd : h.CellIn L s b d)
      (hk : d.kind = .lost) : Rests P h L call r

/-- What becomes of the arena `h` when a call is made on it and replied to. -/
inductive Heap.Effect (P : Profile) (h : Heap) (L : Span → List Cell) :
    Call → Reply → Heap → (Span → List Cell) → Prop
  | stayed {call : Call} {r : Reply} {h' : Heap} {L' : Span → List Cell} (hr : r.pointed = 0)
      (hq : h.Rests P L call r) (hs : h.Stayed P L h' L') : Effect P h L call r h' L'
  | alike {call : Call} {r : Reply} {h' : Heap} (hr : r.pointed = 0) (hq : h.Rests P L call r)
      (ha : Alike h h')
      (hst : h'.stats = h.stats ∨ ∃ s b d, h.CellIn L s b d ∧ d.kind = .lost) : Effect P h L call r h' L
  | tuned {ops budget : UInt64} : Effect P h L (.setScrubInterval ops budget) .void
      (mmSetScrubInterval ops.toNat budget.toNat h).2 L
  | remoded {mode : Mode} : Effect P h L (.setMode mode) .void { h with mode := mode } L
  | forgot {mode : Mode} {h' : Heap} {L' : Span → List Cell}
      (hf : { h with mode := mode }.Forgot P h.spans L h' L') :
      Effect P h L (.setMode mode) .void h' L'
  | issued {call : Call} {s : Span} {b n : Nat} {d : Cell} {h' : Heap} {L' : Span → List Cell}
      (hn : call.asks = some n) (hi : h.Issued P s b n d L h' L')
      (hal : (b + P.hdrSize) % call.aligns = 0)
      (hz : call.ample P = true → d.size ≤ n + P.hdrSize + P.slackMax) :
      Effect P h L call (.pointer (b + P.hdrSize)) h' L'
  | freed {ptr : UInt64} {s : Span} {b : Nat} {d : Cell} {h' : Heap} {L' : Span → List Cell}
      (hp : ptr.toNat = b + P.hdrSize) (hd : h.CellIn L s b d) (hk : d.kind = .live)
      (hr : h.Returned P b d L h' L') : Effect P h L (.free ptr) .void h' L'
  | emptied {ptr size : UInt64} {s : Span} {b : Nat} {d : Cell} {h' : Heap} {L' : Span → List Cell}
      (hp : ptr.toNat = b + P.hdrSize) (hz : size.toNat = 0) (hd : h.CellIn L s b d)
      (hk : d.kind = .live) (hr : h.Returned P b d L h' L') :
      Effect P h L (.realloc ptr size) (.pointer 0) h' L'
  | resized {ptr size : UInt64} {s : Span} {b : Nat} {d d' : Cell} {h' : Heap}
      {L' : Span → List Cell} (hp : ptr.toNat = b + P.hdrSize) (hz : size.toNat ≠ 0)
      (hd : h.CellIn L s b d) (hk : d.kind = .live) (hc : h.Course P (· = b) L h' L')
      (hr : h.Resized P s b size.toNat d L d' h' L') :
      Effect P h L (.realloc ptr size) (.pointer (b + P.hdrSize)) h' L'
  | shifted {ptr size : UInt64} {s s' : Span} {b b' : Nat} {d d' : Cell} {h' : Heap}
      {L' : Span → List Cell} (hp : ptr.toNat = b + P.hdrSize) (hz : size.toNat ≠ 0)
      (hd : h.CellIn L s b d) (hk : d.kind = .live)
      (hm : h.Shifted P b d s' b' size.toNat d' L h' L') :
      Effect P h L (.realloc ptr size) (.pointer (b' + P.hdrSize)) h' L'
  | surrendered {ptr off : UInt64} {bufNull : Bool} {len : UInt64} {s : Span} {b : Nat} {d : Cell}
      {h' : Heap} {L' : Span → List Cell} (hp : ptr.toNat = b + P.hdrSize) (hd : h.CellIn L s b d)
      (hk : d.kind = .live) (hbad : (payloadOk P b h).1 = false)
      (hs : h.Surrendered P s b d L h' L') :
      Effect P h L (.read ptr off bufNull len) (.copied none) h' L'
  | written {ptr off : UInt64} {src : Source} {bs : List UInt8} {s : Span} {b : Nat} {d : Cell}
      {h' : Heap} {L' : Span → List Cell} (hp : ptr.toNat = b + P.hdrSize) (hd : h.CellIn L s b d)
      (hk : d.kind = .live) (hsrc : src.bytes = some bs)
      (hin : off.toNat + bs.length ≤ d.requested P) (hw : h.Written P s b d off.toNat bs L h' L') :
      Effect P h L (.write ptr off src) (.written (some bs.length)) h' L'

/-- The arena and the pointers that are out, between two calls. -/
structure Heap.Kempt (P : Profile) (h : Heap) (L : Span → List Cell) (live : List Nat) : Prop where
  thriving : h.Thriving P L
  busy : h.Busy L fun _ => False
  backing : h.Backing P L live

theorem Heap.Stayed.kempt (hs : h.Stayed P L h' L') (hK : h.Kempt P L live) : h'.Kempt P L' live :=
  ⟨hs.thriving, hs.busy, hK.backing.spares hs.spares fun _ hx => hx.elim⟩

theorem Heap.Kempt.alike (hK : h.Kempt P L live) (ha : Alike h h') : h'.Kempt P L live :=
  ⟨hK.thriving.alike ha, fun t ht => hK.busy t (ha.spans ▸ ht), hK.backing.congr ha.spans⟩

theorem Heap.Kempt.drop (hK : h.Kempt P L live) (p : Nat) : h.Kempt P L (live.erase p) :=
  ⟨hK.thriving, hK.busy, hK.backing.drop p⟩

theorem Heap.Backing.issued (hB : h.Backing P L live) (hi : h.Issued P s b n c L h' L') :
    h'.Backing P L' ((b + P.hdrSize) :: live) := by
  have hnot := hB.not_mem hi.vacant
  have hold := hB.spares hi.spares fun x hx => by rwa [hx]
  refine ⟨List.nodup_cons.mpr ⟨hnot, hB.nodup⟩, fun p hp => ?_⟩
  rcases List.mem_cons.mp hp with rfl | hp
  · exact ⟨s, b, c, rfl, hi.cell, .inl hi.live⟩
  · exact hold.backs p hp

theorem Heap.Backing.shifted (hB : h.Backing P L live)
    (hm : h.Shifted P b c s' b' n c' L h' L') :
    h'.Backing P L' ((b' + P.hdrSize) :: live.erase (b + P.hdrSize)) := by
  have hnot := hB.not_mem hm.vacant
  refine ⟨List.nodup_cons.mpr ⟨fun h' => hnot (List.mem_of_mem_erase h'), hB.nodup.erase _⟩,
    fun q hq => ?_⟩
  rcases List.mem_cons.mp hq with rfl | hq
  · exact ⟨s', b', c', rfl, hm.cell, .inl hm.live⟩
  obtain ⟨hne, hq⟩ := (List.Nodup.mem_erase_iff hB.nodup).mp hq
  refine (hB.backs q hq).spares hm.spares fun x he hx => ?_
  rcases hx with hx | hx
  · exact hne (by rw [he, hx])
  · exact hnot (by rwa [← hx, ← he])

/-- What a call comes to, and that it leaves the arena as it should be. -/
def Heap.Comes (P : Profile) (h : Heap) (L : Span → List Cell) (live : List Nat) (call : Call) : Prop :=
  ∃ L', h.Effect P L call (call.run P h).1 (call.run P h).2 L' ∧
    (call.run P h).2.Kempt P L' (call.liveAfter live (call.run P h).1)

namespace Heap.Kempt

variable (hK : h.Kempt P L live)
include hK

theorem backs (hp : p ∈ live) : ∃ s b c, p = b + P.hdrSize ∧ h.CellIn L s b c ∧
    (c.kind = .live ∨ c.kind = .lost ∧ Mars.Found P p h) := by
  obtain ⟨s, b, c, rfl, hc, hk⟩ := hK.backing.backs p hp
  exact ⟨s, b, c, rfl, hc, hk.imp_right fun hk => ⟨hk, hK.thriving.sound.found_lost hc hk⟩⟩

theorem issued (hi : h.Issued P s b n c L h' L') : h'.Kempt P L' ((b + P.hdrSize) :: live) :=
  ⟨hi.thriving, hi.busy, hK.backing.issued hi⟩

theorem returned (hr : h.Returned P b c L h' L') : h'.Kempt P L' (live.erase (b + P.hdrSize)) :=
  ⟨hr.thriving, hr.busy, hK.backing.erase hr.spares⟩

theorem comes_malloc (size : UInt64)
    (ho : h.Offers (mappingFor P (sizeFor P (Call.demand P (.malloc size))))) :
    h.Comes P L live (.malloc size) := by
  have hp := P.sizes
  obtain ⟨r, h', L', hrun, hres⟩ := hK.thriving.run_mallocUnlocked (n := size.toNat) hK.busy ho
  have hcall : (Call.malloc size).run P h = (.pointer r.1, h') := by
    rw [Call.run, mmMalloc, Prog.bind_run, Prog.bind_run_of_eq hrun]
    rfl
  rw [Heap.Comes, hcall, Call.liveAfter]
  rcases hres with ⟨hr, hs⟩ | ⟨s, b, c, hr, hi, -⟩
  · rw [if_pos hr]
    exact ⟨L', .stayed hr (hr ▸ .ungranted rfl) hs, hs.kempt hK⟩
  · have hfit := hi.fits_of_malloc hrun hr
    rw [hr, if_neg (by omega)]
    exact ⟨L', .issued rfl hi (Nat.mod_one _) fun _ => hfit, hK.issued hi⟩

theorem comes_memalign (align size : UInt64) (ha : align.toNat = 2 ^ Nat.log2 align.toNat)
    (ho : h.Offers (mappingFor P (sizeFor P (Call.demand P (.memalign align size))))) :
    h.Comes P L live (.memalign align size) := by
  have hp := P.sizes
  obtain ⟨q, h', L', hrun, hres⟩ := hK.thriving.run_memalignUnlocked hK.busy ha align.toNat_lt ho
  have hcall : (Call.memalign align size).run P h = (.pointer q, h') := by
    rw [Call.run, mmMemalign, Prog.bind_run_of_eq hrun]
    rfl
  rw [Heap.Comes, hcall, Call.liveAfter]
  rcases hres with ⟨hq, hs⟩ | ⟨s, b, c, hq, hmod, hi, hz⟩
  · rw [if_pos hq]
    exact ⟨L', .stayed hq (hq ▸ .ungranted rfl) hs, hs.kempt hK⟩
  · have hge := hi.suits.ge
    rw [hq, if_neg (by omega)]
    refine ⟨L', .issued rfl hi (hq ▸ hmod) fun hample => ?_, hK.issued hi⟩
    simp only [Call.ample, Bool.or_eq_true, bne_iff_ne] at hample
    by_cases h0 : size.toNat = 0
    · have := hz h0 fun h32 => hample.elim (fun h => h.elim (· h32.1) (· h32.2)) (· h0)
      omega
    · omega

theorem comes_free (ptr : UInt64) (hv : ptr.toNat = 0 ∨ ptr.toNat ∈ live) :
    h.Comes P L live (.free ptr) := by
  by_cases h0 : ptr.toNat = 0
  · have hcall : (Call.free ptr).run P h = (.void, (clearError h).2) := by
      rw [Call.run, mmFree, if_pos h0]
      rfl
    have hs := ((⟨rfl⟩ : h.Counted (clearError h).2).idled hK.thriving.sound.cursor rfl).stayed
      hK.thriving hK.busy
    rw [Heap.Comes, hcall]
    exact ⟨L, .stayed rfl (.null h0) hs, (hs.kempt hK).drop _⟩
  obtain ⟨s, b, c, hp, hc, hk | ⟨hk, hf⟩⟩ := hK.backs (hv.resolve_left h0)
  · obtain ⟨h', L', hrun, hr⟩ := hK.thriving.run_freeUnlocked hK.busy hc hk
    have hcall : (Call.free ptr).run P h = (.void, h') := by
      rw [Call.run, mmFree, if_neg h0, hp, Prog.bind_run_of_eq hrun]
      rfl
    rw [Heap.Comes, hcall]
    refine ⟨L', .freed hp hc hk hr, ?_⟩
    rw [Call.liveAfter, hp]
    exact hK.returned hr
  · have hcall : (Call.free ptr).run P h = (.void, (freeUnlocked P ptr.toNat h).2) := by
      rw [Call.run, mmFree, if_neg h0]
      rfl
    have ha : Alike h (freeUnlocked P ptr.toNat h).2 := (free_of_found (refl_of Alike h) hf).1
    rw [Heap.Comes, hcall]
    exact ⟨L, .alike rfl (.lost hc hk) ha (.inr ⟨s, b, c, hc, hk⟩), (hK.alike ha).drop _⟩

theorem comes_realloc (ptr size : UInt64) (hv : ptr.toNat = 0 ∨ ptr.toNat ∈ live)
    (ho : h.Offers (mappingFor P (sizeFor P (Call.demand P (.realloc ptr size))))) :
    h.Comes P L live (.realloc ptr size) := by
  have hhdr := P.sizes
  have hcall : ∀ q h', reallocUnlocked P ptr.toNat size.toNat h = (q, h') →
      (Call.realloc ptr size).run P h = (.pointer q, h') := fun q h' hrun => by
    rw [Call.run, mmRealloc, Prog.bind_run_of_eq hrun]
    rfl
  obtain ⟨h₁, hh₁⟩ : ∃ h₁, h₁ = (clearError h).2 := ⟨_, rfl⟩
  have hrun₁ : clearError h = ((), h₁) := by rw [hh₁, clearError, Prog.modify_run]
  have hn₁ : h.Counted h₁ := hh₁ ▸ ⟨rfl⟩
  have hs₁ := (hn₁.idled hK.thriving.sound.cursor (by rw [hh₁]; rfl)).stayed hK.thriving hK.busy
  have hspans : h₁.spans = h.spans := hn₁.kin.spans
  rw [Heap.Comes]
  by_cases h0 : ptr.toNat = 0
  · have ho₁ : h₁.Offers (mappingFor P (sizeFor P size.toNat)) := by
      rw [hh₁]
      exact ho
    obtain ⟨r, h', L', hrun, hres⟩ := hs₁.thriving.run_mallocUnlocked hs₁.busy ho₁
    have hlive : live.erase 0 = live := List.erase_of_not_mem fun h' => hK.backing.ne_zero h' rfl
    rw [hcall r.1 h' (by rw [reallocUnlocked, Prog.bind_run_of_eq hrun₁, if_pos h0,
      Prog.bind_run_of_eq hrun]; rfl), Call.liveAfter, h0, hlive, ite_self]
    rcases hres with ⟨hr, hs⟩ | ⟨s, b, c, hr, hi, -⟩
    · rw [if_neg (not_not.mpr hr)]
      exact ⟨L', .stayed hr (hr ▸ .ungranted (if_pos h0)) (hs₁.trans hs), (hs₁.trans hs).kempt hK⟩
    · have hi' := hs₁.issued hi
      have hfit := hi.fits_of_malloc hrun hr
      rw [hr, if_pos (by omega)]
      exact ⟨L', .issued (if_pos h0) hi' (Nat.mod_one _) fun _ => hfit, hK.issued hi'⟩
  obtain ⟨s, b, c, hp, hc, hk | ⟨hk, hf⟩⟩ := hK.backs (hv.resolve_left h0)
  swap
  · have hr := realloc_of_found size.toNat h0 hf
    obtain ⟨q, h', hrun⟩ : ∃ q h', reallocUnlocked P ptr.toNat size.toNat h = (q, h') := ⟨_, _, rfl⟩
    rw [wp, hrun] at hr
    obtain ⟨rfl, ha, -⟩ := hr
    rw [hcall 0 h' hrun, Call.liveAfter, if_neg (not_not.mpr rfl)]
    refine ⟨L, .alike rfl (.lost hc hk) ha (.inr ⟨s, b, c, hc, hk⟩), ?_⟩
    split
    · exact (hK.alike ha).drop _
    · exact hK.alike ha
  by_cases hz : size.toNat = 0
  · have hc₁ : h₁.CellIn L s b c := ⟨hspans ▸ hc.1, hc.2⟩
    obtain ⟨h', L', hrun, hr⟩ := hs₁.thriving.run_freeUnlocked hs₁.busy hc₁ hk
    have hr' : h.Returned P b c L h' L' :=
      ⟨(hs₁.toCourse.mono fun _ hx => hx.elim).trans hr.toCourse, hr.gone, hs₁.counts ▸ hr.counts⟩
    rw [hcall 0 h' (by rw [reallocUnlocked, Prog.bind_run_of_eq hrun₁, if_neg h0, if_pos hz, hp,
      Prog.bind_run_of_eq hrun]; rfl), Call.liveAfter, if_neg (not_not.mpr rfl), if_pos hz]
    refine ⟨L', .emptied hp hz hc hk hr', ?_⟩
    rw [hp]
    exact hK.returned hr'
  obtain ⟨q, h', L', hrun, hres⟩ := hK.thriving.run_reallocUnlocked hK.busy ho hc hk hz
  rw [← hp] at hrun
  rw [hcall q h' hrun, Call.liveAfter]
  have hmem := hv.resolve_left h0
  rcases hres with ⟨rfl, hs⟩ | ⟨c', rfl, hcourse, hr⟩ | ⟨s', b', c', rfl, hm⟩
  · rw [if_neg (not_not.mpr rfl), if_neg hz]
    exact ⟨L', .stayed rfl (.unmoved h0 hz) hs, hs.kempt hK⟩
  · rw [if_pos (by omega)]
    refine ⟨L', .resized hp hz hc hk hcourse hr, hcourse.thriving, hcourse.busy, ?_⟩
    have hkeep := hK.backing.keep hr.spares hr.cell (.inl hr.live)
    rw [hp] at hmem ⊢
    exact ⟨(List.perm_cons_erase hmem).nodup_iff.mp hkeep.nodup, fun q hq =>
      hkeep.backs q ((List.perm_cons_erase hmem).mem_iff.mpr hq)⟩
  · rw [if_pos (by omega), hp]
    exact ⟨L', .shifted hp hz hc hk hm, hm.thriving, hm.busy, hK.backing.shifted hm⟩

theorem comes_read (ptr off : UInt64) (bufNull : Bool) (len : UInt64) (hv : ptr.toNat ∈ live) :
    h.Comes P L live (.read ptr off bufNull len) := by
  have hcall : ∀ r h', mmRead P ptr.toNat off.toNat bufNull len.toNat h = (r, h') →
      (Call.read ptr off bufNull len).run P h = (.copied r, h') := fun r h' hrun => by
    rw [Call.run, Prog.bind_run_of_eq hrun]
    rfl
  rw [Heap.Comes]
  obtain ⟨s, b, c, hp, hc, hk | ⟨hk, hf⟩⟩ := hK.backs hv
  · obtain ⟨r, h', hrun, hres⟩ :=
      hK.thriving.sound.run_mmRead hK.thriving.settled hc hk off.toNat len.toNat bufNull
    rw [hcall r h' (hp ▸ hrun)]
    rcases hres with ⟨rfl, hwhy, hi⟩ | ⟨rfl, hin, -, hi⟩ | ⟨rfl, hbad, L', hs⟩
    · have hs := hi.stayed hK.thriving hK.busy
      exact ⟨L, .stayed rfl (.uncopied hp hc hk hwhy) hs, hs.kempt hK⟩
    · have hs := hi.stayed hK.thriving hK.busy
      exact ⟨L, .stayed rfl (.copied hp hc hk hin) hs, hs.kempt hK⟩
    · exact ⟨L', .surrendered hp hc hk hbad hs, hK.thriving.surrendered hs hc,
        hs.busy hK.thriving hK.busy hc, hK.backing.keep hs.spares hs.cell (.inr rfl)⟩
  · have ha := (read_of_found off.toNat len.toNat bufNull hf).2.1
    rw [hcall _ _ rfl]
    exact ⟨L, .alike rfl (.lost hc hk) ha (.inr ⟨s, b, c, hc, hk⟩), hK.alike ha⟩

theorem comes_write (ptr off : UInt64) (src : Source) (hv : ptr.toNat ∈ live) :
    h.Comes P L live (.write ptr off src) := by
  have hcall : ∀ r h', mmWrite P ptr.toNat off.toNat src h = (r, h') →
      (Call.write ptr off src).run P h = (.written r, h') := fun r h' hrun => by
    rw [Call.run, Prog.bind_run_of_eq hrun]
    rfl
  rw [Heap.Comes]
  obtain ⟨s, b, c, hp, hc, hk | ⟨hk, hf⟩⟩ := hK.backs hv
  · obtain ⟨r, h', hrun, hres⟩ :=
      hK.thriving.sound.run_mmWrite hK.thriving.settled hc hk off.toNat src
    rw [hcall r h' (hp ▸ hrun)]
    rcases hres with ⟨rfl, hwhy, hi⟩ | ⟨bs, L', hsrc, rfl, hin, hw⟩
    · have hs := hi.stayed hK.thriving hK.busy
      exact ⟨L, .stayed rfl (.unwritten hp hc hk hwhy) hs, hs.kempt hK⟩
    · obtain ⟨v, hcell⟩ := hw.cell
      have hcourse := hw.toOutcome.course_live hw.served hK.thriving hK.busy hc hk hcell hk
      exact ⟨L', .written hp hc hk hsrc hin hw, hcourse.thriving, hcourse.busy,
        hK.backing.keep hw.spares hcell (.inl hk)⟩
  · have ha := (write_of_found off.toNat src hf).2.1
    rw [hcall _ _ rfl]
    exact ⟨L, .alike rfl (.lost hc hk) ha (.inr ⟨s, b, c, hc, hk⟩), hK.alike ha⟩

theorem comes_setMode (mode : Mode) : h.Comes P L live (.setMode mode) := by
  have hcall : ∀ h', setModeUnlocked P mode h = ((), h') →
      (Call.setMode mode).run P h = (.void, h') := fun h' hrun => by
    rw [Call.run, mmSetMode, Prog.bind_run_of_eq hrun]
    rfl
  have hread : Prog.read Heap.mode h = (h.mode, h) := rfl
  have hset : ∀ h', (Prog.when (h.mode ≠ mode) (do
      Prog.modify fun h : Heap => { h with mode := mode }
      let spans ← Prog.read Heap.spans
      Prog.when (P.hasCrc ∧ mode = .libc) (forgetPayloadCrcs P spans))) h = ((), h') →
        (Call.setMode mode).run P h = (.void, h') := fun h' hrun => hcall h' (by
    rw [setModeUnlocked, Prog.bind_run_of_eq hread, hrun])
  rw [Heap.Comes]
  by_cases hm : h.mode ≠ mode
  swap
  · have hself : { h with mode := mode } = h := by rw [← not_not.mp hm]
    rw [hset h (by rw [Prog.when_run, if_neg hm])]
    refine ⟨L, ?_, hK⟩
    have heff : h.Effect P L (.setMode mode) .void { h with mode := mode } L := .remoded
    rwa [hself] at heff
  obtain ⟨h₁, hh₁⟩ : ∃ h₁ : Heap, h₁ = { h with mode := mode } := ⟨_, rfl⟩
  have hT₁ : h₁.Thriving P L := hK.thriving.configured (hh₁ ▸ ⟨rfl, rfl, rfl⟩) (by rw [hh₁])
  have hspans : h₁.spans = h.spans := by rw [hh₁]
  have hK₁ : h₁.Kempt P L live :=
    ⟨hT₁, fun t ht => hK.busy t (hspans ▸ ht), hK.backing.congr hspans⟩
  have hmod : Prog.modify (fun h : Heap => { h with mode := mode }) h = ((), h₁) := by
    rw [hh₁, Prog.modify_run]
  have hread₁ : Prog.read Heap.spans h₁ = (h₁.spans, h₁) := rfl
  by_cases hcrc : P.hasCrc = true ∧ mode = .libc
  swap
  · rw [hset h₁ (by rw [Prog.when_run, if_pos hm, Prog.bind_run_of_eq hmod,
      Prog.bind_run_of_eq hread₁, Prog.when_run, if_neg hcrc])]
    exact ⟨L, hh₁ ▸ .remoded, hK₁⟩
  obtain ⟨h', L', hrun, hf⟩ := hT₁.sound.run_forgetPayloadCrcs hcrc.1 (D := h₁.spans) fun _ ht => ht
  rw [hset h' (by rw [Prog.when_run, if_pos hm, Prog.bind_run_of_eq hmod,
    Prog.bind_run_of_eq hread₁, Prog.when_run, if_pos hcrc, hrun])]
  refine ⟨L', .forgot (hh₁ ▸ hspans ▸ hf), hT₁.forgot hf, hf.busy hK₁.busy,
    hK.backing.nodup, fun p hp => ?_⟩
  obtain ⟨t, b, c, he, hc, hk⟩ := hK₁.backing.backs p hp
  exact ⟨t, b, c.unsummed, he, hf.cell hc, hk⟩

theorem comes (call : Call) (hv : call.okFor live = true)
    (ho : h.Offers (mappingFor P (sizeFor P (call.demand P)))) : h.Comes P L live call := by
  cases call with
  | malloc size => exact hK.comes_malloc size ho
  | free ptr => exact hK.comes_free ptr (toNat_of_okFor hv)
  | realloc ptr size => exact hK.comes_realloc ptr size (toNat_of_okFor hv) ho
  | memalign align size => exact hK.comes_memalign align size (beq_iff_eq.mp hv) ho
  | read ptr off bufNull len => exact hK.comes_read ptr off bufNull len (List.contains_iff_mem.mp hv)
  | write ptr off src => exact hK.comes_write ptr off src (List.contains_iff_mem.mp hv)
  | verify ptr =>
    have ha : Alike h (mmVerify P ptr.toNat h).2 := Respects.step h
    have hh : Hushed h (mmVerify P ptr.toNat h).2 := Respects.step h
    exact ⟨L, .alike rfl (.looked rfl) ha (.inl hh.stats), hK.alike ha⟩
  | checkHeap =>
    have ha : Alike h (mmCheckHeap P h).2 := Respects.step h
    have hh : Hushed h (mmCheckHeap P h).2 := Respects.step h
    exact ⟨L, .alike rfl (.looked rfl) ha (.inl hh.stats), hK.alike ha⟩
  | scrub budget =>
    obtain ⟨st, h', hrun, hi, -⟩ :=
      hK.thriving.sound.run_scrub hK.thriving.settled hK.thriving.spans_ne budget.toNat
    have hcall : (Call.scrub budget).run P h = (.status st, h') := by
      rw [Call.run, mmScrub, Prog.bind_run_of_eq hrun]
      rfl
    have hs := hi.stayed hK.thriving hK.busy
    rw [Heap.Comes, hcall]
    exact ⟨L, .stayed rfl (.looked rfl) hs, hs.kempt hK⟩
  | setMode mode => exact hK.comes_setMode mode
  | setScrubInterval ops budget =>
    have hT' : (mmSetScrubInterval ops.toNat budget.toNat h).2.Thriving P L :=
      hK.thriving.configured ⟨rfl, rfl, rfl⟩ rfl
    exact ⟨L, .tuned, hT', hK.busy, hK.backing.congr rfl⟩

end Heap.Kempt

end Mars
