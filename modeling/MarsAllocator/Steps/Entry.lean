import MarsAllocator.Model.Growth
import MarsAllocator.Steps.Closed

namespace Mars

open StateProgram

set_option synthInstance.maxSize 100000

namespace CoreClosed

variable {R : Heap → Heap → Prop} [hR : CoreClosed R] (P : Profile) (s : Span)

instance arenaReleasePages (lo hi : Nat) : Respects R (arenaReleasePages lo hi) := by
  unfold Mars.arenaReleasePages; infer_instance

instance scrubEnter : Respects R (scrubEnter s) := by
  refine ⟨fun h => ?_⟩
  rw [Mars.scrubEnter, Prog.modify_run]
  split
  · exact hR.core (.patrol h _ _)
  · exact hR.refl h

instance scrubLeave : Respects R (scrubLeave s) := by
  refine ⟨fun h => ?_⟩
  rw [Mars.scrubLeave, Prog.modify_run]
  split
  · exact hR.core (.patrol h _ _)
  · exact hR.refl h

instance spanFormat : Respects R (spanFormat P s) := by unfold Mars.spanFormat; infer_instance

instance absorbNext (b own : Nat) : Respects R (absorbNext P s b own) := by
  unfold Mars.absorbNext; infer_instance

instance absorbPrev (b own : Nat) : Respects R (absorbPrev P b own) := by
  unfold Mars.absorbPrev; infer_instance

instance absorbNeighbours (b : Nat) : Respects R (absorbNeighbours P b) := by
  unfold Mars.absorbNeighbours; infer_instance

instance releaseBlock (b : Nat) : Respects R (releaseBlock P b) := by
  unfold Mars.releaseBlock; infer_instance

instance writeTail (b n : Nat) : Respects R (writeTail P b n) := by
  unfold Mars.writeTail; infer_instance

instance splitBlock (b need : Nat) : Respects R (splitBlock P b need) := by
  unfold Mars.splitBlock; infer_instance

instance finishAllocation (b size : Nat) : Respects R (finishAllocation P b size) := by
  unfold Mars.finishAllocation; infer_instance

instance blockOf (ptr : Nat) : Respects R (blockOf P ptr) := by
  unfold Mars.blockOf arenaLive; infer_instance

instance liveBlock (ptr : Nat) : Respects R (liveBlock P ptr) := by
  unfold Mars.liveBlock; infer_instance

instance checkedBlock (ptr offset len : Nat) : Respects R (checkedBlock P ptr offset len) := by
  unfold Mars.checkedBlock; infer_instance

instance carryPayloadCrc (b oldSize oldSum newSize : Nat) :
    Respects R (carryPayloadCrc P b oldSize oldSum newSize) := by
  unfold Mars.carryPayloadCrc payloadCrcLive; infer_instance

instance trimResized (b need oldSize oldSum newSize : Nat) :
    Respects R (trimResized P b need oldSize oldSum newSize) := by
  unfold Mars.trimResized; infer_instance

instance growNeighbour (n own need : Nat) : Respects R (growNeighbour P s n own need) := by
  unfold Mars.growNeighbour; infer_instance

instance reallocGrow (b own theirs need oldSize oldSum newSize : Nat) :
    Respects R (reallocGrow P b own theirs need oldSize oldSum newSize) := by
  unfold Mars.reallocGrow; infer_instance

instance resizeLive (b newSize : Nat) : Respects R (resizeLive P b newSize) := by
  unfold Mars.resizeLive; infer_instance

instance reallocInPlace (ptr newSize : Nat) : Respects R (reallocInPlace P ptr newSize) := by
  unfold Mars.reallocInPlace; infer_instance

instance readUnlocked (ptr offset len : Nat) : Respects R (readUnlocked P ptr offset len) := by
  unfold Mars.readUnlocked; infer_instance

instance writeUnlocked (ptr offset : Nat) (src : List UInt8) :
    Respects R (writeUnlocked P ptr offset src) := by
  unfold Mars.writeUnlocked payloadCrcLive; infer_instance

instance failWith (status : Status) [status.Raisable] : Respects R (failWith status) := by
  unfold Mars.failWith; infer_instance

instance verifyUnlocked (ptr : Nat) : Respects R (verifyUnlocked P ptr) := by
  unfold Mars.verifyUnlocked; infer_instance

instance checkFailed (status : Status) [status.Raisable] : Respects R (checkFailed status) := by
  unfold Mars.checkFailed; infer_instance

instance checkBlock (p : Nat) (t : Tally) : Respects R (checkBlock P p t) := by
  unfold Mars.checkBlock; infer_instance

instance checkSpan (budget p : Nat) (t : Tally) : Respects R (checkSpan P s budget p t) := by
  induction budget generalizing p t with
  | zero => rw [Mars.checkSpan]; infer_instance
  | succ budget ih =>
    rw [Mars.checkSpan]
    infer_instance

instance checkSpans (spans : List Span) (t : Tally) : Respects R (checkSpans P spans t) := by
  induction spans generalizing t with
  | nil => rw [Mars.checkSpans]; infer_instance
  | cons s rest ih => rw [Mars.checkSpans]; infer_instance

instance bitmapTest (bin : Nat) : Respects R (bitmapTest bin) := by
  unfold Mars.bitmapTest; infer_instance

instance binWalk (i budget back cur seen : Nat) : Respects R (binWalk P i budget back cur seen) := by
  induction budget generalizing back cur seen with
  | zero => rw [Mars.binWalk]; infer_instance
  | succ budget ih => rw [Mars.binWalk]; infer_instance

instance binsCheck (counts : Nat → Nat) : Respects R (binsCheck P counts) := by
  have h : ∀ left, Respects R (binsCheckFrom P counts left) := by
    intro left
    induction left with
    | zero => rw [binsCheckFrom]; infer_instance
    | succ left ih => rw [binsCheckFrom]; unfold Mars.binCheck maxBlocks; infer_instance
  exact h binCount

instance checkHeapUnlocked : Respects R (checkHeapUnlocked P) := by
  unfold Mars.checkHeapUnlocked arenaLive; infer_instance

instance forgetPayloadCrcsIn (budget p : Nat) : Respects R (forgetPayloadCrcsIn P s budget p) := by
  induction budget generalizing p with
  | zero => rw [Mars.forgetPayloadCrcsIn]; infer_instance
  | succ budget ih => rw [Mars.forgetPayloadCrcsIn]; infer_instance

instance forgetPayloadCrcs (spans : List Span) : Respects R (forgetPayloadCrcs P spans) := by
  induction spans with
  | nil => rw [Mars.forgetPayloadCrcs]; infer_instance
  | cons s rest ih => rw [Mars.forgetPayloadCrcs]; infer_instance

end CoreClosed

namespace StepClosed

variable {R : Heap → Heap → Prop} [hR : StepClosed R] (P : Profile) (s : Span)

instance sysMap (bytes : Nat) : Respects R (sysMap bytes) := by
  refine ⟨fun h => ?_⟩
  rcases hs : h.supply with _ | ⟨answer, rest⟩
  · simpa only [Mars.sysMap, hs] using hR.refl h
  · rcases answer with _ | raw
    · simpa only [Mars.sysMap, hs] using hR.span (.supply h rest h.mem)
    · simpa only [Mars.sysMap, hs] using hR.span (.supply h rest (h.mem.store raw bytes 0))

instance mapChunkAligned (bytes : Nat) : Respects R (mapChunkAligned bytes) := by
  unfold Mars.mapChunkAligned; infer_instance

instance spanRegister : Respects R (spanRegister s) := by
  refine ⟨fun h => ?_⟩
  rw [Mars.spanRegister, Prog.modify_run]
  split <;> exact hR.span (.spans h _ h.spans h.spanCount h.totalBytes h.nextIndexBase)

instance spanUnregister : Respects R (spanUnregister s) :=
  ⟨fun h => hR.span (.spans h _ h.spans h.spanCount h.totalBytes h.nextIndexBase)⟩

instance addSpan : Respects R (addSpan s) := ⟨fun h => hR.span (.spans h h.registry _ _ _ _)⟩

instance dropSpan : Respects R (dropSpan s) :=
  ⟨fun h => hR.span (.spans h h.registry _ _ _ h.nextIndexBase)⟩

instance setFresh (fresh : Bool) : Respects R (setFresh s fresh) :=
  ⟨fun h => hR.span (.fresh h h.freshSpans _ _)⟩

instance countFresh : Respects R countFresh := ⟨fun h => hR.span (.fresh h _ h.fresh h.trimAfter)⟩

instance forgetFresh : Respects R (forgetFresh s) := ⟨fun h => hR.span (.fresh h _ _ h.trimAfter)⟩

instance setTrimAfter : Respects R (setTrimAfter s) :=
  ⟨fun h => hR.span (.fresh h h.freshSpans h.fresh _)⟩

instance spanAdopt : Respects R (spanAdopt P s) := by unfold Mars.spanAdopt; infer_instance

instance mapSpan (size : Nat) (kind : SpanKind) : Respects R (mapSpan P size kind) := by
  unfold Mars.mapSpan; infer_instance

instance spanTakeFresh (b : Nat) : Respects R (spanTakeFresh b) := by
  unfold Mars.spanTakeFresh; infer_instance

instance arenaReleaseSpan : Respects R (arenaReleaseSpan s) := by
  unfold Mars.arenaReleaseSpan; infer_instance

instance reclaim (b : Nat) : Respects R (reclaim P b) := by
  unfold Mars.reclaim Mars.reclaimIn; infer_instance

end StepClosed

class MapClosed (P : Profile) (need : Nat) (R : Heap → Heap → Prop) : Prop where
  chunk : need ≠ 0 → Respects R (mapSpan P need .chunk)
  large : need ≠ 0 → Respects R (mapSpan P need .large)

/-- Closed under every step of a call that may map a span for `need` bytes, and reclaim one. -/
class CallClosed (P : Profile) (need : Nat) (R : Heap → Heap → Prop) : Prop extends CoreClosed R,
    MapClosed P need R where
  clear : Respects R clearError
  mode : ∀ mode, Respects R (Prog.modify fun h => { h with mode := mode })
  tune : ∀ ops budget, Respects R (mmSetScrubInterval ops budget)
  take : ∀ b, Respects R (spanTakeFresh b)
  reclaim : ∀ b, Respects R (reclaim P b)

namespace CoreClosed

variable {R : Heap → Heap → Prop} [CoreClosed R] (P : Profile)

instance growFor (need : Nat) [Respects R (mapSpan P need .chunk)]
    [Respects R (mapSpan P need .large)] : Respects R (growFor P need) := by
  unfold Mars.growFor arenaMapLarge arenaGrow; infer_instance

instance chooseBlock (need : Nat) [Respects R (mapSpan P need .chunk)]
    [Respects R (mapSpan P need .large)] : Respects R (chooseBlock P need) := by
  unfold Mars.chooseBlock; infer_instance

instance carve (b found need size : Nat) [∀ b, Respects R (spanTakeFresh b)] :
    Respects R (carve P b found need size) := by
  unfold Mars.carve; infer_instance

instance memalignCut (b total front want need size : Nat) [∀ b, Respects R (reclaim P b)] :
    Respects R (memalignCut P b total front want need size) := by
  unfold Mars.memalignCut; infer_instance

variable [Respects R clearError]

instance mallocUnlocked (size : Nat) [∀ b, Respects R (spanTakeFresh b)]
    [hm : MapClosed P (sizeFor P size) R] : Respects R (mallocUnlocked P size) := by
  unfold Mars.mallocUnlocked arenaLive
  by_cases hz : sizeFor P size = 0
  · simp only [hz, or_true, if_true]
    infer_instance
  · have hchunk := hm.chunk hz
    have hlarge := hm.large hz
    infer_instance

instance freeUnlocked (ptr : Nat) [∀ b, Respects R (reclaim P b)] :
    Respects R (freeUnlocked P ptr) := by
  unfold Mars.freeUnlocked; infer_instance

variable [∀ b, Respects R (spanTakeFresh b)] [∀ b, Respects R (reclaim P b)]

instance reallocUnlocked (ptr newSize : Nat) [MapClosed P (sizeFor P newSize) R] :
    Respects R (reallocUnlocked P ptr newSize) := by
  have hmatch : ∀ r : Resize, Respects R (match r with
      | .done p => pure p
      | .move oldSize oldSum => reallocMove P ptr oldSize oldSum newSize) := fun r => by
    cases r with
    | done p => infer_instance
    | move oldSize oldSum =>
      unfold reallocMove reallocCopy
      infer_instance
  unfold Mars.reallocUnlocked; infer_instance

instance memalignUnlocked (align size : Nat)
    [hm : MapClosed P (sizeFor P (paddedFor P align size)) R] :
    Respects R (memalignUnlocked P align size) := by
  unfold Mars.memalignUnlocked
  split
  · rename_i ha
    rw [paddedFor, if_pos ha] at hm
    infer_instance
  · rename_i ha
    rw [paddedFor, if_neg ha] at hm
    unfold memalignFrom
    infer_instance

instance mmWrite (ptr offset : Nat) (src : Source) : Respects R (mmWrite P ptr offset src) := by
  unfold Mars.mmWrite
  rcases src with ⟨_ | len⟩ | src <;> infer_instance

end CoreClosed

theorem CallClosed.call {P : Profile} {R : Heap → Heap → Prop} (c : Call)
    [hR : CallClosed P (sizeFor P (c.demand P)) R] : Respects R (c.run P) := by
  have hclear := hR.clear
  have hmode := hR.mode
  have htune := hR.tune
  have hmap := hR.toMapClosed
  have htake := hR.take
  have hreclaim := hR.reclaim
  cases c <;> unfold Call.run
  case malloc size =>
    change MapClosed P (sizeFor P size.toNat) R at hmap
    unfold mmMalloc
    infer_instance
  case free => unfold mmFree; infer_instance
  case realloc ptr size =>
    change MapClosed P (sizeFor P size.toNat) R at hmap
    unfold mmRealloc
    infer_instance
  case memalign align size =>
    change MapClosed P (sizeFor P (paddedFor P align.toNat size.toNat)) R at hmap
    unfold mmMemalign
    infer_instance
  case read => unfold mmRead; infer_instance
  case write => infer_instance
  case verify => unfold mmVerify; infer_instance
  case checkHeap => unfold mmCheckHeap; infer_instance
  case scrub => unfold mmScrub scrub arenaLive; infer_instance
  case setMode => unfold mmSetMode setModeUnlocked; infer_instance
  case setScrubInterval => infer_instance

end Mars
