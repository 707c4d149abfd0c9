import MarsAllocator.Model.Interface

namespace Mars

open ByteMemory StateProgram

/-- One step of the code underneath an entry point that maps and unmaps nothing: a status is
only ever raised, `lost_bytes` only ever grows. -/
inductive CoreStep : Heap → Heap → Prop
  | touch (h : Heap) (a n : Nat) : CoreStep h (h.touch a n)
  | store (h : Heap) (mem : Memory) : CoreStep h { h with mem := mem }
  | raise (h : Heap) (status : Status) (hs : status ≠ .ok) :
      CoreStep h { h with lastError := status, raised := status :: h.raised }
  | file (h : Heap) (bins : Nat → Nat) (binBitmap : Nat → BitVec 64) :
      CoreStep h { h with bins := bins, binBitmap := binBitmap }
  | lose (h : Heap) (n : Nat) : CoreStep h { h with lostBytes := h.lostBytes + n }
  | patrol (h : Heap) (scrubSpan : Option Span) (scrubAt : Nat) :
      CoreStep h { h with scrubSpan := scrubSpan, scrubAt := scrubAt }
  | count (h : Heap) (stats : Stats) (ops opsSinceScrub : Nat) :
      CoreStep h { h with stats := stats, ops := ops, opsSinceScrub := opsSinceScrub }

/-- A step of the code that gets spans from the platform and gives them back. -/
inductive SpanStep : Heap → Heap → Prop
  | supply (h : Heap) (supply : List (Option Nat)) (mem : Memory) :
      SpanStep h { h with supply := supply, mem := mem }
  | spans (h : Heap) (registry spans : List Span) (spanCount totalBytes nextIndexBase : Nat) :
      SpanStep h { h with
        registry := registry
        spans := spans
        spanCount := spanCount
        totalBytes := totalBytes
        nextIndexBase := nextIndexBase }
  | fresh (h : Heap) (freshSpans : Nat) (fresh : Nat → Bool) (trimAfter : Nat → Nat) :
      SpanStep h { h with freshSpans := freshSpans, fresh := fresh, trimAfter := trimAfter }

/-- Closed under the steps of code that only looks. -/
class LookClosed (R : Heap → Heap → Prop) : Prop extends Std.Refl R, IsTrans Heap R where
  touch : ∀ h a n, R h (Heap.touch h a n)

/-- Closed under the steps of code that raises nothing. -/
class StoreClosed (R : Heap → Heap → Prop) : Prop extends LookClosed R where
  store : ∀ (h : Heap) (mem : Memory), R h { h with mem := mem }
  tally : ∀ (h : Heap) (stats : Stats), R h { h with stats := stats }

class CoreClosed (R : Heap → Heap → Prop) : Prop extends Std.Refl R, IsTrans Heap R where
  core : ∀ {h h'}, CoreStep h h' → R h h'

/-- Closed under the steps that leave the patrol in the span it is in. -/
class BlockClosed (R : Heap → Heap → Prop) : Prop extends Std.Refl R, IsTrans Heap R where
  block : ∀ {h h'}, CoreStep h h' → h'.scrubSpan = h.scrubSpan → R h h'

instance (R : Heap → Heap → Prop) [hR : CoreClosed R] : BlockClosed R where
  block hs _ := hR.core hs

instance (R : Heap → Heap → Prop) [hR : BlockClosed R] : StoreClosed R where
  touch h a n := hR.block (.touch h a n) rfl
  store h mem := hR.block (.store h mem) rfl
  tally h stats := hR.block (.count h stats h.ops h.opsSinceScrub) rfl

class StepClosed (R : Heap → Heap → Prop) : Prop extends CoreClosed R where
  span : ∀ {h h'}, SpanStep h h' → R h h'

/-- A status that `mm_fail` is called with. -/
class Status.Raisable (status : Status) : Prop where
  ne_ok : status ≠ .ok

instance : Status.Raisable .notInitialized := ⟨by decide⟩
instance : Status.Raisable .invalidPtr := ⟨by decide⟩
instance : Status.Raisable .oob := ⟨by decide⟩
instance : Status.Raisable .corruptHeader := ⟨by decide⟩
instance : Status.Raisable .corruptCanary := ⟨by decide⟩
instance : Status.Raisable .corruptPayload := ⟨by decide⟩
instance : Status.Raisable .corruptLinks := ⟨by decide⟩
instance : Status.Raisable .doubleFree := ⟨by decide⟩
instance : Status.Raisable .nomem := ⟨by decide⟩
instance : Status.Raisable .quarantined := ⟨by decide⟩
instance : Status.Raisable .degraded := ⟨by decide⟩

set_option synthInstance.maxSize 100000

namespace LookClosed

variable {R : Heap → Heap → Prop} [hR : LookClosed R] (P : Profile) (s : Span)

instance loadN (a n : Nat) : Respects R (loadN a n) := ⟨fun h => hR.touch h a n⟩

instance load64 (a : Nat) : Respects R (load64 a) := by unfold Mars.load64; infer_instance

instance withSpanOf {α : Type} (p : Nat) (miss : HeapM α) (hit : Span → HeapM α) [Respects R miss]
    [∀ s, Respects R (hit s)] : Respects R (withSpanOf p miss hit) := by
  unfold Mars.withSpanOf; infer_instance

instance blockIndex (b : Nat) : Respects R (blockIndex b) := by
  unfold Mars.blockIndex; infer_instance

instance blockSize (b : Nat) : Respects R (blockSize b) := by unfold Mars.blockSize; infer_instance

instance isUsed (b : Nat) : Respects R (isUsed b) := by unfold Mars.isUsed; infer_instance

instance prevInUse (b : Nat) : Respects R (prevInUse b) := by unfold Mars.prevInUse; infer_instance

instance isQuarantined (b : Nat) : Respects R (isQuarantined b) := by
  unfold Mars.isQuarantined; infer_instance

instance payloadCrc (b : Nat) : Respects R (payloadCrc P b) := by
  unfold Mars.payloadCrc; infer_instance

instance requestedSize (b : Nat) : Respects R (requestedSize P b) := by
  unfold Mars.requestedSize; infer_instance

instance blockEnd (b : Nat) : Respects R (blockEnd b) := by unfold Mars.blockEnd; infer_instance

instance freeLinkGet (b : Nat) (which : Link) : Respects R (freeLinkGet P b which) := by
  unfold Mars.freeLinkGet; infer_instance

instance readPrevFooter (b : Nat) : Respects R (readPrevFooter b) := by
  unfold Mars.readPrevFooter; infer_instance

instance blockOkIn (b : Nat) : Respects R (blockOkIn P s b) := by
  unfold Mars.blockOkIn; infer_instance

instance isBlockStart (b : Nat) : Respects R (isBlockStart P b) := by
  unfold Mars.isBlockStart; infer_instance

instance isBlock (b : Nat) : Respects R (isBlock P b) := by unfold Mars.isBlock; infer_instance

instance hdrCrcMatches (b : Nat) : Respects R (hdrCrcMatches P s b) := by
  unfold Mars.hdrCrcMatches; infer_instance

instance headerOk (b : Nat) : Respects R (headerOk P b) := by unfold Mars.headerOk; infer_instance

instance extentCorroborated (b : Nat) : Respects R (extentCorroborated P b) := by
  unfold Mars.extentCorroborated; infer_instance

instance unchanged (b size : Nat) (used : Bool) : Respects R (unchanged P b size used) := by
  unfold Mars.unchanged; infer_instance

instance canaryAt (b : Nat) : Respects R (canaryAt P b) := by unfold Mars.canaryAt; infer_instance

instance canaryOk (b : Nat) : Respects R (canaryOk P b) := by unfold Mars.canaryOk; infer_instance

instance payloadOk (b : Nat) : Respects R (payloadOk P b) := by
  unfold Mars.payloadOk; infer_instance

end LookClosed

namespace StoreClosed

variable {R : Heap → Heap → Prop} [hR : StoreClosed R] (P : Profile) (s : Span)

instance storeN (a n v : Nat) : Respects R (storeN a n v) :=
  ⟨fun h => hR.trans _ _ _ (hR.touch h a n) (hR.store _ (h.mem.store a n v))⟩

instance updateStats (f : Stats → Stats) : Respects R (updateStats f) :=
  ⟨fun h => hR.tally h (f h.stats)⟩

instance store64 (a v : Nat) : Respects R (store64 a v) := by unfold Mars.store64; infer_instance

instance memcpy (dst src n : Nat) : Respects R (memcpy dst src n) := by
  unfold Mars.memcpy; infer_instance

instance statNote (e : StatsEvent) (n : Nat) : Respects R (statNote e n) := by
  unfold Mars.statNote; infer_instance

instance setBlockSize (b n : Nat) : Respects R (setBlockSize b n) := by
  unfold Mars.setBlockSize; infer_instance

instance setPrevInUse (b : Nat) (used : Bool) : Respects R (setPrevInUse b used) := by
  unfold Mars.setPrevInUse; infer_instance

instance setWord (b n slack : Nat) (used quarantined : Bool) :
    Respects R (setWord b n slack used quarantined) := by unfold Mars.setWord; infer_instance

instance setPayloadCrc (b v : Nat) : Respects R (setPayloadCrc P b v) := by
  unfold Mars.setPayloadCrc; infer_instance

instance freeLinkSet (b : Nat) (which : Link) (p : Nat) : Respects R (freeLinkSet P b which p) := by
  unfold Mars.freeLinkSet; infer_instance

instance writeFreeFooter (b : Nat) : Respects R (writeFreeFooter b) := by
  unfold Mars.writeFreeFooter; infer_instance

instance statAdd (b : Nat) : Respects R (statAdd P b) := by unfold Mars.statAdd; infer_instance

instance statSub (b : Nat) : Respects R (statSub P b) := by unfold Mars.statSub; infer_instance

instance writeCanary (b : Nat) : Respects R (writeCanary P b) := by
  unfold Mars.writeCanary; infer_instance

instance sealHeader (b : Nat) : Respects R (sealHeader P b) := by
  unfold Mars.sealHeader sealCrc sealMirror; infer_instance

end StoreClosed

namespace BlockClosed

variable {R : Heap → Heap → Prop} [hR : BlockClosed R] (P : Profile) (s : Span)

instance fail (status : Status) [hs : status.Raisable] : Respects R (fail status) :=
  ⟨fun h => hR.block (.raise h status hs.ne_ok) rfl⟩

instance bitmapSet (bin : Nat) : Respects R (bitmapSet bin) := ⟨fun h => hR.block (.file h _ _) rfl⟩

instance bitmapClear (bin : Nat) : Respects R (bitmapClear bin) := ⟨fun h => hR.block (.file h _ _) rfl⟩

instance setBin (bin b : Nat) : Respects R (setBin bin b) := ⟨fun h => hR.block (.file h _ _) rfl⟩

instance binsReset : Respects R binsReset := ⟨fun h => hR.block (.file h _ _) rfl⟩

instance nodeOk (b bin : Nat) : Respects R (nodeOk P b bin) := by unfold Mars.nodeOk; infer_instance

instance nextLinkOk (b bin next : Nat) : Respects R (nextLinkOk P b bin next) := by
  unfold Mars.nextLinkOk; infer_instance

instance prevLinkOk (b bin prev : Nat) : Respects R (prevLinkOk P b bin prev) := by
  unfold Mars.prevLinkOk; infer_instance

instance linksOk (b bin : Nat) : Respects R (linksOk P b bin) := by
  unfold Mars.linksOk; infer_instance

instance binPush (b bin : Nat) : Respects R (binPush P b bin) := by
  unfold Mars.binPush; infer_instance

instance rebuildSpan (budget p : Nat) : Respects R (rebuildSpan P s budget p) := by
  induction budget generalizing p with
  | zero => rw [Mars.rebuildSpan]; infer_instance
  | succ budget ih => rw [Mars.rebuildSpan]; infer_instance

instance rebuildSpans (spans : List Span) : Respects R (rebuildSpans P spans) := by
  induction spans with
  | nil => rw [Mars.rebuildSpans]; infer_instance
  | cons s rest ih => rw [Mars.rebuildSpans]; infer_instance

instance binsRebuild : Respects R (binsRebuild P) := by unfold Mars.binsRebuild; infer_instance

instance binOfBlock (b : Nat) : Respects R (binOfBlock P b) := by
  unfold Mars.binOfBlock; infer_instance

instance binInsert (b : Nat) : Respects R (binInsert P b) := by
  unfold Mars.binInsert; infer_instance

instance binUnlink (b bin : Nat) : Respects R (binUnlink P b bin) := by
  unfold Mars.binUnlink; infer_instance

instance binRemove (b : Nat) : Respects R (binRemove P b) := by
  unfold Mars.binRemove; infer_instance

instance scanBinFrom (bin need left back cur : Nat) :
    Respects R (scanBinFrom P bin need left back cur) := by
  induction left generalizing back cur with
  | zero => rw [Mars.scanBinFrom]; infer_instance
  | succ left ih => rw [Mars.scanBinFrom]; infer_instance

instance nextNonempty (start : Nat) : Respects R (nextNonempty start) := by
  unfold Mars.nextNonempty; infer_instance

instance binHead (bin : Nat) : Respects R (binHead P bin) := by unfold Mars.binHead; infer_instance

instance binProbe (need : Nat) : Respects R (binProbe P need) := by
  unfold Mars.binProbe scanBin; infer_instance

instance binFind (need : Nat) : Respects R (binFind P need) := by
  unfold Mars.binFind
  have h : ∀ attempts, Respects R (binFindFrom P need attempts) := by
    intro attempts
    induction attempts with
    | zero => rw [binFindFrom]; infer_instance
    | succ attempts ih => rw [binFindFrom]; infer_instance
  exact h 2

instance scrubForget (lo hi : Nat) : Respects R (scrubForget lo hi) := by
  refine ⟨fun h => ?_⟩
  rw [Mars.scrubForget, Prog.modify_run]
  split
  · exact hR.block (.patrol h _ _) rfl
  · exact hR.refl h

instance addLost (n : Nat) : Respects R (addLost n) := ⟨fun h => hR.block (.lose h n) rfl⟩

instance relink (n : Nat) (used : Bool) : Respects R (relink P n used) := by
  unfold Mars.relink; infer_instance

instance sealAndLink (b : Nat) : Respects R (sealAndLink P b) := by
  unfold Mars.sealAndLink; infer_instance

instance prevFreeBlock (b : Nat) : Respects R (prevFreeBlock P b) := by
  unfold Mars.prevFreeBlock; infer_instance

instance tilingAgrees (b : Nat) : Respects R (tilingAgrees P s b) := by
  unfold Mars.tilingAgrees; infer_instance

instance scanResync (start : Nat) : Respects R (scanResync P s start) := by
  have h : ∀ steps p, Respects R (scanResyncFrom P s steps p) := by
    intro steps
    induction steps with
    | zero => intro p; rw [scanResyncFrom]; infer_instance
    | succ steps ih => intro p; rw [scanResyncFrom]; infer_instance
  exact h recoverySteps _

instance abandon (start span : Nat) (prevUsed : Bool) : Respects R (abandon P start span prevUsed) := by
  unfold Mars.abandon; infer_instance

instance mirrorSays (loBound resync : Nat) : Respects R (mirrorSays P s loBound resync) := by
  unfold Mars.mirrorSays; infer_instance

instance restore (m : Mirror) (prevUsed : Bool) : Respects R (restore P m prevUsed) := by
  unfold Mars.restore; infer_instance

instance rescueIn (b : Nat) : Respects R (rescueIn P s b) := by unfold Mars.rescueIn; infer_instance

instance rescue (b : Nat) : Respects R (rescue P b) := by unfold Mars.rescue; infer_instance

instance recoverAt (owner start : Nat) : Respects R (recoverAt P s owner start) := by
  unfold Mars.recoverAt; infer_instance

instance recoverNext (owner : Nat) : Respects R (recoverNext P owner) := by
  unfold Mars.recoverNext; infer_instance

instance publish (b : Nat) : Respects R (publish P b) := by unfold Mars.publish; infer_instance

instance quarantine (b : Nat) : Respects R (quarantine P b) := by
  unfold Mars.quarantine; infer_instance

end BlockClosed

namespace CoreClosed

variable {R : Heap → Heap → Prop} [hR : CoreClosed R] (P : Profile) (s : Span)

instance scrubBlock (b : Nat) : Respects R (scrubBlock P b) := by
  unfold Mars.scrubBlock; infer_instance

instance lapSpan (lap : Lap) : Respects R (lapSpan lap) := by unfold Mars.lapSpan; infer_instance

instance scrubRescue (b : Nat) : Respects R (scrubRescue P b) := by
  unfold Mars.scrubRescue; infer_instance

instance scrubStep (lap : Lap) : Respects R (scrubStep P lap) := by
  unfold Mars.scrubStep; infer_instance

instance scrubLoop (budget guard : Nat) (lap : Lap) : Respects R (scrubLoop P budget guard lap) := by
  induction guard generalizing lap with
  | zero => rw [Mars.scrubLoop]; infer_instance
  | succ guard ih => rw [Mars.scrubLoop]; infer_instance

instance setCursor (p : Nat) : Respects R (setCursor s p) := ⟨fun h => hR.core (.patrol h _ _)⟩

theorem fail_found (found : Status) :
    Respects R (Prog.when (found ≠ .ok) (Mars.fail found)) := by
  by_cases hf : found = .ok
  · rw [Prog.when, if_neg (by simp [hf])]
    infer_instance
  · have : found.Raisable := ⟨hf⟩
    infer_instance

instance scrubEnd (lap : Lap) : Respects R (scrubEnd lap) := by
  have := fail_found (R := R) lap.found
  unfold Mars.scrubEnd
  infer_instance

instance scrubRun (budgetBlocks : Nat) : Respects R (scrubRun P budgetBlocks) := by
  unfold Mars.scrubRun maxBlocks; infer_instance

instance countOp : Respects R countOp := ⟨fun h => hR.core (.count h _ _ _)⟩

instance setOpsSinceScrub (n : Nat) : Respects R (setOpsSinceScrub n) :=
  ⟨fun h => hR.core (.count h _ _ _)⟩

instance scrubTick : Respects R (scrubTick P) := by unfold Mars.scrubTick; infer_instance

end CoreClosed

end Mars
