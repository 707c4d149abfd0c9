import MarsAllocator.Model.Arena

namespace Mars

open StateProgram

variable (P : Profile)

/-! ### Splitting and coalescing -/

/-- The forward half of `absorb_neighbours`: the extent of `b` afterwards, or nothing when `b`
stopped standing up. -/
def absorbNext (s : Span) (b own : Nat) : HeapM (Option Nat) := do
  let n ← blockEnd b
  if s.hi ≤ n then pure (some own)
  else do
    let mergeable ← Prog.and (headerOk P n) do
      let used ← isUsed n
      return !used
    if !mergeable then pure (some own)
    else do
      let theirs ← blockSize n
      binRemove P n
      if ← unchanged P b own true then
        if ← unchanged P n theirs false then
          setBlockSize b (own + theirs)
          let e ← blockEnd b
          scrubForget b e
          sealHeader P b
          pure (some (own + theirs))
        else do
          quarantine P n
          fail .corruptHeader
          pure (some own)
      else do
        quarantine P b
        fail .corruptHeader
        pure none

/-- The backward half: the block now spanning the run, or NULL when `b` stopped standing up. -/
def absorbPrev (b own : Nat) : HeapM Nat := do
  let prev ← prevFreeBlock P b
  if prev = 0 then pure b
  else do
    let before ← blockSize prev
    binRemove P prev
    if ← unchanged P b own true then
      if ← unchanged P prev before false then
        setWord prev (before + own) P.trail true false
        let e ← blockEnd prev
        scrubForget prev e
        sealHeader P prev
        pure prev
      else do
        quarantine P prev
        fail .corruptHeader
        pure b
    else do
      quarantine P b
      fail .corruptHeader
      pure 0

def absorbNeighbours (b : Nat) : HeapM Nat := do
  let own ← blockSize b
  withSpanOf b (pure 0) fun s => do
    let own ← absorbNext P s b own
    Prog.elim own (pure 0) (absorbPrev P b)

def setTrimAfter (s : Span) : HeapM Unit :=
  Prog.modify fun h => { h with
    trimAfter := Function.update h.trimAfter s.lo (h.ops + trimInterval) }

def reclaimIn (s : Span) (b : Nat) : HeapM Unit := do
  let e ← blockEnd b
  if s.kind = .large ∧ b = s.lo ∧ e = s.hi then do
    binRemove P b
    arenaReleaseSpan s
  else do
    let n ← blockSize b
    let due ← Prog.read fun h => decide (h.trimAfter s.lo ≤ h.ops)
    Prog.when (dontneedMin ≤ n ∧ due) do
      let e ← blockEnd b
      arenaReleasePages (payloadOf P b + 2 * 8) (e - 8)
      setTrimAfter s

def reclaim (b : Nat) : HeapM Unit :=
  withSpanOf b (pure ()) fun s =>
    if s.kind = .user then pure ()
    else do
      let used ← isUsed b
      Prog.when (!used) (reclaimIn P s b)

def releaseBlock (b : Nat) : HeapM Unit := do
  let n ← blockSize b
  setWord b n 0 false false
  setPayloadCrc P b 0
  let published ← publish P b
  Prog.when published (binInsert P b)

/-- The header of a block born in use at `b`, extending over `n` bytes. -/
def writeTail (b n : Nat) : HeapM Unit := do
  store64 b 0
  setPayloadCrc P b 0
  setWord b n P.trail true false
  setPrevInUse b true
  sealHeader P b

def splitBlock (b need : Nat) : HeapM Unit := do
  let n ← blockSize b
  Prog.when (P.minBlock ≤ usub n need) do
    setBlockSize b need
    sealHeader P b
    writeTail P (b + need) (usub n need)
    let run ← absorbNeighbours P (b + need)
    Prog.when (run ≠ 0) (releaseBlock P run)

def finishAllocation (b size : Nat) : HeapM Bool := do
  let total ← blockSize b
  let give ← Prog.read fun h =>
    if h.mode = .libc then usub (usub total P.hdrSize) P.trail else size
  setWord b total (usub (usub total P.hdrSize) give) true false
  writeCanary P b
  publish P b

/-! ### Allocation -/

/-- The first block of a span just mapped, where it holds `need` bytes. -/
def growFor (need : Nat) : HeapM Nat := do
  let growable ← Prog.read Heap.growable
  if !growable then pure 0
  else do
    let s ← (if largeThreshold < need then arenaMapLarge P need else arenaGrow P need)
    Prog.elim s (pure 0) fun s => do
      let ok ← Prog.and (headerOk P s.lo) do
        let used ← isUsed s.lo
        let n ← blockSize s.lo
        return !used && need ≤ n
      return if ok then s.lo else 0

/-- The block an allocation of extent `need` is to be carved from, still in its bin. -/
def chooseBlock (need : Nat) : HeapM Nat := do
  let dedicated ← Prog.read fun h => h.growable && largeThreshold < need
  let b ← (if dedicated then pure 0 else binFind P need)
  let b ← (if b = 0 then growFor P need else pure b)
  if b = 0 ∧ dedicated then binFind P need else pure b

/-- Carves `size` bytes out of the free block `b`, which has just left its bin whole. -/
def carve (b found need size : Nat) : HeapM (Nat × Nat) := do
  let anyFresh ← Prog.read fun h => h.freshSpans != 0
  let dirty ← (if anyFresh then spanTakeFresh b else pure sizeMax)
  setWord b found 0 true false
  sealHeader P b
  splitBlock P b need
  setPayloadCrc P b 0
  if ← finishAllocation P b size then
    statNote .alloc size
    statAdd P b
    scrubTick P
    pure (payloadOf P b, dirty)
  else do
    scrubTick P
    pure (0, dirty)

/-- The pointer, and the dirty prefix `mm_malloc_fresh` reports. -/
def mallocUnlocked (size : Nat) : HeapM (Nat × Nat) := do
  clearError
  if !(← arenaLive) then
    fail .notInitialized
    pure (0, sizeMax)
  else if size = 0 ∨ sizeFor P size = 0 then do
    fail .nomem
    pure (0, sizeMax)
  else do
    let b ← chooseBlock P (sizeFor P size)
    if b = 0 then do
      statNote .allocFailed 0
      fail .nomem
      scrubTick P
      pure (0, sizeMax)
    else do
      let found ← blockSize b
      binRemove P b
      if ← unchanged P b found false then carve P b found (sizeFor P size) size
      else do
        quarantine P b
        fail .corruptLinks
        scrubTick P
        pure (0, sizeMax)

/-! ### Release -/

def blockOf (ptr : Nat) : HeapM Nat := do
  if !(← arenaLive) then
    fail .notInitialized
    pure 0
  else
    let s ← Prog.read fun h => if ptr = 0 then none else h.spanOf ptr
    let refuse : HeapM Nat := do
      fail .invalidPtr
      pure 0
    Prog.elim s refuse fun s =>
      if ptr < s.lo + P.hdrSize ∨ (ptr - (s.lo + P.hdrSize)) % alignment ≠ 0 then refuse
      else do
        let ok ← isBlock P (ptr - P.hdrSize)
        if ok then pure (ptr - P.hdrSize) else refuse

def liveBlock (ptr : Nat) : HeapM Nat := do
  let b ← blockOf P ptr
  if b = 0 then pure 0
  else do
    let sound ← (do
      if ← headerOk P b then pure true else rescue P b)
    if !sound then pure 0
    else if ← isQuarantined b then
      fail .quarantined
      pure 0
    else pure b

def freeUnlocked (ptr : Nat) : HeapM Unit := do
  clearError
  let b ← liveBlock P ptr
  Prog.when (b ≠ 0) do
    if !(← isUsed b) then fail .doubleFree
    else if !(← canaryOk P b) then quarantine P b
    else do
      let r ← requestedSize P b
      statNote .free r
      statSub P b
      let run ← absorbNeighbours P b
      Prog.when (run ≠ 0) do
        releaseBlock P run
        reclaim P run
      scrubTick P

/-! ### Resize -/

def payloadCrcLive : HeapM Bool := Prog.read fun h => P.hasCrc && h.mode == .managed

def carryPayloadCrc (b oldSize oldSum newSize : Nat) : HeapM Unit := do
  let live ← payloadCrcLive P
  if live ∧ oldSum ≠ 0 ∧ newSize ≤ oldSize then do
    let v ← loadN (payloadOf P b) newSize
    setPayloadCrc P b (payloadCrcOf v newSize)
  else setPayloadCrc P b 0

/-- What both in-place resizes end with: trim to `need`, carry the checksum, restamp. -/
def trimResized (b need oldSize oldSum newSize : Nat) : HeapM Nat := do
  splitBlock P b need
  carryPayloadCrc P b oldSize oldSum newSize
  if ← finishAllocation P b newSize then
    statAdd P b
    scrubTick P
    pure (payloadOf P b)
  else do
    scrubTick P
    pure 0

/-- Whether the block at `n`, the one after a block of extent `own`, can be absorbed to reach
`need`; its extent if so. -/
def growNeighbour (s : Span) (n own need : Nat) : HeapM (Option Nat) :=
  if s.hi ≤ n then pure none
  else do
    let mergeable ← Prog.and (headerOk P n) do
      let used ← isUsed n
      return !used
    if mergeable then
      let theirs ← blockSize n
      return if need ≤ own + theirs then some theirs else none
    else pure none

def reallocGrow (b own theirs need oldSize oldSum newSize : Nat) : HeapM Nat := do
  statSub P b
  binRemove P (b + own)
  if ← unchanged P b own true then
    if ← unchanged P (b + own) theirs false then
      setBlockSize b (own + theirs)
      let e ← blockEnd b
      scrubForget b e
      sealHeader P b
      trimResized P b need oldSize oldSum newSize
    else do
      statAdd P b
      quarantine P (b + own)
      fail .corruptHeader
      pure 0
  else do
    quarantine P b
    fail .corruptHeader
    pure 0

/-- How a resize of a live block went: finished in place, refused ones included, or still to be
done by moving it. -/
inductive Resize where
  | done (p : Nat)
  | move (oldSize oldSum : Nat)

def resizeLive (b newSize : Nat) : HeapM Resize := do
  statNote .realloc newSize
  let oldSize ← requestedSize P b
  let oldSum ← payloadCrc P b
  let own ← blockSize b
  if sizeFor P newSize ≤ own then do
    statSub P b
    let p ← trimResized P b (sizeFor P newSize) oldSize oldSum newSize
    pure (.done p)
  else do
    let s ← Prog.read fun h => h.spanOf b
    let theirs ← Prog.elim s (pure none) fun s =>
      growNeighbour P s (b + own) own (sizeFor P newSize)
    Prog.elim theirs (pure (.move oldSize oldSum)) fun theirs => do
      let p ← reallocGrow P b own theirs (sizeFor P newSize) oldSize oldSum newSize
      pure (.done p)

def reallocInPlace (ptr newSize : Nat) : HeapM Resize := do
  let b ← liveBlock P ptr
  if b = 0 then pure (.done 0)
  else if !(← isUsed b) then
    fail .doubleFree
    pure (.done 0)
  else if !(← canaryOk P b) then
    quarantine P b
    pure (.done 0)
  else if sizeFor P newSize = 0 then do
    fail .nomem
    pure (.done 0)
  else resizeLive P b newSize

/-- Allocates elsewhere and copies: the new pointer, or NULL with the old block as it was. -/
def reallocCopy (ptr oldSize oldSum newSize : Nat) : HeapM Nat := do
  let fresh ← mallocUnlocked P newSize
  if fresh.1 = 0 then pure 0
  else do
    memcpy fresh.1 ptr (min oldSize newSize)
    let fb ← blockOf P fresh.1
    Prog.when (fb ≠ 0) do
      carryPayloadCrc P fb (min oldSize newSize) oldSum newSize
      sealHeader P fb
    pure fresh.1

def reallocMove (ptr oldSize oldSum newSize : Nat) : HeapM Nat := do
  let fresh ← reallocCopy P ptr oldSize oldSum newSize
  Prog.when (fresh ≠ 0) (freeUnlocked P ptr)
  pure fresh

def reallocUnlocked (ptr newSize : Nat) : HeapM Nat := do
  clearError
  if ptr = 0 then do
    let fresh ← mallocUnlocked P newSize
    pure fresh.1
  else if newSize = 0 then do
    freeUnlocked P ptr
    pure 0
  else do
    let r ← reallocInPlace P ptr newSize
    match r with
    | .done p => pure p
    | .move oldSize oldSum => reallocMove P ptr oldSize oldSum newSize

/-! ### Aligned allocation -/

/-- The loop that moves the aligned address on until the front can stand as a block. -/
def advanceWant (align raw : Nat) : (fuel : Nat) → (want : Nat) → Nat
  | 0, want => want
  | fuel + 1, want =>
      if usub want raw < P.minBlock then advanceWant align raw fuel (uadd want align) else want

def alignedIn (align raw : Nat) : Nat := advanceWant P align raw 64 (roundUp raw align)

/-- How far into the over-allocation at `raw` the aligned address lies. -/
def frontIn (align raw : Nat) : Nat := usub (alignedIn P align raw) raw

/-- Cuts `front` bytes off the block at `b`, so that what is handed out has its payload at
`want`. -/
def memalignCut (b total front want need size : Nat) : HeapM Nat := do
  statSub P b
  setBlockSize b front
  sealHeader P b
  writeTail P (want - P.hdrSize) (total - front)
  splitBlock P (want - P.hdrSize) need
  if ← finishAllocation P (want - P.hdrSize) size then
    statAdd P (want - P.hdrSize)
    let run ← absorbNeighbours P b
    Prog.when (run ≠ 0) do
      releaseBlock P run
      reclaim P run
    scrubTick P
    pure want
  else do
    scrubTick P
    pure 0

def memalignFrom (align raw size : Nat) : HeapM Nat := do
  let b ← blockOf P raw
  if b = 0 then pure raw
  else do
    let total ← blockSize b
    if sizeFor P size = 0 ∨ total < uadd (frontIn P align raw) (sizeFor P size) then do
      freeUnlocked P raw
      fail .nomem
      pure 0
    else
      memalignCut P b total (frontIn P align raw) (alignedIn P align raw) (sizeFor P size) size

/-- Room for an aligned address with a whole block in front of it. -/
def memalignPad (align : Nat) : Nat := uadd (2 * align % 2 ^ 64) P.minBlock

def memalignUnlocked (align size : Nat) : HeapM Nat :=
  if align ≤ alignment then do
    let p ← mallocUnlocked P size
    pure p.1
  else
    if sizeMax - memalignPad P align < size then do
      clearError
      fail .nomem
      pure 0
    else do
      let raw ← mallocUnlocked P (size + memalignPad P align)
      if raw.1 = 0 then pure 0 else memalignFrom P align raw.1 size

end Mars
