import MarsAllocator.Model.Freelist

namespace Mars

open StateProgram

variable (P : Profile)

def scrubForget (lo hi : Nat) : HeapM Unit :=
  Prog.modify fun h => if lo < h.scrubAt ∧ h.scrubAt < hi then { h with scrubAt := lo } else h

def addLost (n : Nat) : HeapM Unit :=
  Prog.modify fun h => { h with lostBytes := h.lostBytes + n }

/-- Writes `used` into the PREV_IN_USE of a block that is known to stand up. -/
def relink (n : Nat) (used : Bool) : HeapM Unit := do
  let p ← prevInUse n
  Prog.when (p ≠ used) do
    setPrevInUse n used
    sealHeader P n

def sealAndLink (b : Nat) : HeapM Unit := do
  let used ← isUsed b
  Prog.when (!used) (writeFreeFooter b)
  sealHeader P b
  withSpanOf b (pure ()) fun s => do
    let n ← blockEnd b
    Prog.when (n < s.hi) do
      let ok ← headerOk P n
      Prog.when ok do
        let used ← isUsed b
        relink P n used

/-! ### Stepping backwards -/

def prevFreeBlock (b : Nat) : HeapM Nat := do
  if ← prevInUse b then pure 0
  else withSpanOf b (pure 0) fun s =>
    if b - s.lo < P.minBlock then pure 0
    else do
      let n ← readPrevFooter b
      if n < P.minBlock ∨ n % alignment ≠ 0 ∨ b - s.lo < n then pure 0
      else do
        let ok ← Prog.and (headerOk P (b - n)) do
          let size ← blockSize (b - n)
          let used ← isUsed (b - n)
          return size == n && !used
        return if ok then b - n else 0

/-! ### Recovery primitives -/

def recoverySteps : Nat := 65536

def tilingAgrees (s : Span) (b : Nat) : HeapM Bool := do
  let e ← blockEnd b
  if e = s.hi then pure true
  else if usub s.hi e < P.minBlock then pure false
  else extentCorroborated P e

def scanResyncFrom (s : Span) : (steps : Nat) → (p : Nat) → HeapM Nat
  | 0, _ => pure 0
  | steps + 1, p =>
      if p < s.hi ∧ P.minBlock ≤ s.hi - p then do
        if ← Prog.and (extentCorroborated P p) (tilingAgrees P s p) then pure p
        else scanResyncFrom s steps (p + alignment)
      else pure 0

/-- NULL, or where the tiling can be picked up again after a lost extent at `start`. -/
def scanResync (s : Span) (start : Nat) : HeapM Nat :=
  scanResyncFrom P s recoverySteps (start + P.minBlock)

def abandon (start span : Nat) (prevUsed : Bool) : HeapM Nat :=
  if span < P.minBlock then do
    fail .corruptLinks
    pure 0
  else do
    store64 start 0
    setPayloadCrc P start 0
    setWord start span 0 true true
    setPrevInUse start prevUsed
    scrubForget start (start + span)
    sealAndLink P start
    addLost span
    statNote .quarantine span
    fail .corruptLinks
    pure start

/-- A header read back from a tail mirror, and where the block it describes starts. -/
structure Mirror where
  raw : Nat
  start : Nat

/-- The word of a header held as one 16-byte number. -/
def Mirror.word (m : Mirror) : Nat := m.raw % 2 ^ 64

def mirrorAt (s : Span) (loBound resync raw : Nat) (secret : Nat) : Option Mirror :=
  let w := raw % 2 ^ 64
  let n := wordSize w
  if n < P.minBlock ∨ resync - loBound < n then none
  else if !wordUsed w then none
  else if (resync - n - s.lo) % alignment ≠ 0 then none
  else if (raw >>> 64) % 2 ^ 32 ≠
      hdrCrcOf w ((raw >>> 96) % 2 ^ 32) (indexIn s (resync - n)) secret then none
  else some ⟨raw, resync - n⟩

def mirrorSays (s : Span) (loBound resync : Nat) : HeapM (Option Mirror) :=
  if P.hasMirror ∧ resync ≠ 0 then do
    let raw ← loadN (resync - P.mirrorSize) P.hdrSize
    Prog.read fun h => mirrorAt P s loBound resync raw h.secret
  else pure none

/-- Puts a mirrored header back at `m.start`. -/
def restore (m : Mirror) (prevUsed : Bool) : HeapM Unit := do
  storeN m.start P.hdrSize m.raw
  setPrevInUse m.start prevUsed
  sealAndLink P m.start
  let n ← blockSize m.start
  statNote .repair n

def lostRun (s : Span) (start resync : Nat) : Nat :=
  if resync ≠ 0 then resync - start else s.hi - start

def rescueIn (s : Span) (b : Nat) : HeapM Bool := do
  let resync ← scanResync P s b
  let prevUsed ← prevInUse b
  let mirror ← mirrorSays P s b resync
  Prog.elim (mirror.filter fun m => m.start = b)
    (do
      let _ ← abandon P b (lostRun s b resync) prevUsed
      pure false)
    fun m => do
      restore P m prevUsed
      fail .corruptHeader
      pure true

def rescue (b : Nat) : HeapM Bool := do
  if ← headerOk P b then pure true
  else if ← isBlockStart P b then withSpanOf b (pure false) fun s => rescueIn P s b
  else pure false

def recoverAt (s : Span) (owner start : Nat) : HeapM Nat := do
  let resync ← scanResync P s start
  let ownerUsed ← isUsed owner
  let mirror ← mirrorSays P s start resync
  Prog.elim mirror (abandon P start (lostRun s start resync) ownerUsed) fun m =>
    if m.start = start then do
      restore P m ownerUsed
      fail .corruptHeader
      pure start
    else if P.minBlock ≤ m.start - start then do
      -- The abandoned run counts as allocated, whatever the mirror says precedes it.
      restore P m true
      abandon P start (m.start - start) ownerUsed
    else abandon P start (lostRun s start resync) ownerUsed

def recoverNext (owner : Nat) : HeapM Nat :=
  withSpanOf owner (pure 0) fun s => do
    let start ← blockEnd owner
    if s.hi ≤ start then pure 0
    else if s.hi - start < P.minBlock then pure 0
    else if ← headerOk P start then pure start
    else recoverAt P s owner start

def publish (b : Nat) : HeapM Bool := do
  if ← isBlock P b then
    let used ← isUsed b
    Prog.when (!used) (writeFreeFooter b)
    sealHeader P b
    let n ← recoverNext P b
    Prog.when (n ≠ 0) do
      let used ← isUsed b
      relink P n used
    pure true
  else do
    fail .corruptHeader
    let _ ← rescue P b
    pure false

def quarantine (b : Nat) : HeapM Unit := do
  if ← isBlockStart P b then
    if ← headerOk P b then
      if ← isQuarantined b then fail .quarantined
      else do
        let n ← blockSize b
        let used ← isUsed b
        let whole ← (if used then pure true
          else do
            binRemove P b
            unchanged P b n false)
        if whole then do
          setWord b n 0 true true
          setPayloadCrc P b 0
          if ← publish P b then
            addLost n
            statNote .quarantine n
            fail .quarantined
          else pure ()
        else do
          fail .corruptLinks
          let _ ← rescue P b
          pure ()
    else do
      let _ ← rescue P b
      pure ()
  else pure ()

end Mars
