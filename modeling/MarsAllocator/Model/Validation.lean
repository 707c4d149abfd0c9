import MarsAllocator.Model.Heap

namespace Mars

open StateProgram

variable (P : Profile)

/-- Asked of a `b` that lies in `[lo, hi)` of `s`. -/
def startOkIn (s : Span) (b : Nat) : Bool :=
  (b - s.lo) % alignment == 0 && P.minBlock ≤ s.hi - b

def blockOkIn (s : Span) (b : Nat) : HeapM Bool :=
  if !startOkIn P s b then pure false
  else do
    let n ← blockSize b
    return P.minBlock ≤ n && n ≤ s.hi - b

def isBlockStart (b : Nat) : HeapM Bool :=
  if b = 0 then pure false
  else withSpanOf b (pure false) fun s => pure (startOkIn P s b)

def isBlock (b : Nat) : HeapM Bool :=
  if b = 0 then pure false
  else withSpanOf b (pure false) fun s => blockOkIn P s b

def spanMaxBlocks (s : Span) : Nat := (s.hi - s.lo) / P.minBlock + 1

def maxBlocks : HeapM Nat := Prog.read fun h => h.totalBytes / P.minBlock + 1

/-- `b->hdr_crc == mm_hdr_crc_of(b, index, secret)`. -/
def hdrCrcMatches (s : Span) (b : Nat) : HeapM Bool := do
  let seen ← loadN (b + 8) 4
  let w ← load64 b
  let c ← payloadCrc P b
  Prog.read fun h => seen == hdrCrcOf w c (indexIn s b) h.secret

def headerOk (b : Nat) : HeapM Bool :=
  if b = 0 then pure false
  else withSpanOf b (pure false) fun s => do
    if ← blockOkIn P s b then
      if P.hasCrc then hdrCrcMatches P s b else pure true
    else pure false

def extentCorroborated (b : Nat) : HeapM Bool := do
  if ← headerOk P b then
    if P.hasCrc then pure true
    else if ← isUsed b then pure true
    else do
      let n ← blockSize b
      let tag ← load64 (b + n - 8)
      return tag == n
  else pure false

def unchanged (b size : Nat) (used : Bool) : HeapM Bool := do
  if ← headerOk P b then
    let n ← blockSize b
    let u ← isUsed b
    return n == size && u == used
  else pure false

def canaryAt (b : Nat) : HeapM Nat := do
  let r ← requestedSize P b
  return payloadOf P b + r

def writeCanary (b : Nat) : HeapM Unit :=
  if P.hasCanary then do
    let index ← blockIndex b
    let secret ← Prog.read Heap.secret
    let a ← canaryAt P b
    store64 a (canaryValue index secret)
  else pure ()

def canaryOk (b : Nat) : HeapM Bool :=
  if P.hasCanary then do
    let w ← load64 b
    if !wordUsed w || wordQuarantined w then pure true
    else do
      let a ← canaryAt P b
      let seen ← load64 a
      let index ← blockIndex b
      Prog.read fun h => seen == canaryValue index h.secret
  else pure true

/-- `b->payload_crc` is not established, or is the checksum of the payload as it stands. -/
def payloadOk (b : Nat) : HeapM Bool := do
  let c ← payloadCrc P b
  if c = 0 then pure true
  else do
    let r ← requestedSize P b
    let v ← loadN (payloadOf P b) r
    return payloadCrcOf v r == c

def sealCrc (b : Nat) : HeapM Unit :=
  if P.hasCrc then do
    let w ← load64 b
    let c ← payloadCrc P b
    let index ← blockIndex b
    let secret ← Prog.read Heap.secret
    storeN (b + 8) 4 (hdrCrcOf w c index secret)
  else pure ()

def sealMirror (b : Nat) : HeapM Unit :=
  if P.hasMirror then do
    if ← isUsed b then
      let e ← blockEnd b
      memcpy (e - P.mirrorSize) b P.hdrSize
    else pure ()
  else pure ()

/-- `mm_seal`. -/
def sealHeader (b : Nat) : HeapM Unit := do
  sealCrc P b
  sealMirror P b

end Mars
