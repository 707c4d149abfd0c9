import MarsAllocator.Library.StateProgram
import MarsAllocator.Model.Layout

namespace Mars

open ByteMemory StateProgram

inductive Status where
  | ok | notInitialized | badArena | invalidPtr | oob | corruptHeader | corruptCanary
  | corruptPayload | corruptLinks | doubleFree | nomem | quarantined | degraded
  deriving DecidableEq, Repr

inductive Mode where
  | managed | libc
  deriving DecidableEq, Repr

inductive SpanKind where
  | user | chunk | large
  deriving DecidableEq, Repr

/-- A span's descriptor, less `magic`, `fresh` and `trim_after`: the first is the registry's own
check, the other two change and live in `Heap`. -/
structure Span where
  lo : Nat
  hi : Nat
  owner : Nat
  indexBase : Nat
  mapBase : Nat
  mapSize : Nat
  kind : SpanKind
  deriving DecidableEq, Repr

structure Stats where
  allocCalls : Nat := 0
  allocFailures : Nat := 0
  freeCalls : Nat := 0
  reallocCalls : Nat := 0
  liveBlocks : Nat := 0
  livePayloadBytes : Nat := 0
  liveBlockBytes : Nat := 0
  peakBlockBytes : Nat := 0
  peakPayloadBytes : Nat := 0
  peakBlocks : Nat := 0
  quarantinedBlocks : Nat := 0
  quarantinedBytes : Nat := 0
  repairedBlocks : Nat := 0
  repairedBytes : Nat := 0
  scrubPasses : Nat := 0
  scrubBlocks : Nat := 0
  scrubDetections : Nat := 0
  deriving DecidableEq, Repr

/-- What the allocator sees while one arena is `g_arena`: memory, the span registry, that arena's
fields, the configuration and the calling thread's status. -/
structure Heap where
  mem : Memory
  /-- Every registered span, of any arena: what `mm_span_lookup_uncached` answers from. -/
  registry : List Span
  self : Nat
  spans : List Span
  spanCount : Nat
  totalBytes : Nat
  nextIndexBase : Nat
  bins : Nat → Nat
  binBitmap : Nat → BitVec 64
  secret : Nat
  lostBytes : Nat
  scrubSpan : Option Span
  scrubAt : Nat
  growable : Bool
  freshSpans : Nat
  /-- `fresh` and `trim_after` of the span starting at an address. -/
  fresh : Nat → Bool
  trimAfter : Nat → Nat
  ops : Nat
  mode : Mode
  stats : Stats
  opsSinceScrub : Nat
  scrubInterval : Nat
  scrubBudget : Nat
  pageSize : Nat
  /-- What the platform answers to the mappings still to be asked for. -/
  supply : List (Option Nat)
  lastError : Status
  /-- Every status passed to `mm_fail`, latest first. -/
  raised : List Status
  /-- Set by an access to heap memory outside every span of `g_arena`. -/
  wild : Bool

abbrev HeapM := Prog Heap

namespace Heap

def covers (h : Heap) (a n : Nat) : Bool := h.spans.any fun s => s.lo ≤ a && a + n ≤ s.hi

def touch (h : Heap) (a n : Nat) : Heap := { h with wild := h.wild || !h.covers a n }

def spanOf (h : Heap) (p : Nat) : Option Span := h.registry.find? fun s => s.lo ≤ p && p < s.hi

/-- The word at `b`, read without leaving a trace. -/
def word (h : Heap) (b : Nat) : Nat := h.mem.load b 8

end Heap

/-! ### Memory access -/

def loadN (a n : Nat) : HeapM Nat := fun h => (h.mem.load a n, h.touch a n)

def storeN (a n v : Nat) : HeapM Unit :=
  fun h => ((), { h.touch a n with mem := h.mem.store a n v })

def load64 (a : Nat) : HeapM Nat := loadN a 8

def store64 (a v : Nat) : HeapM Unit := storeN a 8 v

def memcpy (dst src n : Nat) : HeapM Unit := do
  let v ← loadN src n
  storeN dst n v

/-! ### Status -/

def fail (status : Status) : HeapM Unit :=
  Prog.modify fun h => { h with lastError := status, raised := status :: h.raised }

def clearError : HeapM Unit := Prog.modify fun h => { h with lastError := .ok }

/-! ### Spans -/

/-- Continues in the span holding `p`, or as `miss` where none does. -/
def withSpanOf {α : Type} (p : Nat) (miss : HeapM α) (hit : Span → HeapM α) : HeapM α := do
  let s ← Prog.read fun h => h.spanOf p
  Prog.elim s miss hit

def indexIn (s : Span) (b : Nat) : Nat := s.indexBase + (b - s.lo) / alignment

def blockIndex (b : Nat) : HeapM Nat :=
  withSpanOf b (pure 0) fun s => pure (indexIn s b)

/-! ### Header fields of the block at `b` -/

def blockSize (b : Nat) : HeapM Nat := do
  let w ← load64 b
  return wordSize w

def isUsed (b : Nat) : HeapM Bool := do
  let w ← load64 b
  return wordUsed w

def prevInUse (b : Nat) : HeapM Bool := do
  let w ← load64 b
  return wordPrevInUse w

def isQuarantined (b : Nat) : HeapM Bool := do
  let w ← load64 b
  return wordQuarantined w

def setBlockSize (b n : Nat) : HeapM Unit := do
  let w ← load64 b
  store64 b (wordSetSize w n)

def setPrevInUse (b : Nat) (used : Bool) : HeapM Unit := do
  let w ← load64 b
  store64 b (wordSetPrevInUse w used)

def setWord (b blockSize slack : Nat) (used quarantined : Bool) : HeapM Unit := do
  let w ← load64 b
  store64 b (wordSet w blockSize slack used quarantined)

variable (P : Profile)

/-- `b->payload_crc`; reads as 0 where the profile has no such field. -/
def payloadCrc (b : Nat) : HeapM Nat := if P.hasCrc then loadN (b + 12) 4 else pure 0

def setPayloadCrc (b v : Nat) : HeapM Unit := if P.hasCrc then storeN (b + 12) 4 v else pure ()

def requestedFrom (w : Nat) : Nat :=
  if !wordUsed w then 0
  else
    let avail := usub (wordSize w) P.hdrSize
    if wordSlack w ≤ avail then avail - wordSlack w else 0

def requestedSize (b : Nat) : HeapM Nat := do
  let w ← load64 b
  return requestedFrom P w

def payloadOf (b : Nat) : Nat := b + P.hdrSize

def blockEnd (b : Nat) : HeapM Nat := do
  let n ← blockSize b
  return b + n

inductive Link where
  | next | prev

def Link.offset : Link → Nat
  | next => 0
  | prev => 8

def freeLinkGet (b : Nat) (which : Link) : HeapM Nat := do
  let raw ← load64 (payloadOf P b + which.offset)
  Prog.read fun h => raw ^^^ h.secret

def freeLinkSet (b : Nat) (which : Link) (p : Nat) : HeapM Unit := do
  let secret ← Prog.read Heap.secret
  store64 (payloadOf P b + which.offset) (p ^^^ secret)

def writeFreeFooter (b : Nat) : HeapM Unit := do
  let n ← blockSize b
  store64 (b + n - 8) n

def readPrevFooter (b : Nat) : HeapM Nat := load64 (b - 8)

/-! ### Counters -/

def Stats.blockAdded (s : Stats) (blockBytes payloadBytes : Nat) : Stats :=
  let s := { s with
    liveBlocks := s.liveBlocks + 1
    livePayloadBytes := s.livePayloadBytes + payloadBytes
    liveBlockBytes := s.liveBlockBytes + blockBytes }
  if s.liveBlockBytes > s.peakBlockBytes then
    { s with
      peakBlockBytes := s.liveBlockBytes
      peakPayloadBytes := s.livePayloadBytes
      peakBlocks := s.liveBlocks }
  else s

def Stats.blockRemoved (s : Stats) (blockBytes payloadBytes : Nat) : Stats :=
  { s with
    liveBlocks := s.liveBlocks - 1
    livePayloadBytes := s.livePayloadBytes - payloadBytes
    liveBlockBytes := s.liveBlockBytes - blockBytes }

inductive StatsEvent where
  | alloc | allocFailed | free | realloc | quarantine | repair | scrub | scrubHit

def Stats.note (s : Stats) (bytes : Nat) : StatsEvent → Stats
  | .alloc => { s with allocCalls := s.allocCalls + 1 }
  | .allocFailed => { s with allocFailures := s.allocFailures + 1 }
  | .free => { s with freeCalls := s.freeCalls + 1 }
  | .realloc => { s with reallocCalls := s.reallocCalls + 1 }
  | .quarantine => { s with
      quarantinedBlocks := s.quarantinedBlocks + 1
      quarantinedBytes := s.quarantinedBytes + bytes }
  | .repair => { s with
      repairedBlocks := s.repairedBlocks + 1
      repairedBytes := s.repairedBytes + bytes }
  | .scrub => { s with scrubPasses := s.scrubPasses + 1, scrubBlocks := s.scrubBlocks + bytes }
  | .scrubHit => { s with scrubDetections := s.scrubDetections + bytes }

def updateStats (f : Stats → Stats) : HeapM Unit :=
  Prog.modify fun h => { h with stats := f h.stats }

def statNote (e : StatsEvent) (n : Nat) : HeapM Unit := updateStats fun s => s.note n e

def statAdd (b : Nat) : HeapM Unit := do
  let n ← blockSize b
  let r ← requestedSize P b
  updateStats fun s => s.blockAdded n r

def statSub (b : Nat) : HeapM Unit := do
  let n ← blockSize b
  let r ← requestedSize P b
  updateStats fun s => s.blockRemoved n r

end Mars
