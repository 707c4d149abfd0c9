import MarsAllocator.Model.Patrol

namespace Mars

open ByteMemory StateProgram

variable (P : Profile)

def chunkSize : Nat := 1 <<< 21

def largeThreshold : Nat := chunkSize / 2

def dontneedMin : Nat := chunkSize / 2

def trimInterval : Nat := 1024

/-! ### The platform -/

/-- Asks the platform for `bytes` of zeroed memory. NULL stands for any refusal on the way to a
usable mapping: of its descriptor, of the memory itself, or of its entry in the registry. -/
def sysMap (bytes : Nat) : HeapM Nat := fun h =>
  match h.supply with
  | some raw :: rest => (raw, { h with supply := rest, mem := h.mem.store raw bytes 0 })
  | none :: rest => (0, { h with supply := rest })
  | [] => (0, h)

def roundDown (n unit : Nat) : Nat := n &&& (sizeMax ^^^ (unit - 1))

/-- `MADV_DONTNEED` on the whole pages inside `[lo, hi)`, which read back as zero. -/
def arenaReleasePages (lo hi : Nat) : HeapM Unit := do
  let page ← Prog.read Heap.pageSize
  Prog.when (lo < hi ∧ roundUp lo page < roundDown hi page) do
    storeN (roundUp lo page) (roundDown hi page - roundUp lo page) 0

def mapChunkAligned (bytes : Nat) : HeapM Nat :=
  if uadd bytes chunkSize < bytes then pure 0
  else do
    let raw ← sysMap (uadd bytes chunkSize)
    return if raw = 0 then 0 else roundUp raw chunkSize

/-! ### The registry -/

def spanRegister (s : Span) : HeapM Unit :=
  Prog.modify fun h =>
    if s.kind = .user then { h with registry := s :: h.registry.filter (·.kind ≠ .user) }
    else { h with registry := s :: h.registry }

def spanUnregister (s : Span) : HeapM Unit :=
  Prog.modify fun h => { h with registry := h.registry.erase s }

/-! ### Building a span -/

def addSpan (s : Span) : HeapM Unit :=
  Prog.modify fun h => { h with
    spans := s :: h.spans
    spanCount := h.spanCount + 1
    totalBytes := h.totalBytes + (s.hi - s.lo)
    nextIndexBase := h.nextIndexBase + (s.hi - s.lo) / alignment }

def dropSpan (s : Span) : HeapM Unit :=
  Prog.modify fun h => { h with
    spans := h.spans.erase s
    spanCount := h.spanCount - 1
    totalBytes := h.totalBytes - (s.hi - s.lo) }

/-- The patrol starts in `s` if it has nowhere else to be. -/
def scrubEnter (s : Span) : HeapM Unit :=
  Prog.modify fun h =>
    if h.scrubSpan = none then { h with scrubSpan := some s, scrubAt := s.lo } else h

def setFresh (s : Span) (fresh : Bool) : HeapM Unit :=
  Prog.modify fun h => { h with
    fresh := Function.update h.fresh s.lo fresh
    trimAfter := Function.update h.trimAfter s.lo 0 }

def countFresh : HeapM Unit := Prog.modify fun h => { h with freshSpans := h.freshSpans + 1 }

def forgetFresh (s : Span) : HeapM Unit :=
  Prog.modify fun h => { h with
    fresh := Function.update h.fresh s.lo false
    freshSpans := h.freshSpans - 1 }

/-- Files the whole of `s` as one free block. -/
def spanFormat (s : Span) : HeapM Unit := do
  store64 s.lo 0
  setPayloadCrc P s.lo 0
  setWord s.lo (s.hi - s.lo) 0 false false
  setPrevInUse s.lo true
  let _ ← publish P s.lo
  binInsert P s.lo

def spanAdopt (s : Span) : HeapM Unit := do
  spanRegister s
  addSpan s
  spanFormat P s
  scrubEnter s

/-- What is left of `size` bytes for the tiling: what does not divide into blocks is not in it. -/
def usableOf (size : Nat) : Nat := size - P.blockOffset - (size - P.blockOffset) % alignment

def userSpan (heap heapSize indexBase owner : Nat) : Span :=
  { lo := heap + P.blockOffset
    hi := heap + P.blockOffset + usableOf P heapSize
    owner := owner
    indexBase := indexBase
    mapBase := 0
    mapSize := 0
    kind := .user }

def arenaInstallUser (heap heapSize : Nat) : HeapM Unit := do
  let s ← Prog.read fun h => userSpan P heap heapSize h.nextIndexBase h.self
  setFresh s false
  spanAdopt P s

def mappedSpan (base bytes indexBase owner : Nat) (kind : SpanKind) : Span :=
  { lo := base + P.blockOffset
    hi := base + P.blockOffset + usableOf P bytes
    owner := owner
    indexBase := indexBase
    mapBase := base
    mapSize := bytes
    kind := kind }

def mapSpan (size : Nat) (kind : SpanKind) : HeapM (Option Span) := do
  let growable ← Prog.read Heap.growable
  if !growable ∨ uadd P.blockOffset size < size then pure none
  else
    if roundUp (uadd P.blockOffset size) chunkSize < uadd P.blockOffset size then pure none
    else do
      let base ← mapChunkAligned (roundUp (uadd P.blockOffset size) chunkSize)
      if base = 0 then pure none
      else do
        let s ← Prog.read fun h => mappedSpan P base (roundUp (uadd P.blockOffset size) chunkSize)
          h.nextIndexBase h.self kind
        setFresh s true
        spanAdopt P s
        countFresh
        pure (some s)

def arenaGrow (size : Nat) : HeapM (Option Span) :=
  if largeThreshold < size then pure none else mapSpan P size .chunk

def arenaMapLarge (size : Nat) : HeapM (Option Span) := mapSpan P size .large

/-! ### Release -/

def freshDirtyPrefix : Nat := 2 * 8

def spanTakeFresh (b : Nat) : HeapM Nat :=
  withSpanOf b (pure sizeMax) fun s => do
    let fresh ← Prog.read fun h => h.fresh s.lo
    if fresh then
      forgetFresh s
      return if b = s.lo then freshDirtyPrefix else sizeMax
    else pure sizeMax

def arenaReleaseSpan (s : Span) : HeapM Unit :=
  Prog.when (s.kind ≠ .user) do
    let fresh ← Prog.read fun h => h.fresh s.lo
    Prog.when fresh (forgetFresh s)
    scrubLeave s
    spanUnregister s
    dropSpan s

def arenaReset : HeapM Unit := do
  Prog.modify fun h => { h with
    registry := h.registry.filter (· ∉ h.spans)
    spans := []
    spanCount := 0
    freshSpans := 0
    totalBytes := 0
    scrubSpan := none
    scrubAt := 0
    growable := false
    lostBytes := 0
    nextIndexBase := 0 }
  binsReset

def arenaInitGrowable (secret : Nat) : HeapM Bool := do
  arenaReset
  Prog.modify fun h => { h with secret := secret, mode := .managed, growable := true }
  let s ← mapSpan P P.minBlock .chunk
  if s.isSome then pure true
  else do
    Prog.modify fun h => { h with growable := false }
    pure false

end Mars
