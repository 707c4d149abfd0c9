import MarsAllocator.Model.Check

namespace Mars

open ByteMemory StateProgram

variable (P : Profile)

def scrubIntervalDefault : Nat := 1024

def scrubBudgetDefault : Nat := 16

/-- The main arena as the process starts on it, before any memory is installed. -/
def Heap.blank (mem : Memory) : Heap where
  mem := mem
  registry := []
  self := 0
  spans := []
  spanCount := 0
  totalBytes := 0
  nextIndexBase := 0
  bins := fun _ => 0
  binBitmap := fun _ => 0
  secret := 0
  lostBytes := 0
  scrubSpan := none
  scrubAt := 0
  growable := false
  freshSpans := 0
  fresh := fun _ => false
  trimAfter := fun _ => 0
  ops := 0
  mode := .managed
  stats := {}
  opsSinceScrub := 0
  scrubInterval := scrubIntervalDefault
  scrubBudget := scrubBudgetDefault
  pageSize := 4096
  supply := []
  lastError := .ok
  raised := []
  wild := false

def minArena : Nat := P.blockOffset + P.minBlock

/-- `mm_init`, `secret` being what `mm_draw_secret` draws. -/
def mmInit (heap heapSize secret : Nat) : HeapM Bool := do
  clearError
  if heap = 0 ∨ heapSize < minArena P ∨ heap % alignment ≠ 0 then do
    fail .badArena
    pure false
  else do
    arenaReset
    Prog.modify fun h => { h with
      secret := secret
      mode := .managed
      mem := h.mem.store heap heapSize 0 }
    arenaInstallUser P heap heapSize
    pure true

def mmMalloc (size : Nat) : HeapM Nat := do
  let p ← mallocUnlocked P size
  pure p.1

def mmFree (ptr : Nat) : HeapM Unit := if ptr = 0 then clearError else freeUnlocked P ptr

def mmRealloc (ptr newSize : Nat) : HeapM Nat := reallocUnlocked P ptr newSize

def mmMemalign (align size : Nat) : HeapM Nat := memalignUnlocked P align size

def mmVerify (ptr : Nat) : HeapM Status := do
  clearError
  verifyUnlocked P ptr

def mmCheckHeap : HeapM Status := do
  clearError
  checkHeapUnlocked P

def mmScrub (budgetBlocks : Nat) : HeapM Status := scrub P budgetBlocks

def mmSetMode (mode : Mode) : HeapM Unit := setModeUnlocked P mode

def mmSetScrubInterval (ops budgetBlocks : Nat) : HeapM Unit :=
  Prog.modify fun h => { h with
    scrubInterval := ops
    scrubBudget := if budgetBlocks = 0 then scrubBudgetDefault else budgetBlocks
    opsSinceScrub := 0 }

/-- A public call on the installed arena; every `size_t` or pointer argument has its 64 bits. -/
inductive Call where
  | malloc (size : UInt64)
  | free (ptr : UInt64)
  | realloc (ptr newSize : UInt64)
  | memalign (align size : UInt64)
  | read (ptr offset : UInt64) (bufNull : Bool) (len : UInt64)
  | write (ptr offset : UInt64) (src : Source)
  | verify (ptr : UInt64)
  | checkHeap
  | scrub (budgetBlocks : UInt64)
  | setMode (mode : Mode)
  | setScrubInterval (ops budgetBlocks : UInt64)

inductive Reply where
  | void
  | pointer (p : Nat)
  | copied (bytes : Option (List UInt8))
  | written (len : Option Nat)
  | status (s : Status)
  deriving DecidableEq

def Call.run : Call → HeapM Reply
  | malloc size => do return .pointer (← mmMalloc P size.toNat)
  | free ptr => do
      mmFree P ptr.toNat
      return .void
  | realloc ptr newSize => do return .pointer (← mmRealloc P ptr.toNat newSize.toNat)
  | memalign align size => do return .pointer (← mmMemalign P align.toNat size.toNat)
  | read ptr offset bufNull len => do
      return .copied (← mmRead P ptr.toNat offset.toNat bufNull len.toNat)
  | write ptr offset src => do return .written (← mmWrite P ptr.toNat offset.toNat src)
  | verify ptr => do return .status (← mmVerify P ptr.toNat)
  | checkHeap => do return .status (← mmCheckHeap P)
  | scrub budgetBlocks => do return .status (← mmScrub P budgetBlocks.toNat)
  | setMode mode => do
      mmSetMode P mode
      return .void
  | setScrubInterval ops budgetBlocks => do
      mmSetScrubInterval ops.toNat budgetBlocks.toNat
      return .void

def runCalls : List Call → Heap → Heap
  | [], h => h
  | call :: calls, h => runCalls calls (call.run P h).2

/-- The process start followed by one `mm_init`, over memory that reads as `mem`. -/
def installed (mem : Memory) (heap heapSize secret : Nat) : Heap :=
  (mmInit P heap heapSize secret (Heap.blank mem)).2

end Mars
