import MarsAllocator.Model.Bootstrap
import MarsAllocator.Model.Growth

namespace Mars

open ByteMemory StateProgram

/-! ### What the shim keeps -/

/-- The globals of the shim, over those of the allocator. -/
structure Shim where
  heap : Heap
  pool : Pool
  ready : Bool
  starting : Bool
  nofresh : Bool
  /-- `g_real_free` is not NULL. -/
  realFree : Bool
  /-- The pointers handed on to the allocator that the shim stands in for. -/
  passed : List Nat

def Shim.start (mem : Memory) : Shim := ⟨Heap.blank mem, Pool.start, false, false, false, false, []⟩

/-- What is outside the shim: the draw of a secret, the environment, what `dlsym` asks `calloc` for
and what it finds, and the answer of the `realloc` that it finds. -/
structure Outside where
  secret : UInt64
  nofresh : Bool
  asks : List UInt64
  realFree : Bool
  realRealloc : Option Nat

abbrev ShimM := Prog Shim

def inHeap {α : Type} (x : HeapM α) : ShimM α :=
  fun σ => ((x σ.heap).1, { σ with heap := (x σ.heap).2 })

def inPool {α : Type} (x : Pool → α × Pool) : ShimM α :=
  fun σ => ((x σ.pool).1, { σ with pool := (x σ.pool).2 })

variable (P : Profile) (place : PoolPlace) (out : Outside)

def fromPool (p : Nat) : Bool := place.base ≤ p && p < place.base + bootstrapBytes

/-- `mm_owns`. -/
def Heap.owns (h : Heap) (p : Nat) : Bool := p != 0 && (h.spanOf p).isSome

def Shim.ours (σ : Shim) (p : Nat) : Bool := σ.ready && σ.heap.owns p

/-- Bytes stored at `p + offset` by someone other than the allocator. -/
def Shim.write (σ : Shim) (p offset : Nat) (bytes : List UInt8) : Shim :=
  if fromPool place p then
    { σ with pool.mem := σ.pool.mem.storeBytes (p + offset) bytes }
  else { σ with heap.mem := σ.heap.mem.storeBytes (p + offset) bytes }

def passOn (p : Nat) : ShimM Unit := Prog.modify fun σ => { σ with passed := p :: σ.passed }

/-! ### Start-up -/

/-- `dlsym` asks `calloc`, and as `g_starting` is set the pool answers. -/
def Pool.lookUp (asks : List UInt64) (pool : Pool) : Pool :=
  asks.foldl (fun pool size => (poolAlloc place size.toNat pool).2) pool

def startup : ShimM Unit := do
  let begun ← Prog.read fun σ => σ.ready || σ.starting
  Prog.when (!begun) do
    Prog.modify fun σ => { σ with starting := true, nofresh := out.nofresh }
    inPool fun pool => ((), pool.lookUp place out.asks)
    Prog.modify fun σ => { σ with realFree := out.realFree }
    let up ← inHeap (arenaInitGrowable P out.secret.toNat)
    if up then do
      inHeap (mmSetMode P .libc)
      Prog.modify fun σ => { σ with starting := false, ready := true }
    else Prog.modify fun σ => { σ with starting := false }

/-- Whether the arena is up, once start-up has been tried. -/
def started : ShimM Bool := do
  let ready ← Prog.read Shim.ready
  if ready then pure true
  else do
    startup P place out
    Prog.read Shim.ready

/-! ### The malloc family -/

def orOne (size : Nat) : Nat := if size = 0 then 1 else size

def shimMalloc (size : Nat) : ShimM Nat := do
  if ← started P place out then inHeap (mmMalloc P (orOne size))
  else inPool (poolAlloc place size)

def shimFree (ptr : Nat) : ShimM Unit :=
  if ptr = 0 ∨ fromPool place ptr then pure ()
  else do
    let _ ← started P place out
    let ours ← Prog.read fun σ => σ.ours ptr
    if ours then inHeap (mmFree P ptr)
    else do
      let real ← Prog.read Shim.realFree
      Prog.when real (passOn ptr)

def memset (p n : Nat) : ShimM Unit :=
  Prog.modify fun σ => σ.write place p 0 (List.replicate n 0)

/-- What `calloc` clears of a block, `dirty` being the prefix that is not known to be zero. -/
def clearedOf (nofresh : Bool) (dirty total : Nat) : Nat :=
  if nofresh ∨ dirty = sizeMax then total else min dirty total

def shimCalloc (nmemb size : Nat) : ShimM Nat :=
  if 2 ^ 64 ≤ nmemb * size then pure 0
  else do
    if ← started P place out then do
      let nofresh ← Prog.read Shim.nofresh
      let r ← inHeap (mallocUnlocked P (orOne (nmemb * size)))
      if r.1 = 0 then pure 0
      else do
        memset place r.1 (clearedOf nofresh r.2 (nmemb * size))
        pure r.1
    else inPool (poolAlloc place (nmemb * size))

/-- Copies out of the pool to `dst`, wherever that is. -/
def copyOut (dst src n : Nat) : ShimM Unit :=
  Prog.modify fun σ => σ.write place dst 0 (σ.pool.mem.bytes src n)

def shimRealloc (ptr size : Nat) : ShimM Nat :=
  if ptr = 0 then shimMalloc P place out size
  else if fromPool place ptr then
    if size = 0 then pure 0
    else do
      let fresh ← shimMalloc P place out size
      if fresh = 0 then pure 0
      else do
        let had ← Prog.read fun σ => poolSizeOf σ.pool ptr
        copyOut place fresh ptr (min had size)
        pure fresh
  else do
    let _ ← started P place out
    let ours ← Prog.read fun σ => σ.ours ptr
    if ours then inHeap (mmRealloc P ptr size)
    else
      Prog.elim out.realRealloc (pure 0) fun p => do
        passOn ptr
        pure p

/-! ### Aligned allocation and introspection -/

def powerOfTwo (n : Nat) : Bool := n != 0 && n &&& (n - 1) == 0

def alignedAlloc (alignment size : Nat) : ShimM Nat :=
  if !powerOfTwo alignment then pure 0
  else do
    if ← started P place out then inHeap (mmMemalign P alignment (orOne size))
    else pure 0

inductive Errno where
  | einval
  | enomem
  deriving DecidableEq

def posixMemalign (alignment size : Nat) : ShimM (Except Errno Nat) :=
  if !powerOfTwo alignment ∨ alignment % 8 ≠ 0 then pure (.error .einval)
  else do
    let p ← alignedAlloc P place out alignment size
    return if p = 0 then .error .enomem else .ok p

def pageSize : ShimM Nat := Prog.read fun σ => σ.heap.pageSize

def valloc (size : Nat) : ShimM Nat := do alignedAlloc P place out (← pageSize) size

def pvalloc (size : Nat) : ShimM Nat := do
  let p ← pageSize
  if sizeMax - p < size then pure 0 else alignedAlloc P place out p (roundUp size p)

/-- `mm_usable_size`. -/
def mmUsableSize (ptr : Nat) : HeapM Nat := do
  clearError
  sizeOfLive P ptr

def mallocUsableSize (ptr : Nat) : ShimM Nat :=
  if ptr = 0 then pure 0
  else if fromPool place ptr then Prog.read fun σ => poolSizeOf σ.pool ptr
  else do
    let ours ← Prog.read fun σ => σ.ours ptr
    if ours then inHeap (mmUsableSize P ptr) else pure 0

/-- What the destructor reports of the heap when it is asked to. -/
def shimEnd : ShimM (Option Status) := do
  let ready ← Prog.read Shim.ready
  if ready then do
    let s ← inHeap (mmCheckHeap P)
    pure (some s)
  else pure none

/-! ### A program on top -/

/-- What a program calls, or the loader for it; `alignedAlloc` is `memalign` as well. -/
inductive LibcCall where
  | start
  | malloc (size : UInt64)
  | free (ptr : UInt64)
  | calloc (nmemb size : UInt64)
  | realloc (ptr size : UInt64)
  | alignedAlloc (alignment size : UInt64)
  | posixMemalign (alignment size : UInt64)
  | valloc (size : UInt64)
  | pvalloc (size : UInt64)
  | usableSize (ptr : UInt64)

inductive LibcReply where
  | void
  | pointer (p : Nat)
  | placed (r : Except Errno Nat)
  | size (n : Nat)
  deriving DecidableEq

def LibcReply.pointed : LibcReply → Nat
  | .pointer p | .placed (.ok p) => p
  | _ => 0

def LibcCall.run : LibcCall → ShimM LibcReply
  | start => do
      startup P place out
      return .void
  | malloc size => do return .pointer (← shimMalloc P place out size.toNat)
  | free ptr => do
      shimFree P place out ptr.toNat
      return .void
  | calloc nmemb size => do return .pointer (← shimCalloc P place out nmemb.toNat size.toNat)
  | realloc ptr size => do return .pointer (← shimRealloc P place out ptr.toNat size.toNat)
  | alignedAlloc alignment size => do
      return .pointer (← Mars.alignedAlloc P place out alignment.toNat size.toNat)
  | posixMemalign alignment size => do
      return .placed (← Mars.posixMemalign P place out alignment.toNat size.toNat)
  | valloc size => do return .pointer (← Mars.valloc P place out size.toNat)
  | pvalloc size => do return .pointer (← Mars.pvalloc P place out size.toNat)
  | usableSize ptr => do return .size (← mallocUsableSize P place ptr.toNat)

/-- The shim under a program, and the blocks that the program has: out of the pool, and out of the
arena. -/
structure Preloaded where
  shim : Shim
  held : List Nat
  out : List Nat

inductive LibcAction where
  | call (c : LibcCall)
  | poke (ptr offset : Nat) (bytes : List UInt8)

namespace Preloaded

variable (σ : Preloaded)

def start (mem : Memory) : Preloaded := ⟨Shim.start mem, [], []⟩

def has (p : Nat) : Prop := p ∈ σ.held ∨ p ∈ σ.out

instance (p : Nat) : Decidable (σ.has p) := inferInstanceAs (Decidable (p ∈ σ.held ∨ p ∈ σ.out))

def take (p : Nat) : Preloaded :=
  if p = 0 then σ
  else if fromPool place p then { σ with held := p :: σ.held }
  else { σ with out := p :: σ.out }

def give (p : Nat) : Preloaded := { σ with held := σ.held.erase p, out := σ.out.erase p }

/-- The blocks that the program has after a call; those of another allocator are not counted. -/
def after : LibcCall → LibcReply → Preloaded
  | .free ptr, _ => σ.give ptr.toNat
  | .realloc ptr size, .pointer p =>
      if ptr.toNat = 0 then σ.take place p
      else if ¬ σ.has ptr.toNat then σ
      else if p ≠ 0 then (σ.give ptr.toNat).take place p
      else if size.toNat = 0 then σ.give ptr.toNat
      else σ
  | _, r => σ.take place r.pointed

def call (c : LibcCall) : LibcReply × Preloaded :=
  let r := c.run P place out σ.shim
  (r.1, { σ with shim := r.2 }.after place c r.1)

/-- `malloc_usable_size` of a block that the program has. -/
def room (p : Nat) : Nat :=
  if fromPool place p then poolSizeOf σ.shim.pool p else (sizeOfLive P p σ.shim.heap).1

def poke (ptr offset : Nat) (bytes : List UInt8) : Preloaded :=
  { σ with shim := σ.shim.write place ptr offset bytes }

/-- What the platform answers next. -/
def offered (supply : List (Option Nat)) : Preloaded := { σ with shim.heap.supply := supply }

end Preloaded

namespace LibcCall

/-- The pointer argument, or NULL. -/
def pointer : LibcCall → Nat
  | free ptr | realloc ptr _ | usableSize ptr => ptr.toNat
  | _ => 0

/-- The bytes that a new block is asked for, as the caller means them. -/
def asks : LibcCall → Option Nat
  | malloc size | alignedAlloc _ size | posixMemalign _ size | valloc size => some size.toNat
  | pvalloc size => some ((size.toNat + 4095) / 4096 * 4096)
  | calloc nmemb size => some (nmemb.toNat * size.toNat)
  | realloc ptr size => if ptr.toNat = 0 then some size.toNat else none
  | _ => none

def size : LibcCall → Nat
  | realloc _ size => size.toNat
  | c => c.asks.getD 0

/-- What the arena may have to map a span for. -/
def demand : LibcCall → Nat
  | alignedAlloc alignment size | posixMemalign alignment size =>
      paddedFor P alignment.toNat (orOne size.toNat)
  | valloc size => paddedFor P 4096 (orOne size.toNat)
  | pvalloc size => paddedFor P 4096 (orOne (roundUp size.toNat 4096))
  | c => orOne c.size

def mapping (c : LibcCall) : Nat :=
  max (mappingFor P P.minBlock) (mappingFor P (sizeFor P (c.demand P)))

end LibcCall

variable (F : Nat → Prop)

/-- NULL, a pointer that the program has, or one to the memory `F` of another allocator. Of the pool
no more is asked for than an object can be, and a block of no bytes does not end it. -/
structure LibcCall.OkFor (σ : Preloaded) (c : LibcCall) : Prop where
  pointer : c.pointer = 0 ∨ σ.has c.pointer ∨ F c.pointer
  size : σ.shim.ready = false → c.size < 2 ^ 63 ∨ 2 ^ 64 ≤ c.size
  asks : σ.shim.ready = false → ∀ n ∈ out.asks, n.toNat < 2 ^ 63
  spare : σ.shim.ready = false → c.asks = some 0 →
    (σ.shim.pool.lookUp place out.asks).used + poolHdrSize ≠ bootstrapBytes

end Mars
