import MarsAllocator.Model.Layout

namespace Mars

open ByteMemory

/-! ### The pool -/

def bootstrapBytes : Nat := 64 * 1024

def poolHdrSize : Nat := 16

/-- Where the static `g_pool` was placed. -/
structure PoolPlace where
  base : Nat
  aligned : base % 16 = 0
  fits : base + bootstrapBytes < 2 ^ 64

/-- `g_pool`, `g_pool_used` and `g_pool_peak`. -/
structure Pool where
  mem : Memory
  used : Nat
  peak : Nat

def Pool.start : Pool := ⟨⟨0⟩, 0, 0⟩

def poolNeed (size : Nat) : Nat := uadd poolHdrSize (roundUp size 16)

def poolAlloc (place : PoolPlace) (size : Nat) (pool : Pool) : Nat × Pool :=
  let need := poolNeed size
  if need < size ∨ bootstrapBytes < uadd pool.used need then (0, pool)
  else
    let hdr := place.base + pool.used
    let used := uadd pool.used need
    (hdr + poolHdrSize,
      { mem := (pool.mem.store hdr 8 size).store (hdr + 8) 8 0
        used := used
        peak := max pool.peak used })

def poolSizeOf (pool : Pool) (p : Nat) : Nat := pool.mem.load (p - poolHdrSize) 8

/-! ### Runs -/

/-- A pointer handed out and the size it was asked for. -/
structure PoolGrant where
  ptr : Nat
  size : UInt64

structure PoolRun where
  pool : Pool
  grants : List PoolGrant

namespace PoolRun

def start : PoolRun := ⟨Pool.start, []⟩

def next (place : PoolPlace) (σ : PoolRun) (size : UInt64) : PoolRun :=
  match poolAlloc place size.toNat σ.pool with
  | (0, pool) => ⟨pool, σ.grants⟩
  | (p, pool) => ⟨pool, σ.grants ++ [⟨p, size⟩]⟩

def play (place : PoolPlace) (sizes : List UInt64) : PoolRun := sizes.foldl (next place) start

end PoolRun

end Mars
