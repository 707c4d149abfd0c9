import MarsAllocator.Model.Session

namespace Mars

open ByteMemory

/-! ### What the platform may answer -/

variable (P : Profile)

/-- What is asked of the platform for a span that holds a block of `need` bytes. -/
def mappingFor (need : Nat) : Nat :=
  uadd (roundUp (uadd P.blockOffset need) chunkSize) chunkSize

/-- Of `bytes` bytes the platform answers with memory below the top of user addresses, and clear of
the arena's spans. -/
def Heap.Offers (h : Heap) (bytes : Nat) : Prop :=
  ∀ raw, h.supply.head? = some (some raw) →
    0 < raw ∧ raw + bytes ≤ 2 ^ 56 ∧ ∀ t ∈ h.spans, raw + bytes ≤ t.lo ∨ t.hi ≤ raw

/-- What `mm_malloc` is asked for when `n` bytes are to be aligned to `align`. -/
def paddedFor (align n : Nat) : Nat := if align ≤ alignment then n else n + memalignPad P align

/-- The request that a call may need a new span for. -/
def Call.demand : Call → Nat
  | .malloc size | .realloc _ size => size.toNat
  | .memalign align size => paddedFor P align.toNat size.toNat
  | _ => 0

def Action.mapping : Action → Nat
  | .call c => mappingFor P (sizeFor P (c.demand P))
  | .poke _ _ _ => 0

/-! ### Sessions on an arena of either kind -/

/-- What the platform answers next. -/
def Session.offered (σ : Session) (supply : List (Option Nat)) : Session :=
  { σ with heap := { σ.heap with supply := supply } }

/-- The sessions that valid actions of the kind `allowed` lead to, on an arena made of a buffer or
on one that grows, the platform answering each action as it likes. -/
inductive Arrived (allowed : Action → Bool) : Session → Prop
  | brought (buf : Buffer P) (mem : Memory) (secret : UInt64) :
      Arrived allowed (Session.start buf mem secret)
  | mapped (mem : Memory) (secret : UInt64) (supply : List (Option Nat)) {h : Heap}
      (ho : { Heap.blank mem with supply := supply }.Offers (mappingFor P P.minBlock))
      (hopen : arenaInitGrowable P secret.toNat { Heap.blank mem with supply := supply } = (true, h)) :
      Arrived allowed ⟨h, []⟩
  | step {σ : Session} {a : Action} (supply : List (Option Nat)) (hr : Arrived allowed σ)
      (ha : allowed a = true) (hv : a.okFor P (σ.offered supply) = true)
      (ho : (σ.offered supply).heap.Offers (a.mapping P)) :
      Arrived allowed ((σ.offered supply).next P a)

variable {P}

end Mars
