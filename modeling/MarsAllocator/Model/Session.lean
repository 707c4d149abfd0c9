import MarsAllocator.Model.Interface

namespace Mars

open ByteMemory

/-- A buffer that `mm_init` accepts: an object in memory, so it ends below the top of it. -/
structure Buffer (P : Profile) where
  base : Nat
  size : Nat
  ne_null : base ≠ 0
  aligned : base % alignment = 0
  large : minArena P ≤ size
  fits : base + size < 2 ^ 64

/-- The span that `mm_init` makes of a buffer. -/
def Buffer.span {P : Profile} (buf : Buffer P) : Span := userSpan P buf.base buf.size 0 0

/-- What a program does with the installed arena: call it, or store into a payload by itself. -/
inductive Action where
  | call (c : Call)
  | poke (ptr offset : Nat) (bytes : List UInt8)

/-- The arena, and the pointers it has handed out and not taken back. -/
structure Session where
  heap : Heap
  live : List Nat

/-- NULL or a live pointer where the interface allows both, a live one elsewhere; `mm_memalign`
asks for a power of two. -/
def Call.okFor (live : List Nat) : Call → Bool
  | .free ptr | .realloc ptr _ => ptr.toNat == 0 || live.contains ptr.toNat
  | .read ptr _ _ _ | .write ptr _ _ | .verify ptr => live.contains ptr.toNat
  | .memalign align _ => align.toNat == 2 ^ Nat.log2 align.toNat
  | _ => true

/-- The live pointers after a call and its reply. -/
def Call.liveAfter (live : List Nat) : Call → Reply → List Nat
  | .malloc _, .pointer p | .memalign _ _, .pointer p => if p = 0 then live else p :: live
  | .free ptr, _ => live.erase ptr.toNat
  | .realloc ptr newSize, .pointer p =>
      if p ≠ 0 then p :: live.erase ptr.toNat
      else if newSize.toNat = 0 then live.erase ptr.toNat
      else live
  | _, _ => live

variable (P : Profile)

def Action.okFor (σ : Session) : Action → Bool
  | .call c => c.okFor σ.live
  | .poke ptr offset bytes =>
      σ.live.contains ptr && offset + bytes.length ≤ (sizeOfLive P ptr σ.heap).1

def Session.next (σ : Session) : Action → Session
  | .call c => ⟨(c.run P σ.heap).2, c.liveAfter σ.live (c.run P σ.heap).1⟩
  | .poke ptr offset bytes =>
      { σ with heap := { σ.heap with mem := σ.heap.mem.storeBytes (ptr + offset) bytes } }

variable {P} in
def Session.start (buf : Buffer P) (mem : Memory) (secret : UInt64) : Session :=
  ⟨installed P mem buf.base buf.size secret.toNat, []⟩

/-- The sessions that actions of the kind `allowed`, each valid where it is taken, lead to. -/
inductive Reached (allowed : Action → Bool) : Session → Prop
  | start (buf : Buffer P) (mem : Memory) (secret : UInt64) :
      Reached allowed (Session.start buf mem secret)
  | step {σ : Session} {a : Action} (hr : Reached allowed σ) (ha : allowed a = true)
      (hv : a.okFor P σ = true) : Reached allowed (σ.next P a)

def Session.play : List Action → Session → Session
  | [], σ => σ
  | a :: actions, σ => play actions (σ.next P a)

def Session.playable (allowed : Action → Bool) : List Action → Session → Bool
  | [], _ => true
  | a :: actions, σ => allowed a && a.okFor P σ && playable allowed actions (σ.next P a)

variable {P}

theorem Reached.play {allowed : Action → Bool} {σ : Session} {actions : List Action}
    (hr : Reached P allowed σ) (hp : σ.playable P allowed actions = true) :
    Reached P allowed (σ.play P actions) := by
  induction actions generalizing σ with
  | nil => exact hr
  | cons a actions ih =>
    simp only [Session.playable, Bool.and_eq_true] at hp
    exact ih (hr.step hp.1.1 hp.1.2) hp.2

/-- No stores but the library's own. -/
def Action.isCall : Action → Bool
  | .call _ => true
  | .poke _ _ _ => false

def Action.any : Action → Bool := fun _ => true

/-- The blocks of `s` from `p` on, as the implicit list has them. -/
def Heap.tilingFrom (h : Heap) (s : Span) : (budget : Nat) → (p : Nat) → List Nat
  | 0, _ => []
  | budget + 1, p =>
      if p < s.hi then p :: h.tilingFrom s budget (p + wordSize (h.word p)) else []

def Heap.tilingOf (P : Profile) (h : Heap) (s : Span) : List Nat :=
  h.tilingFrom s (spanMaxBlocks P s) s.lo

def Heap.tiling (P : Profile) (h : Heap) : List Nat := h.spans.flatMap (h.tilingOf P)

end Mars
