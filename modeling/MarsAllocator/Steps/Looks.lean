import MarsAllocator.Steps.Closed

namespace Mars

open ByteMemory StateProgram

/-- Nothing but the thread's status and the record of stray accesses is different. -/
inductive Hushed (h : Heap) : Heap → Prop
  | mk (lastError : Status) (raised : List Status) (wild : Bool) :
      Hushed h { h with lastError := lastError, raised := raised, wild := wild }

instance : Std.Refl Hushed := ⟨fun h => .mk h.lastError h.raised h.wild⟩

instance : IsTrans Heap Hushed := ⟨fun _ _ _ => by
  rintro ⟨_, _, _⟩ ⟨_, _, _⟩
  exact .mk _ _ _⟩

theorem Hushed.stats {h h' : Heap} (hh : Hushed h h') : h'.stats = h.stats := by
  obtain ⟨_, _, _⟩ := hh
  rfl

set_option synthInstance.maxSize 100000

namespace Hushed

variable (P : Profile) (s : Span)

instance : LookClosed Hushed where
  touch h _ _ := .mk h.lastError h.raised _

instance fail (status : Status) : Respects Hushed (fail status) := ⟨fun h => .mk _ _ h.wild⟩

instance clearError : Respects Hushed clearError := ⟨fun h => .mk _ h.raised h.wild⟩

instance failWith (status : Status) : Respects Hushed (failWith status) := by
  unfold Mars.failWith; infer_instance

instance checkBlock (p : Nat) (t : Tally) : Respects Hushed (checkBlock P p t) := by
  unfold Mars.checkBlock checkFailed; infer_instance

instance checkSpan (budget p : Nat) (t : Tally) : Respects Hushed (checkSpan P s budget p t) := by
  induction budget generalizing p t with
  | zero =>
    rw [Mars.checkSpan]
    unfold checkFailed
    infer_instance
  | succ budget ih =>
    rw [Mars.checkSpan]
    infer_instance

instance checkSpans (spans : List Span) (t : Tally) : Respects Hushed (checkSpans P spans t) := by
  induction spans generalizing t with
  | nil =>
    rw [Mars.checkSpans]
    infer_instance
  | cons s rest ih =>
    rw [Mars.checkSpans]
    unfold checkFailed
    infer_instance

instance binWalk (i budget back cur seen : Nat) : Respects Hushed (binWalk P i budget back cur seen) := by
  induction budget generalizing back cur seen with
  | zero =>
    rw [Mars.binWalk]
    infer_instance
  | succ budget ih =>
    rw [Mars.binWalk]
    infer_instance

instance binsCheckFrom (counts : Nat → Nat) (left : Nat) :
    Respects Hushed (binsCheckFrom P counts left) := by
  induction left with
  | zero =>
    rw [Mars.binsCheckFrom]
    infer_instance
  | succ left ih =>
    rw [Mars.binsCheckFrom]
    unfold binCheck bitmapTest maxBlocks
    infer_instance

instance mmCheckHeap : Respects Hushed (mmCheckHeap P) := by
  unfold Mars.mmCheckHeap checkHeapUnlocked arenaLive binsCheck; infer_instance

instance mmVerify (ptr : Nat) : Respects Hushed (mmVerify P ptr) := by
  unfold Mars.mmVerify verifyUnlocked blockOf arenaLive; infer_instance

end Hushed

end Mars
