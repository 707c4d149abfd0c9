import Mathlib.Data.BitVec
import Mathlib.Logic.Function.Basic

namespace Mars

/-! ### The ring -/

def remoteSlots : Nat := 1024

structure RemoteCell where
  seq : BitVec 32
  ptr : Nat

/-- `remote_head`, `remote_tail` and `remote` of an arena. -/
structure RemoteQueue where
  head : BitVec 32
  tail : BitVec 32
  cell : Nat → RemoteCell

def remoteForget : RemoteQueue := ⟨0, 0, fun i => ⟨BitVec.ofNat 32 i, 0⟩⟩

/-- `pos & (MM_REMOTE_SLOTS - 1)`. -/
def remoteSlot (pos : BitVec 32) : Nat := (pos &&& BitVec.ofNat 32 (remoteSlots - 1)).toNat

namespace RemoteQueue

def cellAt (q : RemoteQueue) (pos : BitVec 32) : RemoteCell := q.cell (remoteSlot pos)

def setCell (q : RemoteQueue) (pos : BitVec 32) (c : RemoteCell) : RemoteQueue :=
  { q with cell := Function.update q.cell (remoteSlot pos) c }

end RemoteQueue

/-! ### One producer -/

/-- Where a thread stands in `mm_remote_push`: what its next atomic step is. -/
inductive Pushing where
  | idle
  | loading (payload : Nat)
  | probing (payload : Nat) (pos : BitVec 32)
  | claiming (payload : Nat) (pos : BitVec 32)
  | filling (payload : Nat) (pos : BitVec 32)
  | publishing (payload : Nat) (pos : BitVec 32)
  | returned (ok : Bool)

/-- One atomic step of `mm_remote_push`; a weak compare-exchange may fail for no reason. -/
def pushStep (spurious : Bool) (q : RemoteQueue) : Pushing → RemoteQueue × Pushing
  | .idle => (q, .idle)
  | .loading payload => (q, .probing payload q.head)
  | .probing payload pos =>
      let diff := ((q.cellAt pos).seq - pos).toInt
      if diff = 0 then (q, .claiming payload pos)
      else if diff < 0 then (q, .returned false)
      else (q, .loading payload)
  | .claiming payload pos =>
      if q.head = pos ∧ !spurious then ({ q with head := pos + 1 }, .filling payload pos)
      else (q, .probing payload q.head)
  | .filling payload pos =>
      (q.setCell pos { q.cellAt pos with ptr := payload }, .publishing payload pos)
  | .publishing _ pos => (q.setCell pos { q.cellAt pos with seq := pos + 1 }, .returned true)
  | .returned ok => (q, .returned ok)

/-! ### The consumer -/

/-- Where the thread that holds the arena's lock stands in `mm_remote_pop`. -/
inductive Popping where
  | idle
  | looking (pos : BitVec 32)
  | reading (pos : BitVec 32)
  | clearing (pos : BitVec 32) (p : Nat)
  | advancing (pos : BitVec 32) (p : Nat)
  | handing (pos : BitVec 32) (p : Nat)
  | nothing
  | returned (p : Nat)

/-- One atomic step of `mm_remote_pop`, the next call beginning where the last one ended. -/
def popStep (q : RemoteQueue) : Popping → RemoteQueue × Popping
  | .looking pos =>
      if ((q.cellAt pos).seq - (pos + 1)).toInt ≠ 0 then (q, .nothing) else (q, .reading pos)
  | .reading pos => (q, .clearing pos (q.cellAt pos).ptr)
  | .clearing pos p => (q.setCell pos { q.cellAt pos with ptr := 0 }, .advancing pos p)
  | .advancing pos p => ({ q with tail := pos + 1 }, .handing pos p)
  | .handing pos p =>
      (q.setCell pos { q.cellAt pos with seq := pos + BitVec.ofNat 32 remoteSlots }, .returned p)
  | .idle | .nothing | .returned _ => (q, .looking q.tail)

/-! ### Any number of producers -/

/-- The ring, the threads at work on it, and the history that the 32-bit positions stand for. -/
structure RemoteRun where
  queue : RemoteQueue
  pushing : Nat → Pushing
  popping : Popping
  /-- The values pushed, in the order in which their positions were claimed. -/
  claimed : List Nat
  /-- The positions whose sequence number has been stored. -/
  filled : Nat → Bool
  /-- The values that pops have returned. -/
  returned : List Nat
  /-- The position each thread's `pos` stands for. -/
  position : Nat → Nat
  /-- How many pushes were complete when each thread loaded its `pos`. -/
  since : Nat → Nat

inductive QueueEvent where
  | call (t payload : Nat)
  | push (t : Nat) (spurious : Bool)
  | pop

namespace RemoteRun

def start : RemoteRun :=
  ⟨remoteForget, fun _ => .idle, .idle, [], fun _ => false, [], fun _ => 0, fun _ => 0⟩

def completed (σ : RemoteRun) : Nat := (List.range σ.claimed.length).countP σ.filled

def noteLoad (σ : RemoteRun) (t : Nat) : RemoteRun := { σ with
  position := Function.update σ.position t σ.claimed.length
  since := Function.update σ.since t σ.completed }

/-- What the history gains by a step of thread `t` that leads to `l`. -/
def note (σ : RemoteRun) (t : Nat) (l : Pushing) : RemoteRun :=
  match σ.pushing t, l with
  | .loading _, _ => σ.noteLoad t
  | .claiming payload _, .filling _ _ => { σ with claimed := σ.claimed ++ [payload] }
  | .claiming _ _, _ => σ.noteLoad t
  | .publishing _ _, _ => { σ with filled := Function.update σ.filled (σ.position t) true }
  | _, _ => σ

def next (σ : RemoteRun) : QueueEvent → RemoteRun
  | .call t payload =>
      match σ.pushing t with
      | .idle | .returned _ => { σ with pushing := Function.update σ.pushing t (.loading payload) }
      | _ => σ
  | .push t spurious =>
      { σ.note t (pushStep spurious σ.queue (σ.pushing t)).2 with
        queue := (pushStep spurious σ.queue (σ.pushing t)).1
        pushing := Function.update σ.pushing t (pushStep spurious σ.queue (σ.pushing t)).2 }
  | .pop =>
      { σ with
        queue := (popStep σ.queue σ.popping).1
        popping := (popStep σ.queue σ.popping).2
        returned := match σ.popping with
          | .handing _ p => σ.returned ++ [p]
          | _ => σ.returned }

end RemoteRun

end Mars
