import MarsAllocator.Model.Arenas

namespace Mars

/-! Which thread works in which arena, where the platform never refuses a mapping. -/

structure Process extends Arenas where
  /-- Threads that have completed a call since the last `mm_arena_init_growable`. -/
  called : Nat → Bool

inductive ThreadEvent where
  | call (t : Nat)
  | exit (t : Nat)
  | init (t : Nat)
  deriving DecidableEq

namespace Process

def start : Process := ⟨.start, fun _ => false⟩

/-- Whether `mm_enter` keeps to the arena the thread has. -/
def keeps (σ : Process) (t a : Nat) : Bool :=
  σ.self t == some a && (σ.arena a).epoch == σ.epoch

/-- A thread that has exited makes no more calls. -/
def next (σ : Process) : ThreadEvent → Process
  | .call t =>
      if σ.live t then ⟨σ.enter t true true, Function.update σ.called t true⟩ else σ
  | .exit t => if σ.live t then ⟨σ.toArenas.exit t, σ.called⟩ else σ
  | .init t => if σ.live t then ⟨σ.initGrowable t true, fun _ => false⟩ else σ

def run (σ : Process) (es : List ThreadEvent) : Process := es.foldl next σ

end Process

end Mars
