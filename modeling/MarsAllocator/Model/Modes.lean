import MarsAllocator.Model.Arenas

namespace Mars

/-! The mode of every arena, and what an arena created from now on starts in. -/

/-- What a thread does. A call may find no room for another arena (`made`), and an arena that asks
for its first span may be refused it (`granted`). -/
inductive ModeEvent where
  | call (t : Nat) (made granted : Bool)
  | exit (t : Nat)
  | setMode (t : Nat) (mode : Option Mode)
  | init (t : Nat) (granted : Bool)
  | initGrowable (t : Nat) (granted : Bool)
  deriving DecidableEq

namespace Arenas

/-- `mm_set_mode`; a value that is no mode changes nothing. -/
def setMode (σ : Arenas) : Option Mode → Arenas
  | none => σ
  | some mode => { σ with
      modeDefault := mode
      arena := fun a =>
        if a < σ.count then
          if (σ.arena a).mode ≠ mode then { σ.arena a with mode := mode } else σ.arena a
        else σ.arena a }

/-- `mm_init` of a buffer it accepts. -/
def init (σ : Arenas) (t : Nat) (granted : Bool) : Arenas :=
  (σ.arenasReset t).install false granted

/-- A thread that has exited does nothing more. -/
def next (σ : Arenas) : ModeEvent → Arenas
  | .call t made granted => if σ.live t then σ.enter t made granted else σ
  | .exit t => if σ.live t then σ.exit t else σ
  | .setMode t mode => if σ.live t then σ.setMode mode else σ
  | .init t granted => if σ.live t then σ.init t granted else σ
  | .initGrowable t granted => if σ.live t then σ.initGrowable t granted else σ

def run (σ : Arenas) (es : List ModeEvent) : Arenas := es.foldl next σ

end Arenas

end Mars
