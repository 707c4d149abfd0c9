import MarsAllocator.Library.LockOrder

namespace Mars.Locking

open LockOrder

/-! What each call does to the locks and to `mm_self`, everything else left to chance: a choice
stands for each test the data decide, and a count for each loop over them. -/

inductive Lock where
  | arenas
  | arena (a : Nat)
  | index
deriving DecidableEq

/-- The code of a thread whose register is `mm_self`; arena 0 is `g_main_arena`. -/
abbrev Locked (α : Type) := Code Lock (Option Nat) α

def test : Locked Bool := do
  let n ← decideNat
  pure (n != 0)

/-! ### Spans -/

def spanDescAlloc : Locked Bool := test

def spanDescFree : Locked Unit := guarded .index (pure ())

/-- The index half; a span of kind `MM_SPAN_USER` goes in by one atomic store. -/
def spanRegister (user : Bool) : Locked Bool :=
  if user = true then pure true else guarded .index test

def spanUnregister (user : Bool) : Locked Unit :=
  if user = true then pure () else guarded .index (pure ())

def spanAdopt (user : Bool) : Locked Bool := spanRegister user

def arenaInstallUser : Locked Bool := spanAdopt true

def mapSpan : Locked Bool := do
  let can ← test
  if can = true then
    let s ← guarded .index spanDescAlloc
    if s = true then
      let base ← test
      if base = true then
        let adopted ← spanAdopt false
        if adopted = true then pure true else do
          spanDescFree
          pure false
      else do
        spanDescFree
        pure false
    else pure false
  else pure false

def arenaGrow : Locked Bool := do
  let small ← test
  if small = true then mapSpan else pure false

def arenaMapLarge : Locked Bool := mapSpan

def arenaReleaseSpan : Locked Unit := do
  let mapped ← test
  if mapped = true then
    spanUnregister false
    spanDescFree
  else pure ()

def arenaReset : Locked Unit := do
  let spans ← decideNat
  times (do
    let user ← test
    if user = true then spanUnregister true
    else do
      spanUnregister false
      spanDescFree) spans

/-! ### The work inside an arena's lock -/

def reclaim : Locked Unit := do
  let whole ← test
  if whole = true then arenaReleaseSpan else pure ()

def growFor : Locked Bool := do
  let growable ← test
  if growable = true then
    let large ← test
    if large = true then arenaMapLarge else arenaGrow
  else pure false

def findOrGrow : Locked Bool := do
  let found ← test
  if found = true then pure true else growFor

def mallocUnlocked : Locked Bool := do
  let fits ← test
  if fits = true then
    let got ← findOrGrow
    if got = true then test else pure false
  else pure false

def freeUnlocked : Locked Unit := do
  let released ← test
  if released = true then reclaim else pure ()

def memalignUnlocked : Locked Bool := do
  let raw ← mallocUnlocked
  let wide ← test
  if raw = true ∧ wide = true then
    let cut ← test
    if cut = true then
      reclaim
      pure true
    else do
      freeUnlocked
      pure false
  else pure raw

def reallocUnlocked (null zero : Bool) : Locked Bool :=
  if null = true then mallocUnlocked
  else if zero = true then do
    freeUnlocked
    pure false
  else do
    let inPlace ← test
    if inPlace = true then test
    else do
      let fresh ← mallocUnlocked
      if fresh = true then
        freeUnlocked
        pure true
      else pure false

def remoteDrain : Locked Unit := do
  let queued ← decideNat
  times freeUnlocked queued

/-! ### Arenas -/

def onThreadExit : Locked Unit := do
  let own ← test
  if own = true then guarded .arenas (pure ()) else pure ()

/-- The main arena is taken if nobody has claimed it, or is shared; otherwise arena `a` is an orphan
or a new one. -/
def arenaAdopt : Locked Nat := do
  let a ← guarded .arenas decideNat
  moveTo (some a)
  if a = 0 then pure a
  else do
    let bare ← test
    if bare = true then
      let _ ← guarded (.arena a) arenaGrow
      pure a
    else pure a

def arenasReset : Locked Unit := do
  acquire .arenas
  let count ← decideNat
  forRange (fun a => do
    setRegister (some a)
    guarded (.arena a) arenaReset) count 0
  release .arenas
  moveTo (some 0)

/-- The arena of the thread, adopted if it has none or the one it has is of an earlier epoch. -/
def selfOrAdopt : Locked Nat := do
  let self ← register
  match self with
  | none => arenaAdopt
  | some a => do
    let stale ← test
    if stale = true then arenaAdopt else pure a

/-- `mm_enter`, its test of the queue and the drain included. -/
def enter : Locked Nat := do
  let a ← selfOrAdopt
  acquire (.arena a)
  let queued ← test
  if queued = true then
    remoteDrain
    pure a
  else pure a

def leave (a : Nat) : Locked Unit := release (.arena a)

structure Guard where
  arena : Nat
  saved : Option Nat
  swapped : Bool

/-- The registry's answer, which no lock guards. -/
def ownerOf : Locked (Option Nat) := do
  let n ← decideNat
  pure (if n = 0 then none else some (n - 1))

/-- What `mm_enter_for` and `mm_enter_arena` do to work in arena `a`. -/
def enterArena (a : Nat) : Locked Guard := do
  let saved ← register
  setRegister (some a)
  acquire (.arena a)
  pure { arena := a, saved := saved, swapped := true }

def enterFor : Locked Guard := do
  let owner ← ownerOf
  let self ← register
  match owner with
  | none => do
    let a ← enter
    pure { arena := a, saved := none, swapped := false }
  | some o =>
    if some o = self then do
      let a ← enter
      pure { arena := a, saved := none, swapped := false }
    else enterArena o

def leaveFor (g : Guard) : Locked Unit := do
  release (.arena g.arena)
  if g.swapped = true then setRegister g.saved else pure ()

/-! ### The calls -/

/-- A call made of `mm_enter`, the work and `mm_leave`. -/
def entered (work : Locked α) : Locked α := do
  let a ← enter
  let r ← work
  leave a
  pure r

/-- A call made of `mm_enter_for`, the work and `mm_leave_for`. -/
def enteredFor (work : Locked α) : Locked α := do
  let g ← enterFor
  let r ← work
  leaveFor g
  pure r

/-- A call that visits the arenas one at a time. -/
def eachArena (work : Locked Unit) : Locked Unit := do
  let count ← decideNat
  forRange (fun a => do
    let g ← enterArena a
    work
    leaveFor g) count 0

def malloc : Locked Bool := entered mallocUnlocked

def memalign : Locked Bool := entered memalignUnlocked

def free : Locked Unit := do
  let null ← test
  if null = true then pure ()
  else do
    let owner ← ownerOf
    let self ← register
    match owner with
    | none => entered freeUnlocked
    | some o =>
      if some o = self then entered freeUnlocked
      else do
        let pushed ← test
        if pushed = true then pure ()
        else do
          acquire (.arena o)
          let saved ← register
          setRegister (some o)
          remoteDrain
          freeUnlocked
          setRegister saved
          release (.arena o)

def sizeOfLive : Locked Bool := test

def reallocForeign : Locked Bool := do
  let live ← enteredFor sizeOfLive
  if live = true then
    let fresh ← malloc
    if fresh = true then
      free
      pure true
    else pure false
  else pure false

def realloc : Locked Bool := do
  let null ← test
  let zero ← test
  if null = false ∧ zero = false then
    let owner ← ownerOf
    let self ← register
    match owner with
    | none => entered (reallocUnlocked false false)
    | some o =>
      if some o = self then entered (reallocUnlocked false false) else reallocForeign
  else entered (reallocUnlocked null zero)

def init : Locked Unit := do
  arenasReset
  let a ← enter
  let _ ← arenaInstallUser
  leave a

def arenaInitGrowable : Locked Unit := do
  arenasReset
  let _ ← mapSpan

def arenaCount : Locked Unit := guarded .arenas (pure ())

inductive Call where
  | init | arenaInitGrowable
  | malloc | free | realloc | memalign
  | read | write | verify | usableSize | owns
  | checkHeap | statsGet | statsReset | setMode | getMode | scrub | setScrubInterval | arenaCount
  | threadExit

/-- A call that first looks at its arguments. -/
def checked (call : Locked Unit) : Locked Unit := do
  let ok ← test
  if ok = true then call else pure ()

/-- What a thread runs for each call; the work of the calls that only look takes no lock. -/
def Call.code : Call → Locked Unit
  | init => checked Locking.init
  | arenaInitGrowable => checked Locking.arenaInitGrowable
  | malloc => do let _ ← Locking.malloc
  | free => Locking.free
  | realloc => do let _ ← Locking.realloc
  | memalign => do let _ ← Locking.memalign
  | read | write => checked (enteredFor (pure ()))
  | verify | usableSize => enteredFor (pure ())
  | owns => do let _ ← ownerOf
  | checkHeap | statsReset => eachArena (pure ())
  | statsGet | setMode => checked (eachArena (pure ()))
  | getMode | scrub | setScrubInterval => entered (pure ())
  | arenaCount => Locking.arenaCount
  | threadExit => onThreadExit

def IsCall (c : Locked Unit) : Prop := ∃ call : Call, c = call.code

end Mars.Locking
