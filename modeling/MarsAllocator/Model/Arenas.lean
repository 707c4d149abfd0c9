import Mathlib.Logic.Function.Basic
import MarsAllocator.Model.Heap

namespace Mars

/-! The arenas of a process and its threads under `MM_LOCK_ARENA`: `mm_enter`, `mm_arena_adopt`,
`on_thread_exit` and `mm_arenas_reset`. -/

/-- An arena, as far as the choice of arenas and modes reads it; `spans` says whether it has any. -/
structure ArenaState where
  claimed : Bool
  epoch : BitVec 64
  growable : Bool
  spans : Bool
  mode : Mode

/-- Arenas are numbered along `g_arenas`, from `g_main_arena` on; `modeDefault` is
`g_mode_default`. -/
structure Arenas where
  arena : Nat → ArenaState
  count : Nat
  orphans : List Nat
  epoch : BitVec 64
  modeDefault : Mode
  self : Nat → Option Nat
  key : Nat → Option Nat
  live : Nat → Bool

def mainArena : Nat := 0

/-- An arena as `arena_new` clears it. -/
def blankArena : ArenaState := ⟨false, 0, false, false, .managed⟩

namespace Arenas

def start : Arenas :=
  ⟨fun _ => blankArena, 1, [], 0, .managed, fun _ => none, fun _ => none, fun _ => true⟩

/-- `on_thread_exit`, with the value kept under `g_thread_key`. -/
def onThreadExit (σ : Arenas) : Option Nat → Arenas
  | none => σ
  | some a =>
      if a = mainArena then σ
      else if (σ.arena a).claimed then { σ with
        arena := Function.update σ.arena a { σ.arena a with claimed := false }
        orphans := a :: σ.orphans }
      else σ

def exit (σ : Arenas) (t : Nat) : Arenas :=
  { σ.onThreadExit (σ.key t) with live := Function.update σ.live t false }

def arenaNew (σ : Arenas) : Arenas := { σ with
  arena := Function.update σ.arena σ.count blankArena
  count := σ.count + 1 }

def share (σ : Arenas) (t : Nat) : Arenas :=
  { σ with self := Function.update σ.self t (some mainArena) }

/-- The first half of `mm_arena_adopt`: the arena that thread `t` is to claim, if it is to claim
one; `made` says whether there is room for another. -/
def choose (σ : Arenas) (t : Nat) (made : Bool) : Option Nat × Arenas :=
  if !(σ.arena mainArena).claimed then (some mainArena, σ)
  else if !(σ.arena mainArena).growable then (none, σ.share t)
  else match σ.orphans with
    | a :: rest => (some a, { σ with orphans := rest })
    | [] => if made then (some σ.count, σ.arenaNew) else (none, σ.share t)

/-- The second half: an arena with no memory yet asks for some, and gets the mode of new arenas. -/
def claim (σ : Arenas) (t a : Nat) (granted : Bool) : Arenas :=
  let x := { σ.arena a with claimed := true, epoch := σ.epoch }
  { σ with
    arena := Function.update σ.arena a
      (if a ≠ mainArena ∧ x.spans = false then
        { x with mode := σ.modeDefault, growable := granted, spans := granted }
      else x)
    self := Function.update σ.self t (some a)
    key := Function.update σ.key t (some a) }

def arenaAdopt (σ : Arenas) (t : Nat) (made granted : Bool) : Arenas :=
  match σ.choose t made with
  | (none, σ') => σ'
  | (some a, σ') => σ'.claim t a granted

/-- Whether `mm_enter` has thread `t` adopt an arena. -/
def adopts (σ : Arenas) (t : Nat) : Bool :=
  match σ.self t with
  | some a => (σ.arena a).epoch != σ.epoch
  | none => true

def enter (σ : Arenas) (t : Nat) (made granted : Bool) : Arenas :=
  if σ.adopts t then σ.arenaAdopt t made granted else σ

def emptied (x : ArenaState) : ArenaState :=
  { x with claimed := false, growable := false, spans := false }

/-- Every arena is emptied and, but for the main one, goes to the pool. -/
def arenasReset (σ : Arenas) (t : Nat) : Arenas :=
  { σ with
    epoch := σ.epoch + 1
    arena := Function.update (emptied ∘ σ.arena) mainArena
      { emptied (σ.arena mainArena) with claimed := true, epoch := σ.epoch + 1 }
    orphans := (List.range σ.count).tail
    self := Function.update σ.self t (some mainArena) }

/-- The main arena managed, and with a span if it was given one. -/
def install (σ : Arenas) (growable granted : Bool) : Arenas :=
  { σ with
    arena := Function.update σ.arena mainArena
      { σ.arena mainArena with mode := .managed, growable := growable, spans := granted } }

def initGrowable (σ : Arenas) (t : Nat) (granted : Bool) : Arenas :=
  (σ.arenasReset t).install granted granted

end Arenas

end Mars
