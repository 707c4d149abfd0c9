import MarsAllocator.Model.Heap

namespace Mars

/-! The span registry as `mm_arena.c` keeps it: what `Heap.registry` stands for. -/

def chunkShift : Nat := 21

/-- A span's descriptor, as far as the registry reads it. -/
structure Descriptor where
  magic : Nat
  lo : Nat
  hi : Nat
  mapBase : Nat
  mapSize : Nat
  kind : SpanKind
  deriving DecidableEq

def unitOf (p : Nat) : Nat := p >>> chunkShift

namespace Descriptor

def firstUnit (d : Descriptor) : Nat := unitOf d.mapBase

def lastUnit (d : Descriptor) : Nat := unitOf (d.mapBase + d.mapSize - 1)

/-- How many turns the loops from the first to the last unit take. -/
def unitCount (d : Descriptor) : Nat := d.lastUnit + 1 - d.firstUnit

end Descriptor

def spanMagic : Nat := 0x5350414E5F4D4152

def spanMagicFor (s : Nat) : Nat := spanMagic ^^^ s

/-- A slot of the unit index; `span` is the address of a descriptor, NULL or `MM_UNIT_TOMB`. -/
structure UnitSlot where
  unit : Nat
  span : Nat
  deriving DecidableEq

def unitTomb : Nat := 1

structure Index where
  slot : Nat → UnitSlot
  cap : Nat

def indexStatic : Nat := 1024

def Index.blank (cap : Nat) : Index := ⟨fun _ => ⟨0, 0⟩, cap⟩

/-- The registry, the descriptors it points at, and what the platform answers to the tables still to
be asked for. -/
structure Registry where
  index : Index
  used : Nat
  live : Nat
  user : Nat
  desc : Nat → Descriptor
  supply : List Bool

/-- splitmix64's finalizer. -/
def mixUnit (unit : UInt64) : UInt64 :=
  let z := unit + 0x9E3779B97F4A7C15
  let z := (z ^^^ (z >>> 30)) * 0xBF58476D1CE4E5B9
  let z := (z ^^^ (z >>> 27)) * 0x94D049BB133111EB
  z ^^^ (z >>> 31)

def slotFor (unit cap : Nat) : Nat := (mixUnit (UInt64.ofNat unit)).toNat &&& (cap - 1)

/-- Where the probes of all three loops over the index end. -/
def UnitSlot.stops (unit : Nat) (x : UnitSlot) : Bool :=
  x.span == 0 || x.span != unitTomb && x.unit == unit

def Index.probeFrom (ix : Index) (unit : Nat) : (probes : Nat) → (i : Nat) → Option Nat
  | 0, _ => none
  | probes + 1, i =>
      if (ix.slot i).stops unit then some i
      else ix.probeFrom unit probes ((i + 1) &&& (ix.cap - 1))

/-- Nothing where the probe has come round to where it began. -/
def Index.probe (ix : Index) (unit : Nat) : Option Nat :=
  ix.probeFrom unit ix.cap (slotFor unit ix.cap)

def Index.set (ix : Index) (i : Nat) (x : UnitSlot) : Index :=
  { ix with slot := Function.update ix.slot i x }

/-- Nothing where the loop does not end. -/
def indexPut (ix : Index) (unit s : Nat) : Option Index :=
  (ix.probe unit).map fun i =>
    if (ix.slot i).span = 0 then ix.set i ⟨unit, s⟩ else ix.set i { ix.slot i with span := s }

def growCap (need : Nat) : (fuel : Nat) → (cap : Nat) → Nat
  | 0, cap => cap
  | fuel + 1, cap => if cap < need then growCap need fuel (cap * 2) else cap

def rehashCap (live : Nat) : Nat := growCap ((live + 1) * 4) ((live + 1) * 4) indexStatic

/-- The copy of `old`, with `left` of its slots still to be looked at. -/
def rehashFrom (old : Index) : (left : Nat) → Index → Option Index
  | 0, ix => some ix
  | left + 1, ix =>
      let x := old.slot (old.cap - (left + 1))
      if x.span ≠ 0 ∧ x.span ≠ unitTomb then
        (indexPut ix x.unit x.span).bind (rehashFrom old left)
      else rehashFrom old left ix

namespace Registry

def indexRehash (r : Registry) : Option (Registry × Bool) :=
  match r.supply with
  | true :: rest =>
      (rehashFrom r.index r.index.cap (Index.blank (rehashCap r.live))).map fun ix =>
        ({ r with index := ix, used := r.live, supply := rest }, true)
  | false :: rest => some ({ r with supply := rest }, false)
  | [] => some (r, false)

/-- Makes room for one more entry where there is none. -/
def indexReserve (r : Registry) : Option (Registry × Bool) :=
  if r.index.cap ≤ (r.used + 1) * 2 then r.indexRehash else some (r, true)

def indexAdd (r : Registry) (unit s : Nat) : Option (Registry × Bool) :=
  r.indexReserve.bind fun (r, ok) =>
    if ok then
      (indexPut r.index unit s).map fun ix =>
        ({ r with index := ix, used := r.used + 1, live := r.live + 1 }, true)
    else some (r, false)

def indexDel (r : Registry) (unit : Nat) : Registry :=
  match r.index.probe unit with
  | none => r
  | some i =>
      if (r.index.slot i).span = 0 then r
      else { r with
        index := r.index.set i { r.index.slot i with span := unitTomb }
        live := r.live - 1 }

/-- With no writer about, the table is the same one after a miss. -/
def indexFind (r : Registry) (unit : Nat) : Nat :=
  match r.index.probe unit with
  | none => 0
  | some i => (r.index.slot i).span

/-- Takes out `left` units from `v` on. -/
def delUnits : (left : Nat) → (v : Nat) → Registry → Registry
  | 0, _, r => r
  | left + 1, v, r => delUnits left (v + 1) (r.indexDel v)

/-- Files `left` units from `u` on under `s`, or takes out again what has been filed. -/
def addUnits (s first : Nat) : (left : Nat) → (u : Nat) → Registry → Option (Registry × Bool)
  | 0, _, r => some (r, true)
  | left + 1, u, r =>
      (r.indexAdd u s).bind fun (r, ok) =>
        if ok then addUnits s first left (u + 1) r
        else some (delUnits (u - first) first r, false)

/-- `false` where the registry would not take the span. -/
def spanRegister (r : Registry) (s : Nat) : Option (Registry × Bool) :=
  if (r.desc s).kind = .user then some ({ r with user := s }, true)
  else addUnits s (r.desc s).firstUnit (r.desc s).unitCount (r.desc s).firstUnit r

def spanUnregister (r : Registry) (s : Nat) : Registry :=
  if (r.desc s).kind = .user then if r.user = s then { r with user := 0 } else r
  else delUnits (r.desc s).unitCount (r.desc s).firstUnit r

def spanLookupUncached (r : Registry) (p : Nat) : Nat :=
  if r.user ≠ 0 ∧ (r.desc r.user).lo ≤ p ∧ p < (r.desc r.user).hi then r.user
  else
    let s := r.indexFind (unitOf p)
    if s = 0 then 0
    else if (r.desc s).magic ≠ spanMagicFor s then 0
    else if p < (r.desc s).lo ∨ (r.desc s).hi ≤ p then 0
    else s

/-- `g_index0`, before anything has been registered. -/
def start (desc : Nat → Descriptor) (supply : List Bool) : Registry :=
  ⟨Index.blank indexStatic, 0, 0, 0, desc, supply⟩

end Registry

end Mars
