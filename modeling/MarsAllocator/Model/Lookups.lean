import MarsAllocator.Model.Registry

namespace Mars

/-! The registry of `Model/Registry.lean` store by store, with a lookup running beside the writers. -/

/-! ### What the threads share -/

/-- Every table ever mapped, the one published, and the descriptors. -/
structure Shared where
  table : Nat → Index
  mapped : Nat
  current : Nat
  used : Nat
  live : Nat
  user : Nat
  desc : Nat → Descriptor
  supply : List Bool

/-- One store of a thread that holds `g_index_lock`. -/
inductive Write where
  | unit (t i unit : Nat)
  | span (t i s : Nat)
  | counts (used live : Nat)
  | refused
  | map (cap : Nat)
  | publish (t : Nat)
  deriving DecidableEq

namespace Shared

def start (desc : Nat → Descriptor) (supply : List Bool) : Shared :=
  ⟨fun _ => Index.blank indexStatic, 1, 0, 0, 0, 0, desc, supply⟩

def registry (σ : Shared) : Registry :=
  ⟨σ.table σ.current, σ.used, σ.live, σ.user, σ.desc, σ.supply⟩

def setSlot (σ : Shared) (t i : Nat) (x : UnitSlot) : Shared :=
  { σ with table := Function.update σ.table t ((σ.table t).set i x) }

def write (σ : Shared) : Write → Shared
  | .unit t i unit => σ.setSlot t i { (σ.table t).slot i with unit := unit }
  | .span t i s => σ.setSlot t i { (σ.table t).slot i with span := s }
  | .counts used live => { σ with used := used, live := live }
  | .refused => { σ with supply := σ.supply.tail }
  | .map cap => { σ with
      table := Function.update σ.table σ.mapped (Index.blank cap)
      mapped := σ.mapped + 1
      supply := σ.supply.tail }
  | .publish t => { σ with current := t }

def run (σ : Shared) (ws : List Write) : Shared := ws.foldl write σ

/-! ### The stores of each writer

What a writer loads is stored to under the lock alone, so its stores are those of the state in which
it has taken the lock. -/

def putWrites (σ : Shared) (t unit s : Nat) : Option (List Write) :=
  ((σ.table t).probe unit).map fun i =>
    if ((σ.table t).slot i).span = 0 then [.unit t i unit, .span t i s] else [.span t i s]

/-- The copy of the published table into `t`, with `left` of its slots still to be looked at. -/
def copyWrites (t : Nat) : (left : Nat) → Shared → Option (List Write)
  | 0, _ => some []
  | left + 1, σ =>
      let old := σ.table σ.current
      let x := old.slot (old.cap - (left + 1))
      if x.span ≠ 0 ∧ x.span ≠ unitTomb then
        (σ.putWrites t x.unit x.span).bind fun ws =>
          (copyWrites t left (σ.run ws)).map (ws ++ ·)
      else copyWrites t left σ

def rehashWrites (σ : Shared) : Option (List Write × Bool) :=
  match σ.supply with
  | true :: _ =>
      (copyWrites σ.mapped (σ.table σ.current).cap (σ.write (.map (rehashCap σ.live)))).map fun ws =>
        (.map (rehashCap σ.live) :: ws ++ [.publish σ.mapped, .counts σ.live σ.live], true)
  | false :: _ => some ([.refused], false)
  | [] => some ([], false)

def reserveWrites (σ : Shared) : Option (List Write × Bool) :=
  if (σ.table σ.current).cap ≤ (σ.used + 1) * 2 then σ.rehashWrites else some ([], true)

def addWrites (σ : Shared) (unit s : Nat) : Option (List Write × Bool) :=
  σ.reserveWrites.bind fun (ws, ok) =>
    let σ' := σ.run ws
    if ok then
      (σ'.putWrites σ'.current unit s).map fun ws' =>
        (ws ++ ws' ++ [.counts (σ'.used + 1) (σ'.live + 1)], true)
    else some (ws, false)

def delWrites (σ : Shared) (unit : Nat) : List Write :=
  match (σ.table σ.current).probe unit with
  | none => []
  | some i =>
      if ((σ.table σ.current).slot i).span = 0 then []
      else [.span σ.current i unitTomb, .counts σ.used (σ.live - 1)]

def delUnitsWrites : (left : Nat) → (v : Nat) → Shared → List Write
  | 0, _, _ => []
  | left + 1, v, σ => σ.delWrites v ++ delUnitsWrites left (v + 1) (σ.run (σ.delWrites v))

def addUnitsWrites (s first : Nat) : (left : Nat) → (u : Nat) → Shared → Option (List Write × Bool)
  | 0, _, _ => some ([], true)
  | left + 1, u, σ =>
      (σ.addWrites u s).bind fun (ws, ok) =>
        if ok then (addUnitsWrites s first left (u + 1) (σ.run ws)).map fun r => (ws ++ r.1, r.2)
        else some (ws ++ delUnitsWrites (u - first) first (σ.run ws), false)

/-- What `mm_span_register` stores for a mapped span. -/
def registerWrites (σ : Shared) (s : Nat) : Option (List Write × Bool) :=
  addUnitsWrites s (σ.desc s).firstUnit (σ.desc s).unitCount (σ.desc s).firstUnit σ

/-- What `mm_span_unregister` stores for a mapped span. -/
def unregisterWrites (σ : Shared) (s : Nat) : List Write :=
  delUnitsWrites (σ.desc s).unitCount (σ.desc s).firstUnit σ

end Shared

/-! ### One lookup -/

/-- Where a thread stands in `mm_span_lookup_uncached`: what it loads next. -/
inductive Looking where
  | idle
  | user
  | userLo (u : Nat)
  | userHi (u : Nat)
  | index
  | span (t i probes : Nat)
  | unit (t i probes s : Nat)
  | again (t : Nat)
  | magic (s : Nat)
  | lo (s : Nat)
  | hi (s : Nat)
  | returned (s : Nat)
  deriving DecidableEq

/-- One load, and what is decided by it; `probes` is how many slots are still to be looked at. -/
def lookStep (σ : Shared) (p : Nat) : Looking → Looking
  | .idle => .idle
  | .user => if σ.user ≠ 0 then .userLo σ.user else .index
  | .userLo u => if (σ.desc u).lo ≤ p then .userHi u else .index
  | .userHi u => if p < (σ.desc u).hi then .returned u else .index
  | .index =>
      let ix := σ.table σ.current
      .span σ.current (slotFor (unitOf p) ix.cap) ix.cap
  | .span t _ 0 => .again t
  | .span t i (probes + 1) =>
      let s := ((σ.table t).slot i).span
      if s = 0 then .again t
      else if s = unitTomb then .span t ((i + 1) &&& ((σ.table t).cap - 1)) probes
      else .unit t i probes s
  | .unit t i probes s =>
      if ((σ.table t).slot i).unit = unitOf p then .magic s
      else .span t ((i + 1) &&& ((σ.table t).cap - 1)) probes
  | .again t => if σ.current = t then .returned 0 else .index
  | .magic s => if (σ.desc s).magic ≠ spanMagicFor s then .returned 0 else .lo s
  | .lo s => if (σ.desc s).lo ≤ p then .hi s else .returned 0
  | .hi s => if p < (σ.desc s).hi then .returned s else .returned 0
  | .returned s => .returned s

def Looking.resting : Looking → Bool
  | .idle | .returned _ => true
  | _ => false

/-! ### Writers and a lookup -/

inductive DescriptorField where
  | magic | lo | hi | mapBase | mapSize | chunk | large
  deriving DecidableEq

def Descriptor.set (d : Descriptor) (v : Nat) : DescriptorField → Descriptor
  | .magic => { d with magic := v }
  | .lo => { d with lo := v }
  | .hi => { d with hi := v }
  | .mapBase => { d with mapBase := v }
  | .mapSize => { d with mapSize := v }
  | .chunk => { d with kind := .chunk }
  | .large => { d with kind := .large }

structure LookupRun where
  shared : Shared
  /-- The one descriptor of caller-supplied memory, `user` in `mm_arena_install_user`. -/
  installed : Nat
  /-- What the thread that holds `g_index_lock` has still to store. -/
  pending : List Write
  /-- The mapped spans that are registered, and those that will be once the lock is given back. -/
  registered : List (Nat × Descriptor)
  outcome : List (Nat × Descriptor)
  /-- Every mapped span, and every caller-supplied one, whose registration has begun. -/
  past : List Descriptor
  installs : List Descriptor
  looking : Looking
  address : Nat
  /-- The mapped spans registered ever since the lookup began. -/
  since : List (Nat × Descriptor)
  /-- So is the caller-supplied one. -/
  userSince : Bool

inductive LookupEvent where
  | register (s : Nat)
  | unregister (s : Nat)
  | write
  | field (s : Nat) (f : DescriptorField) (v : Nat)
  | lookup (p : Nat)
  | load

namespace LookupRun

def start (desc : Nat → Descriptor) (supply : List Bool) (installed : Nat) : LookupRun :=
  ⟨Shared.start desc supply, installed, [], [], [], [], [], .idle, 0, [], false⟩

/-- The lock is given back after the last store. -/
def settle (ρ : LookupRun) : LookupRun :=
  if ρ.pending = [] then { ρ with registered := ρ.outcome } else ρ

def without (s : Nat) (l : List (Nat × Descriptor)) : List (Nat × Descriptor) :=
  l.filter fun x => x.1 != s

/-- `none` where `index_put` would go round for ever. -/
def register (ρ : LookupRun) (s : Nat) : Option LookupRun :=
  let d := ρ.shared.desc s
  if d.kind = .user then some { ρ with
    shared := { ρ.shared with user := s }
    installs := d :: ρ.installs }
  else (ρ.shared.registerWrites s).map fun (ws, ok) => settle { ρ with
    pending := ws
    outcome := if ok then (s, d) :: ρ.registered else ρ.registered
    past := d :: ρ.past }

def unregister (ρ : LookupRun) (s : Nat) : LookupRun :=
  if (ρ.shared.desc s).kind = .user then
    if ρ.shared.user = s then { ρ with
      shared := { ρ.shared with user := 0 }
      userSince := false }
    else ρ
  else settle { ρ with
    pending := ρ.shared.unregisterWrites s
    registered := without s ρ.registered
    outcome := without s ρ.registered
    since := without s ρ.since }

def write (ρ : LookupRun) : LookupRun :=
  match ρ.pending with
  | [] => ρ
  | w :: ws => settle { ρ with shared := ρ.shared.write w, pending := ws }

def next (ρ : LookupRun) : LookupEvent → Option LookupRun
  | .register s => ρ.register s
  | .unregister s => some (ρ.unregister s)
  | .write => some ρ.write
  | .field s f v => some { ρ with shared := { ρ.shared with
      desc := Function.update ρ.shared.desc s ((ρ.shared.desc s).set v f) } }
  | .lookup p => some { ρ with
      looking := .user
      address := p
      since := ρ.registered
      userSince := ρ.shared.user != 0 }
  | .load => some { ρ with looking := lookStep ρ.shared ρ.address ρ.looking }

end LookupRun

end Mars
