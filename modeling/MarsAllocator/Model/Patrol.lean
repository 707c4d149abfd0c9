import MarsAllocator.Model.Recovery

namespace Mars

open StateProgram

variable (P : Profile)

def scrubLeave (s : Span) : HeapM Unit :=
  Prog.modify fun h =>
    if h.scrubSpan = some s then { h with scrubSpan := none, scrubAt := 0 } else h

def scrubBlock (b : Nat) : HeapM Status := do
  if ← canaryOk P b then
    if ← isUsed b then
      if ← payloadOk P b then pure .ok else pure .corruptPayload
    else do
      let n ← blockSize b
      let tag ← load64 (b + n - 8)
      if tag = n then pure .ok
      else do
        -- Without a checksum nothing says which of the two copies is wrong.
        Prog.when P.hasCrc do
          writeFreeFooter b
          statNote .repair n
        pure .corruptLinks
  else do
    quarantine P b
    pure .corruptCanary

/-- The patrol's locals: where it is, how much it has seen, and the first thing it found. -/
structure Lap where
  span : Span
  pos : Nat
  visited : Nat := 0
  hits : Nat := 0
  found : Status := .ok

def Lap.note (lap : Lap) (status : Status) : Lap :=
  if status = .ok then lap
  else { lap with hits := lap.hits + 1, found := if lap.found = .ok then status else lap.found }

def spanAfter (s : Span) : List Span → Option Span
  | [] => none
  | x :: rest => if x = s then rest.head? else spanAfter s rest

/-- `s->next`, or the first span again after the last. -/
def Heap.nextSpan (h : Heap) (s : Span) : Span :=
  ((spanAfter s h.spans).or h.spans.head?).getD s

def lapSpan (lap : Lap) : HeapM Lap :=
  if lap.span.hi ≤ lap.pos then do
    let s ← Prog.read fun h => h.nextSpan lap.span
    pure { lap with span := s, pos := s.lo }
  else pure lap

/-- Recovery for the block under the cursor, where its extent is still legible. -/
def scrubRescue (b : Nat) : HeapM Bool := do
  let legible ← isBlock P b
  Prog.when legible do
    let _ ← rescue P b
    pure ()
  headerOk P b

def scrubStep (lap : Lap) : HeapM Lap := do
  let st ← scrubBlock P lap.pos
  let n ← blockSize lap.pos
  return { lap.note st with visited := lap.visited + 1, pos := lap.pos + n }

def scrubLoop (budget : Nat) : (guard : Nat) → Lap → HeapM Lap
  | 0, lap => pure lap
  | guard + 1, lap =>
      if lap.visited < budget then do
        let lap ← lapSpan lap
        if ← headerOk P lap.pos then
          let lap ← scrubStep P lap
          scrubLoop budget guard lap
        else if ← scrubRescue P lap.pos then
          let lap ← scrubStep P (lap.note .corruptHeader)
          scrubLoop budget guard lap
        else scrubLoop budget guard { lap.note .corruptHeader with pos := lap.span.lo }
      else pure lap

def setCursor (s : Span) (p : Nat) : HeapM Unit :=
  Prog.modify fun h => { h with scrubSpan := some s, scrubAt := p }

def scrubEnd (lap : Lap) : HeapM Status := do
  setCursor lap.span lap.pos
  statNote .scrub lap.visited
  Prog.when (0 < lap.hits) (statNote .scrubHit lap.hits)
  Prog.when (lap.found ≠ .ok) (fail lap.found)
  pure lap.found

/-- Where the patrol resumes in `s`: at the cursor, or at the first block if it is elsewhere. -/
def lapStart (s : Span) (cursor : Nat) : Nat :=
  if cursor = 0 ∨ cursor < s.lo ∨ s.hi ≤ cursor then s.lo else cursor

def scrubRun (budgetBlocks : Nat) : HeapM Status :=
  if budgetBlocks = 0 then pure .ok
  else do
    let s ← Prog.read fun h => h.scrubSpan.or h.spans.head?
    Prog.elim s (pure .ok) fun s => do
      let cursor ← Prog.read Heap.scrubAt
      let blocks ← maxBlocks P
      let spans ← Prog.read Heap.spanCount
      let lap ← scrubLoop P budgetBlocks (blocks + spans) { span := s, pos := lapStart s cursor }
      scrubEnd lap

def arenaLive : HeapM Bool := Prog.read fun h => !h.spans.isEmpty

def countOp : HeapM Unit := Prog.modify fun h => { h with ops := h.ops + 1 }

def setOpsSinceScrub (n : Nat) : HeapM Unit := Prog.modify fun h => { h with opsSinceScrub := n }

def scrubTick : HeapM Unit := do
  countOp
  let due ← Prog.read fun h => h.scrubInterval != 0 && !h.spans.isEmpty
  Prog.when due do
    let since ← Prog.read fun h => h.opsSinceScrub + 1
    setOpsSinceScrub since
    let interval ← Prog.read Heap.scrubInterval
    Prog.when (interval ≤ since) do
      setOpsSinceScrub 0
      let budget ← Prog.read Heap.scrubBudget
      let _ ← scrubRun P budget
      pure ()

def scrub (budgetBlocks : Nat) : HeapM Status := do
  clearError
  if ← arenaLive then scrubRun P budgetBlocks
  else do
    fail .notInitialized
    pure .notInitialized

end Mars
