import MarsAllocator.Model.Access

namespace Mars

open StateProgram

variable (P : Profile)

def failWith (status : Status) : HeapM Status := do
  fail status
  pure status

def verifyUnlocked (ptr : Nat) : HeapM Status := do
  let b ← blockOf P ptr
  if b = 0 then Prog.read Heap.lastError
  else if !(← headerOk P b) then failWith .corruptHeader
  else if ← isQuarantined b then failWith .quarantined
  else if !(← canaryOk P b) then failWith .corruptCanary
  else do
    let sound ← (do
      if ← isUsed b then payloadOk P b else pure true)
    if !sound then failWith .corruptPayload
    else do
      let mode ← Prog.read Heap.mode
      if mode = .libc then failWith .degraded else pure .ok

/-- What `check_heap_unlocked` has counted, and what it remembers of the block before. -/
structure Tally where
  lost : Nat := 0
  perBin : Nat → Nat := fun _ => 0
  covered : Nat := 0
  havePrev : Bool := false
  prevFree : Bool := false

def Tally.expectPrevUsed (t : Tally) : Bool := if t.havePrev then !t.prevFree else true

def Tally.addUsed (t : Tally) (n : Nat) (quarantined : Bool) : Tally :=
  { t with
    lost := if quarantined then t.lost + n else t.lost
    covered := t.covered + n
    havePrev := true
    prevFree := false }

def Tally.addFree (t : Tally) (n : Nat) : Tally :=
  { t with
    perBin := Function.update t.perBin (binOf P n) (t.perBin (binOf P n) + 1)
    covered := t.covered + n
    havePrev := true
    prevFree := true }

def checkFailed (status : Status) : HeapM (Except Status Tally) := do
  fail status
  pure (.error status)

def checkBlock (p : Nat) (t : Tally) : HeapM (Except Status Tally) := do
  let sound ← Prog.and (isBlock P p) (headerOk P p)
  if !sound then checkFailed .corruptHeader
  else if (← prevInUse p) != t.expectPrevUsed then checkFailed .corruptLinks
  else if !(← canaryOk P p) then checkFailed .corruptCanary
  else do
    let n ← blockSize p
    if ← isUsed p then
      let q ← isQuarantined p
      pure (.ok (t.addUsed n q))
    else do
      let tag ← load64 (p + n - 8)
      if tag ≠ n then checkFailed .corruptLinks
      else if t.prevFree then checkFailed .corruptLinks
      else pure (.ok (t.addFree P n))

def checkSpan (s : Span) : (budget : Nat) → (p : Nat) → Tally → HeapM (Except Status Tally)
  | 0, p, t => if p < s.hi then checkFailed .corruptLinks else pure (.ok t)
  | budget + 1, p, t =>
      if p < s.hi then do
        let next ← checkBlock P p t
        Prog.either next (fun status => pure (.error status)) fun t => do
          let n ← blockSize p
          checkSpan s budget (p + n) t
      else pure (.ok t)

def checkSpans : List Span → Tally → HeapM (Except Status Tally)
  | [], t => pure (.ok t)
  | s :: rest, t => do
      let seen ← checkSpan P s (spanMaxBlocks P s) s.lo
        { t with covered := 0, havePrev := false, prevFree := false }
      Prog.either seen (fun status => pure (.error status)) fun t =>
        if t.covered ≠ s.hi - s.lo then checkFailed .corruptLinks else checkSpans rest t

def checkHeapUnlocked : HeapM Status := do
  if !(← arenaLive) then failWith .notInitialized
  else do
    let spans ← Prog.read Heap.spans
    let seen ← checkSpans P spans {}
    Prog.either seen pure fun t => do
      let lost ← Prog.read Heap.lostBytes
      if t.lost ≠ lost then failWith .corruptLinks else binsCheck P t.perBin

def forgetPayloadCrcsIn (s : Span) : (budget : Nat) → (p : Nat) → HeapM Unit
  | 0, _ => pure ()
  | budget + 1, p =>
      if p < s.hi then do
        if ← headerOk P p then
          let c ← payloadCrc P p
          Prog.when (c ≠ 0) do
            setPayloadCrc P p 0
            sealHeader P p
          let n ← blockSize p
          forgetPayloadCrcsIn s budget (p + n)
        else pure ()
      else pure ()

def forgetPayloadCrcs : List Span → HeapM Unit
  | [] => pure ()
  | s :: rest => do
      forgetPayloadCrcsIn P s (spanMaxBlocks P s) s.lo
      forgetPayloadCrcs rest

/-- `mm_set_mode` on one arena. -/
def setModeUnlocked (mode : Mode) : HeapM Unit := do
  let now ← Prog.read Heap.mode
  Prog.when (now ≠ mode) do
    Prog.modify fun h => { h with mode := mode }
    let spans ← Prog.read Heap.spans
    Prog.when (P.hasCrc ∧ mode = .libc) (forgetPayloadCrcs P spans)

/-- `size_of_live`: 0 for anything that is not a live block. -/
def sizeOfLive (ptr : Nat) : HeapM Nat := do
  let b ← blockOf P ptr
  if b = 0 then pure 0
  else if !(← headerOk P b) then pure 0
  else if !(← isUsed b) then pure 0
  else if ← isQuarantined b then pure 0
  else requestedSize P b

end Mars
