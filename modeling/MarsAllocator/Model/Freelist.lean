import MarsAllocator.Model.Validation

namespace Mars

open StateProgram

variable (P : Profile)

/-! ### The bitmap -/

def bitmapSet (bin : Nat) : HeapM Unit :=
  Prog.modify fun h => { h with
    binBitmap := Function.update h.binBitmap (bin / 64)
      (h.binBitmap (bin / 64) ||| (1#64 <<< (bin % 64))) }

def bitmapClear (bin : Nat) : HeapM Unit :=
  Prog.modify fun h => { h with
    binBitmap := Function.update h.binBitmap (bin / 64)
      (h.binBitmap (bin / 64) &&& ~~~(1#64 <<< (bin % 64))) }

def bitmapTest (bin : Nat) : HeapM Bool :=
  Prog.read fun h => (h.binBitmap (bin / 64)).getLsbD (bin % 64)

def lowestBit (w : BitVec 64) : Nat := ((List.range 64).find? w.getLsbD).getD 64

def nextNonemptyFrom (bitmap : Nat → BitVec 64) : Nat → Nat → BitVec 64 → Nat
  | 0, _, _ => binCount
  | fuel + 1, word, w =>
      if w ≠ 0 then word * 64 + lowestBit w
      else if binWords ≤ word + 1 then binCount
      else nextNonemptyFrom bitmap fuel (word + 1) (bitmap (word + 1))

def nextNonempty (start : Nat) : HeapM Nat :=
  if binCount ≤ start then pure binCount
  else Prog.read fun h =>
    nextNonemptyFrom h.binBitmap binWords (start / 64)
      (h.binBitmap (start / 64) &&& (BitVec.allOnes 64 <<< (start % 64)))

/-! ### Validation -/

def nodeOk (b bin : Nat) : HeapM Bool := do
  if ← isBlock P b then
    if ← headerOk P b then
      if ← isUsed b then pure false
      else do
        let n ← blockSize b
        return binOf P n == bin
    else pure false
  else pure false

/-- `next` is NULL, or a member of the bin whose back-link names `b`. -/
def nextLinkOk (b bin next : Nat) : HeapM Bool :=
  if next = 0 then pure true
  else Prog.and (nodeOk P next bin) do
    let back ← freeLinkGet P next .prev
    return back == b

/-- `prev` is a member of the bin whose forward link names `b`, or NULL with `b` at the head. -/
def prevLinkOk (b bin prev : Nat) : HeapM Bool :=
  if prev = 0 then Prog.read fun h => h.bins bin == b
  else Prog.and (nodeOk P prev bin) do
    let forward ← freeLinkGet P prev .next
    return forward == b

def linksOk (b bin : Nat) : HeapM Bool := do
  if ← nodeOk P b bin then
    let next ← freeLinkGet P b .next
    let prev ← freeLinkGet P b .prev
    Prog.and (nextLinkOk P b bin next) (prevLinkOk P b bin prev)
  else pure false

/-! ### Insert and remove -/

def setBin (bin b : Nat) : HeapM Unit :=
  Prog.modify fun h => { h with bins := Function.update h.bins bin b }

def binPush (b bin : Nat) : HeapM Unit := do
  let head ← Prog.read fun h => h.bins bin
  freeLinkSet P b .next head
  freeLinkSet P b .prev 0
  Prog.when (head ≠ 0) (freeLinkSet P head .prev b)
  setBin bin b
  bitmapSet bin

def binsReset : HeapM Unit :=
  Prog.modify fun h => { h with bins := fun _ => 0, binBitmap := fun _ => 0 }

/-- The rebuild's walk of `s` from `p`. -/
def rebuildSpan (s : Span) : (budget : Nat) → (p : Nat) → HeapM Unit
  | 0, _ => pure ()
  | budget + 1, p =>
      if p < s.hi then do
        if ← headerOk P p then
          if ← isUsed p then
            let n ← blockSize p
            rebuildSpan s budget (p + n)
          else if ← extentCorroborated P p then
            let n ← blockSize p
            binPush P p (binOf P n)
            let n ← blockSize p
            rebuildSpan s budget (p + n)
          else fail .corruptLinks
        else pure ()
      else pure ()

def rebuildSpans : List Span → HeapM Unit
  | [] => pure ()
  | s :: rest => do
      rebuildSpan P s (spanMaxBlocks P s) s.lo
      rebuildSpans rest

def binsRebuild : HeapM Unit := do
  binsReset
  let spans ← Prog.read Heap.spans
  rebuildSpans P spans

/-- The bin the recorded extent of `b` asks for. -/
def binOfBlock (b : Nat) : HeapM Nat := do
  let n ← blockSize b
  return binOf P n

def binInsert (b : Nat) : HeapM Unit := do
  let bin ← binOfBlock P b
  let head ← Prog.read fun h => h.bins bin
  let sound ← (if head = 0 then pure true else nodeOk P head bin)
  if sound then binPush P b bin
  else do
    fail .corruptLinks
    binsRebuild P

/-- Splices `b` out of the list its links name. -/
def binUnlink (b bin : Nat) : HeapM Unit := do
  let next ← freeLinkGet P b .next
  let prev ← freeLinkGet P b .prev
  (if prev ≠ 0 then freeLinkSet P prev .next next
    else do
      setBin bin next
      Prog.when (next = 0) (bitmapClear bin))
  Prog.when (next ≠ 0) (freeLinkSet P next .prev prev)

def binRemove (b : Nat) : HeapM Unit := do
  let bin ← binOfBlock P b
  if ← linksOk P b bin then binUnlink P b bin
  else do
    fail .corruptLinks
    binsRebuild P
    if ← linksOk P b bin then binUnlink P b bin
    else if ← isUsed b then pure ()
    else do
      freeLinkSet P b .next 0
      freeLinkSet P b .prev 0

/-! ### Search -/

/-- The outcome of probing a bin: the block found or NULL, and whether the bin is damaged. -/
structure Probe where
  block : Nat
  damaged : Bool

def scanBinFrom (bin need : Nat) : (left : Nat) → (back cur : Nat) → HeapM Probe
  | 0, _, _ => pure ⟨0, false⟩
  | left + 1, back, cur =>
      if cur = 0 then pure ⟨0, false⟩
      else do
        let ok ← Prog.and (nodeOk P cur bin) do
          let p ← freeLinkGet P cur .prev
          return p == back
        if ok then
          let n ← blockSize cur
          if need ≤ n then pure ⟨cur, false⟩
          else do
            let next ← freeLinkGet P cur .next
            scanBinFrom bin need left cur next
        else pure ⟨0, true⟩

def scanBin (bin need : Nat) : HeapM Probe := do
  let head ← Prog.read fun h => h.bins bin
  scanBinFrom P bin need binScanCap 0 head

def binHead (bin : Nat) : HeapM Probe := do
  let head ← Prog.read fun h => h.bins bin
  if head = 0 then pure ⟨0, true⟩
  else do
    let ok ← Prog.and (nodeOk P head bin) do
      let p ← freeLinkGet P head .prev
      return p == 0
    if ok then pure ⟨head, false⟩ else pure ⟨0, true⟩

/-- One attempt of the search: the request's own bin, then the head of the next non-empty one. -/
def binProbe (need : Nat) : HeapM Probe := do
  let own ← scanBin P (binOf P need) need
  if own.block ≠ 0 ∨ own.damaged then pure own
  else do
    let j ← nextNonempty (binOf P need + 1)
    if j < binCount then binHead P j else pure ⟨0, false⟩

def binFindFrom (need : Nat) : (attempts : Nat) → HeapM Nat
  | 0 => pure 0
  | attempts + 1 => do
      let found ← binProbe P need
      if found.block ≠ 0 then pure found.block
      else if found.damaged then do
        fail .corruptLinks
        binsRebuild P
        binFindFrom need attempts
      else pure 0

def binFind (need : Nat) : HeapM Nat := binFindFrom P need 2

/-! ### Consistency -/

/-- The walk of bin `i` in `mm_bins_check`: how many members it saw, or nothing at the first
disagreement. -/
def binWalk (i : Nat) : (budget : Nat) → (back cur seen : Nat) → HeapM (Option Nat)
  | 0, _, cur, seen => pure (if cur = 0 then some seen else none)
  | budget + 1, back, cur, seen =>
      if cur = 0 then pure (some seen)
      else do
        let ok ← Prog.and (headerOk P cur) do
          if ← isUsed cur then pure false
          else do
            let n ← blockSize cur
            let p ← freeLinkGet P cur .prev
            return binOf P n == i && p == back
        if ok then
          let next ← freeLinkGet P cur .next
          binWalk i budget cur next (seen + 1)
        else pure none

def binCheck (counts : Nat → Nat) (i : Nat) : HeapM Bool := do
  let bit ← bitmapTest i
  let head ← Prog.read fun h => h.bins i
  if bit != (head != 0) then pure false
  else do
    let budget ← maxBlocks P
    let seen ← binWalk P i budget 0 head 0
    return seen == some (counts i)

def binsCheckFrom (counts : Nat → Nat) : (left : Nat) → HeapM Status
  | 0 => pure .ok
  | left + 1 => do
      if ← binCheck P counts (binCount - (left + 1)) then binsCheckFrom counts left
      else do
        fail .corruptLinks
        pure .corruptLinks

def binsCheck (counts : Nat → Nat) : HeapM Status := binsCheckFrom P counts binCount

end Mars
