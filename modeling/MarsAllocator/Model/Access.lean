import MarsAllocator.Model.Core

namespace Mars

open ByteMemory StateProgram

variable (P : Profile)

/-- The block, validated with the range `[offset, offset + len)` of its payload, or NULL. -/
def checkedBlock (ptr offset len : Nat) : HeapM Nat := do
  let b ← blockOf P ptr
  if b = 0 then pure 0
  else do
    let sound ← (do
      if ← headerOk P b then pure true else rescue P b)
    if !sound then pure 0
    else if ← isQuarantined b then
      fail .quarantined
      pure 0
    else if !(← isUsed b) then
      fail .invalidPtr
      pure 0
    else if !(← canaryOk P b) then
      quarantine P b
      pure 0
    else do
      let requested ← requestedSize P b
      if requested < offset ∨ requested - offset < len then do
        fail .oob
        pure 0
      else pure b

/-- The bytes copied out, or nothing for `-1`. -/
def readUnlocked (ptr offset len : Nat) : HeapM (Option (List UInt8)) := do
  let b ← checkedBlock P ptr offset len
  if b = 0 then pure none
  else if ← payloadOk P b then
    let v ← loadN (payloadOf P b + offset) len
    return some (Memory.toBytes v len)
  else do
    quarantine P b
    fail .corruptPayload
    pure none

/-- How many bytes were written, or nothing for `-1`. -/
def writeUnlocked (ptr offset : Nat) (src : List UInt8) : HeapM (Option Nat) := do
  let b ← checkedBlock P ptr offset src.length
  if b = 0 then pure none
  else do
    storeN (payloadOf P b + offset) src.length (Memory.ofBytes src)
    if ← canaryOk P b then
      let live ← payloadCrcLive P
      Prog.when live do
        let r ← requestedSize P b
        let v ← loadN (payloadOf P b) r
        setPayloadCrc P b (payloadCrcOf v r)
        sealHeader P b
      pure (some src.length)
    else do
      quarantine P b
      pure none

/-- The caller's buffer of `mm_write`. -/
inductive Source where
  | null (len : Nat)
  | data (src : List UInt8)

def mmRead (ptr offset : Nat) (bufNull : Bool) (len : Nat) : HeapM (Option (List UInt8)) := do
  clearError
  if bufNull ∧ len ≠ 0 then do
    fail .invalidPtr
    pure none
  else readUnlocked P ptr offset len

def mmWrite (ptr offset : Nat) (src : Source) : HeapM (Option Nat) := do
  clearError
  match src with
  | .null 0 => writeUnlocked P ptr offset []
  | .null (_ + 1) => do
      fail .invalidPtr
      pure none
  | .data src => writeUnlocked P ptr offset src

end Mars
