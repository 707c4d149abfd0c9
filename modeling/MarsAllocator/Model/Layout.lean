import MarsAllocator.Model.Crc32

namespace Mars

inductive Profile where
  | fast | hardened | paranoid
  deriving DecidableEq, Repr

namespace Profile

def hasCrc : Profile → Bool
  | fast => false
  | _ => true

def hasCanary : Profile → Bool
  | fast => false
  | _ => true

def hasMirror : Profile → Bool
  | paranoid => true
  | _ => false

def hdrSize (P : Profile) : Nat := if P.hasCrc then 16 else 8

def canarySize (P : Profile) : Nat := if P.hasCanary then 8 else 0

def mirrorSize (P : Profile) : Nat := if P.hasMirror then P.hdrSize else 0

def trail (P : Profile) : Nat := P.canarySize + P.mirrorSize

end Profile

def alignment : Nat := 16

def sizeMax : Nat := 2 ^ 64 - 1

/-- Subtraction of two `size_t` values. -/
def usub (a b : Nat) : Nat := (a + 2 ^ 64 - b) % 2 ^ 64

/-- Addition of two `size_t` values. -/
def uadd (a b : Nat) : Nat := (a + b) % 2 ^ 64

def roundUp (n unit : Nat) : Nat := uadd n (unit - 1) &&& (sizeMax ^^^ (unit - 1))

namespace Profile

def freeMin (P : Profile) : Nat := P.hdrSize + 2 * 8 + 8

def usedMin (P : Profile) : Nat := P.hdrSize + 1 + P.trail

def minBlock (P : Profile) : Nat := roundUp (max P.freeMin P.usedMin) alignment

def blockOffset (P : Profile) : Nat := (alignment - P.hdrSize % alignment) % alignment

def slackRounding (P : Profile) : Nat := P.trail + alignment - 1

def slackFloor (P : Profile) : Nat := P.minBlock - P.hdrSize - 1

def slackCarved (P : Profile) : Nat := max P.slackFloor P.slackRounding

def slackMax (P : Profile) : Nat := P.slackCarved + P.minBlock - alignment

theorem layout_asserts (P : Profile) :
    P.hdrSize % 8 = 0 ∧ (P.blockOffset + P.hdrSize) % alignment = 0 ∧
      P.minBlock % alignment = 0 ∧ P.freeMin ≤ P.minBlock ∧ P.usedMin ≤ P.minBlock ∧
      P.slackMax ≤ 127 ∧ (P.mirrorSize = 0 ∨ P.mirrorSize = P.hdrSize) := by
  cases P <;> decide

theorem sizes (P : Profile) :
    P.hdrSize = 8 ∧ P.canarySize = 0 ∧ P.mirrorSize = 0 ∧ P.trail = 0 ∧ P.minBlock = 32 ∨
      P.hdrSize = 16 ∧ P.canarySize = 8 ∧ P.mirrorSize = 0 ∧ P.trail = 8 ∧ P.minBlock = 48 ∨
        P.hdrSize = 16 ∧ P.canarySize = 8 ∧ P.mirrorSize = 16 ∧ P.trail = 24 ∧ P.minBlock = 48 := by
  cases P <;> decide

theorem hdrSize_of_crc {P : Profile} (h : P.hasCrc = true) : P.hdrSize = 16 := by
  rw [hdrSize, if_pos h]

theorem mirrorSize_of_mirror {P : Profile} (h : P.hasMirror = true) : P.mirrorSize = P.hdrSize := by
  rw [mirrorSize, if_pos h]

end Profile

/-! ### The control word -/

def wInUse : Nat := 1 <<< 0
def wPrevInUse : Nat := 1 <<< 1
def wQuarantined : Nat := 1 <<< 2
def wSlackShift : Nat := 3
def wSlackBits : Nat := 7
def wSlackMask : Nat := 1 <<< wSlackBits - 1
def wSizeShift : Nat := wSlackShift + wSlackBits
def wFlagsMask : Nat := 1 <<< wSizeShift - 1

def wordSize (w : Nat) : Nat := (w >>> wSizeShift) * alignment

def wordUsed (w : Nat) : Bool := w &&& wInUse != 0

def wordPrevInUse (w : Nat) : Bool := w &&& wPrevInUse != 0

def wordQuarantined (w : Nat) : Bool := w &&& wQuarantined != 0

def wordSlack (w : Nat) : Nat := (w >>> wSlackShift) &&& wSlackMask

/-- The extent field of a word: whatever does not fit its 54 bits is shifted out. -/
def sizeField (n : Nat) : Nat := ((n / alignment) <<< wSizeShift) % 2 ^ 64

def wordSetSize (w n : Nat) : Nat := (w &&& wFlagsMask) ||| sizeField n

def wordSetPrevInUse (w : Nat) (used : Bool) : Nat :=
  if used then w ||| wPrevInUse else w &&& (sizeMax ^^^ wPrevInUse)

/-- `mm_set_word` on a block whose word was `w`. -/
def wordSet (w blockSize slack : Nat) (used quarantined : Bool) : Nat :=
  sizeField blockSize ||| ((slack &&& wSlackMask) <<< wSlackShift) |||
    (if quarantined then wQuarantined else 0) ||| (if used then wInUse else 0) |||
    (w &&& wPrevInUse)

def canaryPattern : Nat := 0xCAFEBABECAFEBABE

def canaryValue (index secret : Nat) : Nat :=
  canaryPattern ^^^ secret ^^^ ((index * 0x9E3779B97F4A7C15) % 2 ^ 64)

/-- The four 64-bit words fed to the header checksum, as one 32-byte number. -/
def hdrFields (word payloadCrc index secret : Nat) : Nat :=
  word + 2 ^ 64 * payloadCrc + 2 ^ 128 * index + 2 ^ 192 * secret

def hdrCrcOf (word payloadCrc index secret : Nat) : Nat :=
  crc32c (hdrFields word payloadCrc index secret) 32

def payloadCrcOf (payload len : Nat) : Nat :=
  let c := crc32c payload len
  if c = 0 then 1 else c

theorem payloadCrcOf_ne_zero (payload len : Nat) : payloadCrcOf payload len ≠ 0 := by
  unfold payloadCrcOf
  dsimp only
  split <;> omega

theorem payloadCrcOf_lt (payload len : Nat) : payloadCrcOf payload len < 2 ^ 32 := by
  have h := crc32c_lt payload len
  unfold payloadCrcOf
  dsimp only
  split
  · decide
  · exact h

/-- Block size needed for `payload` bytes, 0 when the sum does not fit a `size_t`. -/
def sizeFor (P : Profile) (payload : Nat) : Nat :=
  if payload > sizeMax - P.hdrSize - P.trail - alignment then 0
  else max (roundUp (payload + P.hdrSize + P.trail) alignment) P.minBlock

/-! ### Size to bin -/

def smallBins : Nat := 64
def largeBins : Nat := 64
def binCount : Nat := smallBins + largeBins
def binWords : Nat := binCount / 64
def largeOctave0 : Nat := 10
def largeSubbins : Nat := 4
def binScanCap : Nat := 16

def Profile.largeMin (P : Profile) : Nat := P.minBlock + alignment * smallBins

def floorLog2 (n : Nat) : Nat := Nat.log2 n

def binOf (P : Profile) (n : Nat) : Nat :=
  if n < P.largeMin then
    if n ≤ P.minBlock then 0 else (n - P.minBlock) / alignment
  else
    let k := floorLog2 n
    let sub := (n >>> (k - 2)) &&& 3
    let idx := smallBins + (k - largeOctave0) * largeSubbins + sub
    if idx < binCount then idx else binCount - 1

end Mars
