import MarsAllocator.Steps.Entry

namespace Mars

open ByteMemory StateProgram

/-- Two states with the same arena, the same memory and the same platform: what may differ is the
thread's status, the log of it, the counters and the record of stray accesses. -/
inductive Alike (h : Heap) : Heap → Prop
  | mk (lastError : Status) (raised : List Status) (stats : Stats) (wild : Bool) :
      Alike h { h with lastError := lastError, raised := raised, stats := stats, wild := wild }

instance : Std.Refl Alike := ⟨fun h => .mk h.lastError h.raised h.stats h.wild⟩

instance : IsTrans Heap Alike := ⟨fun _ _ _ => by
  rintro ⟨_, _, _, _⟩ ⟨_, _, _, _⟩
  exact .mk _ _ _ _⟩

theorem Alike.symm {h h' : Heap} (ha : Alike h h') : Alike h' h := by
  obtain ⟨e, r, c, w⟩ := ha
  exact .mk (h := { h with lastError := e, raised := r, stats := c, wild := w }) h.lastError
    h.raised h.stats h.wild

/-- `x` writes nothing, and what it returns depends on nothing a status can change. -/
class Observes {α : Type} (x : HeapM α) : Prop extends Respects Alike x where
  value : ∀ {h h' : Heap}, Alike h h' → (x h').1 = (x h).1

theorem observes_read {α : Type} {f : Heap → α}
    (hf : ∀ h e r c w, f { h with lastError := e, raised := r, stats := c, wild := w } = f h) :
    Observes (Prog.read f) where
  value ha := by
    obtain ⟨e, r, c, w⟩ := ha
    exact hf _ e r c w

namespace Observes

variable {α β : Type}

instance pure (a : α) : Observes (Pure.pure a : HeapM α) where
  value _ := rfl

instance bind (x : HeapM α) (f : α → HeapM β) [hx : Observes x] [hf : ∀ a, Observes (f a)] :
    Observes (x >>= f) where
  value {h h'} ha := by
    have hs : Alike (x h).2 (x h').2 :=
      trans_of Alike (hx.step h).symm (trans_of Alike ha (hx.step h'))
    rw [Prog.bind_run, Prog.bind_run, hx.value ha]
    exact (hf _).value hs

instance ite {c : Prop} [Decidable c] (x y : HeapM α) [hx : Observes x] [hy : Observes y] :
    Observes (if c then x else y) := by
  split <;> assumption

instance elim (o : Option α) (x : HeapM β) (f : α → HeapM β) [Observes x] [∀ a, Observes (f a)] :
    Observes (Prog.elim o x f) := by
  cases o
  · rw [Prog.elim_none]; infer_instance
  · rw [Prog.elim_some]; infer_instance

instance and (x y : HeapM Bool) [Observes x] [Observes y] : Observes (Prog.and x y) := by
  unfold Prog.and; infer_instance

variable (P : Profile) (s : Span)

instance loadN (a n : Nat) : Observes (loadN a n) where
  step h := .mk h.lastError h.raised h.stats _
  value ha := by
    obtain ⟨e, r, c, w⟩ := ha
    rfl

instance fail (status : Status) : Observes (fail status) where
  step h := .mk _ _ h.stats h.wild
  value _ := rfl

instance clearError : Observes clearError where
  step h := .mk _ h.raised h.stats h.wild
  value _ := rfl

instance updateStats (f : Stats → Stats) : Observes (updateStats f) where
  step h := .mk h.lastError h.raised _ h.wild
  value _ := rfl

instance statNote (e : StatsEvent) (n : Nat) : Observes (statNote e n) := by
  unfold Mars.statNote; infer_instance

instance secret : Observes (Prog.read Heap.secret) := observes_read fun _ _ _ _ _ => rfl

instance arenaLive : Observes arenaLive := observes_read fun _ _ _ _ _ => rfl

instance withSpanOf (p : Nat) (miss : HeapM α) (hit : Span → HeapM α) [Observes miss]
    [∀ s, Observes (hit s)] : Observes (withSpanOf p miss hit) := by
  have : Observes (Prog.read fun h : Heap => h.spanOf p) := observes_read fun _ _ _ _ _ => rfl
  unfold Mars.withSpanOf; infer_instance

instance load64 (a : Nat) : Observes (load64 a) := by unfold Mars.load64; infer_instance

instance blockSize (b : Nat) : Observes (blockSize b) := by unfold Mars.blockSize; infer_instance

instance isUsed (b : Nat) : Observes (isUsed b) := by unfold Mars.isUsed; infer_instance

instance isQuarantined (b : Nat) : Observes (isQuarantined b) := by
  unfold Mars.isQuarantined; infer_instance

instance payloadCrc (b : Nat) : Observes (payloadCrc P b) := by
  unfold Mars.payloadCrc; infer_instance

instance requestedSize (b : Nat) : Observes (requestedSize P b) := by
  unfold Mars.requestedSize; infer_instance

instance blockIndex (b : Nat) : Observes (blockIndex b) := by
  unfold Mars.blockIndex; infer_instance

instance blockOkIn (b : Nat) : Observes (blockOkIn P s b) := by
  unfold Mars.blockOkIn; infer_instance

instance isBlockStart (b : Nat) : Observes (isBlockStart P b) := by
  unfold Mars.isBlockStart; infer_instance

instance isBlock (b : Nat) : Observes (isBlock P b) := by unfold Mars.isBlock; infer_instance

instance hdrCrcMatches (b : Nat) : Observes (hdrCrcMatches P s b) := by
  have (seen w c : Nat) : Observes (Prog.read fun h : Heap =>
      seen == hdrCrcOf w c (indexIn s b) h.secret) := observes_read fun _ _ _ _ _ => rfl
  unfold Mars.hdrCrcMatches; infer_instance

instance headerOk (b : Nat) : Observes (headerOk P b) := by unfold Mars.headerOk; infer_instance

instance prevInUse (b : Nat) : Observes (prevInUse b) := by unfold Mars.prevInUse; infer_instance

instance blockEnd (b : Nat) : Observes (blockEnd b) := by unfold Mars.blockEnd; infer_instance

instance extentCorroborated (b : Nat) : Observes (extentCorroborated P b) := by
  unfold Mars.extentCorroborated; infer_instance

instance tilingAgrees (b : Nat) : Observes (tilingAgrees P s b) := by
  unfold Mars.tilingAgrees; infer_instance

instance scanResyncFrom (steps p : Nat) : Observes (scanResyncFrom P s steps p) := by
  induction steps generalizing p with
  | zero => rw [Mars.scanResyncFrom]; infer_instance
  | succ steps ih => rw [Mars.scanResyncFrom]; infer_instance

instance scanResync (start : Nat) : Observes (scanResync P s start) := by
  unfold Mars.scanResync; infer_instance

instance mirrorSays (loBound resync : Nat) : Observes (mirrorSays P s loBound resync) := by
  have (raw : Nat) : Observes (Prog.read fun h : Heap => mirrorAt P s loBound resync raw h.secret) :=
    observes_read fun _ _ _ _ _ => rfl
  unfold Mars.mirrorSays; infer_instance

instance canaryOk (b : Nat) : Observes (canaryOk P b) := by
  have (seen index : Nat) : Observes (Prog.read fun h : Heap =>
      seen == canaryValue index h.secret) := observes_read fun _ _ _ _ _ => rfl
  unfold Mars.canaryOk canaryAt; infer_instance

instance payloadOk (b : Nat) : Observes (payloadOk P b) := by unfold Mars.payloadOk; infer_instance

instance blockOf (ptr : Nat) : Observes (blockOf P ptr) := by
  have : Observes (Prog.read fun h : Heap => if ptr = 0 then none else h.spanOf ptr) :=
    observes_read fun _ _ _ _ _ => rfl
  unfold Mars.blockOf; infer_instance

instance sizeOfLive (ptr : Nat) : Observes (sizeOfLive P ptr) := by
  unfold Mars.sizeOfLive; infer_instance

end Observes

end Mars
