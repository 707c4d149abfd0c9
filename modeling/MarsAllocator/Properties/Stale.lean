import MarsAllocator.Properties.Pointers

namespace Mars

open ByteMemory StateProgram

variable (P : Profile)

/-- `p` was live in an earlier session, has been given up since, and the block it had then lies in
a free block of the tiling now. -/
def Stale (p : Nat) (σ : Session) : Prop :=
  ∃ (σ₀ : Session) (actions : List Action), Reached P Action.isCall σ₀ ∧
    σ₀.playable P Action.isCall actions = true ∧ σ = σ₀.play P actions ∧
    p ∈ σ₀.live ∧ p ∉ σ.live ∧
    ∃ b ∈ σ.heap.tiling P, wordUsed (σ.heap.word b) = false ∧ b ≤ p - P.hdrSize ∧
      p - P.hdrSize + wordSize (σ₀.heap.word (p - P.hdrSize)) ≤ b + wordSize (σ.heap.word b)

/-- The tiling, the bins, `lost_bytes` and the live payloads are as they were. -/
def LeftAlone (σ : Session) (h' : Heap) : Prop :=
  h'.tiling P = σ.heap.tiling P ∧ h'.bins = σ.heap.bins ∧ h'.binBitmap = σ.heap.binBitmap ∧
    h'.lostBytes = σ.heap.lostBytes ∧
    ∀ p ∈ σ.live, (sizeOfLive P p h').1 = (sizeOfLive P p σ.heap).1 ∧
      h'.mem.bytes p (sizeOfLive P p σ.heap).1 = σ.heap.mem.bytes p (sizeOfLive P p σ.heap).1

/-- Freeing, resizing, reading and writing through `p` all fail, say so and leave the rest alone. -/
def StaleRefused (p : UInt64) (σ : Session) : Prop :=
  ∀ call : Call, call.target = some p → call.isVerify = false →
    (call.run P σ.heap).1.failed = true ∧ (call.run P σ.heap).2.lastError ≠ .ok ∧
      LeftAlone P σ (call.run P σ.heap).2

variable {P}

theorem Alike.tilingFrom {h h' : Heap} (ha : Alike h h') (s : Span) (budget p : Nat) :
    h'.tilingFrom s budget p = h.tilingFrom s budget p := by
  induction budget generalizing p with
  | zero => rfl
  | succ budget ih =>
    rw [Heap.tilingFrom, Heap.tilingFrom, (ha.sameHeader .fast p).word, ih]

theorem Alike.tiling {h h' : Heap} (ha : Alike h h') (P : Profile) : h'.tiling P = h.tiling P := by
  have hs : h'.spans = h.spans := by
    obtain ⟨e, r, c, w⟩ := ha
    rfl
  have ht : h'.tilingOf P = h.tilingOf P := funext fun s => ha.tilingFrom s _ _
  rw [Heap.tiling, Heap.tiling, hs, ht]

theorem Alike.leftAlone {σ : Session} {h' : Heap} (ha : Alike σ.heap h') : LeftAlone P σ h' := by
  have hsize (p : Nat) : (sizeOfLive P p h').1 = (sizeOfLive P p σ.heap).1 := Observes.value ha
  refine ⟨ha.tiling P, ?_⟩
  obtain ⟨e, r, c, w⟩ := ha
  exact ⟨rfl, rfl, rfl, fun p _ => ⟨hsize p, rfl⟩⟩

theorem Call.liveAfter_ne_zero {live : List Nat} (h0 : 0 ∉ live) (call : Call) (reply : Reply) :
    0 ∉ call.liveAfter live reply := by
  have he (p : Nat) : 0 ∉ live.erase p := fun hm => h0 (List.mem_of_mem_erase hm)
  unfold Call.liveAfter
  split
  · split
    · exact h0
    · exact fun hm => (List.mem_cons.mp hm).elim (fun hz => absurd hz.symm ‹_›) h0
  · split
    · exact h0
    · exact fun hm => (List.mem_cons.mp hm).elim (fun hz => absurd hz.symm ‹_›) h0
  · exact he _
  · split
    · exact fun hm => (List.mem_cons.mp hm).elim (fun hz => absurd hz.symm ‹_›) (he _)
    · split
      · exact he _
      · exact h0
  · exact h0

theorem Reached.live_ne_zero {allowed : Action → Bool} {σ : Session} (hr : Reached P allowed σ) :
    0 ∉ σ.live := by
  induction hr with
  | start buf mem secret => exact List.not_mem_nil
  | @step σ a hr ha hv ih =>
    cases a with
    | poke ptr offset bytes => exact ih
    | call c => exact c.liveAfter_ne_zero ih _

theorem Stale.ne_zero {p : UInt64} {σ : Session} (hs : Stale P p.toNat σ) : p ≠ 0 := by
  obtain ⟨σ₀, actions, hr, -, -, hm, -⟩ := hs
  rintro rfl
  exact hr.live_ne_zero hm

/-- In every session, a stale pointer is refused if the header it leads to checks out and is not in
use; without mirrors, only then. -/
theorem stale_refused_iff {p : UInt64} {σ : Session} (hs : Stale P p.toNat σ) :
    (Found P p.toNat σ.heap → StaleRefused P p σ) ∧
      (P.hasMirror = false → StaleRefused P p σ → Found P p.toNat σ.heap) := by
  constructor
  · intro hf call hc hv
    obtain ⟨hfail, hh⟩ := harmless_of_found hs.ne_zero hc hv hf
    exact ⟨hfail, hh.2, hh.1.leftAlone⟩
  · intro hm hall
    by_cases hb : (blockOf P p.toNat σ.heap).1 = 0
    · exact .nothing hb
    by_contra hf
    obtain ⟨hfail, -, -, -, -, hl, -⟩ := hall (.read p 0 true 0) rfl rfl
    rcases read_of_not_found hb hf with hr | hr
    · simp only [Call.run, Prog.bind_run, Prog.pure_run, Reply.failed] at hfail
      exact absurd (Option.isNone_iff_eq_none.mp hfail) hr
    · exact absurd hl (Nat.ne_of_gt (hr.2 hm))

def threeBlocks : Session := (Session.start smallBuffer ⟨0⟩ 1).play .hardened
  [.call (.malloc 16), .call (.malloc 16), .call (.malloc 16)]

def freeTwo : List Action := [.call (.free 4112), .call (.free 4160)]

/-- The second block freed is merged into the first, and its header stays behind, in use. -/
def mergedBack : Session := threeBlocks.play .hardened freeTwo

theorem stale_accepted :
    ¬ ∀ (P : Profile) (p : UInt64) (σ : Session), P.hasCrc = true → Stale P p.toNat σ →
      StaleRefused P p σ := by
  intro hall
  have hr : Reached .hardened Action.isCall threeBlocks :=
    (Reached.start smallBuffer ⟨0⟩ 1).play (by decide +kernel)
  have hs : Stale .hardened (4160 : UInt64).toNat mergedBack :=
    ⟨threeBlocks, freeTwo, hr, by decide +kernel, rfl, by decide +kernel, by decide +kernel, 4096,
      by decide +kernel, by decide +kernel, by decide +kernel, by decide +kernel⟩
  have hrefused := hall .hardened 4160 mergedBack rfl hs (.free 4160) rfl rfl
  exact absurd hrefused.2.1 (by decide +kernel)

def oneBlock : Session :=
  (Session.start smallBuffer ⟨0⟩ 1).play .hardened [.call (.malloc 16)]

/-- A block freed into the space after it keeps its own header, now a free block's. -/
def mergedAhead : Session := oneBlock.play .hardened [.call (.free 4112)]

theorem stale_refused_once :
    Found .hardened 4112 mergedAhead.heap ∧ StaleRefused .hardened 4112 mergedAhead := by
  have hr : Reached .hardened Action.isCall oneBlock :=
    (Reached.start smallBuffer ⟨0⟩ 1).play (by decide +kernel)
  have hs : Stale .hardened (4112 : UInt64).toNat mergedAhead :=
    ⟨oneBlock, [.call (.free 4112)], hr, by decide +kernel, rfl, by decide +kernel,
      by decide +kernel, 4096, by decide +kernel, by decide +kernel, by decide +kernel,
      by decide +kernel⟩
  have hf : Found .hardened (4112 : UInt64).toNat mergedAhead.heap :=
    .free (by decide +kernel) (by decide +kernel) (by decide +kernel) (by decide +kernel)
  exact ⟨hf, (stale_refused_iff hs).1 hf⟩

end Mars
