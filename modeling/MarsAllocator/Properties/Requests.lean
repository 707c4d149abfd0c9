import MarsAllocator.Invariant.Arrivals

namespace Mars

open ByteMemory StateProgram

/-- The bytes that the block a call hands out is for. -/
def Call.requests : Call → Option Nat
  | .malloc size | .memalign _ size | .realloc _ size => some size.toNat
  | _ => none

/-- The call frees the block at `p` or resizes it; one that is refused does not. -/
def Call.ends (p : Nat) : Call → Reply → Bool
  | .free ptr, _ => ptr.toNat == p
  | .realloc ptr newSize, .pointer q => ptr.toNat == p && (q != 0 || newSize.toNat == 0)
  | _, _ => false

def Action.ends (P : Profile) (σ : Session) (p : Nat) : Action → Bool
  | .call c => c.ends p (c.run P σ.heap).1
  | .poke _ _ _ => false

/-- In this session `p` has been handed out by the call `c` under `mode`, and neither freed nor
resized since. -/
inductive Holding (P : Profile) (p : Nat) (c : Call) (mode : Mode) : Session → Prop
  | granted {σ : Session} (supply : List (Option Nat)) (hr : Arrived P Action.any σ)
      (hv : c.okFor σ.live = true) (ho : (σ.offered supply).heap.Offers ((Action.call c).mapping P))
      (hp : (c.run P (σ.offered supply).heap).1 = .pointer p) (hne : p ≠ 0) (hm : σ.heap.mode = mode) :
      Holding P p c mode ((σ.offered supply).next P (.call c))
  | kept {σ : Session} {a : Action} (supply : List (Option Nat)) (hh : Holding P p c mode σ)
      (hv : a.okFor P (σ.offered supply) = true) (ho : (σ.offered supply).heap.Offers (a.mapping P))
      (hk : a.ends P (σ.offered supply) p = false) :
      Holding P p c mode ((σ.offered supply).next P a)

/-- The header of the block at `p` says that it was handed out for `n` bytes under `mode`. -/
def Heap.Records (P : Profile) (h : Heap) (p n : Nat) : Mode → Prop
  | .managed => (requestedSize P (p - P.hdrSize) h).1 = n ∧
      wordSlack (h.word (p - P.hdrSize)) ≤ P.slackMax ∧ P.slackMax ≤ wSlackMask
  | .libc => (sizeOfLive P p h).1 = wordSize (h.word (p - P.hdrSize)) - P.hdrSize - P.trail ∧
      n ≤ (sizeOfLive P p h).1

instance (P : Profile) (h : Heap) (p n : Nat) (mode : Mode) : Decidable (h.Records P p n mode) := by
  cases mode <;> exact instDecidableAnd

/-- All of the blocks of `h` but their payloads reads in `h'` as it does in `h`. -/
def Heap.Framed (P : Profile) (h h' : Heap) : Prop :=
  ∀ b ∈ h.tiling P, ∀ a, b ≤ a → a < b + wordSize (h.word b) →
    ¬ (b + P.hdrSize ≤ a ∧ a < b + P.hdrSize + (requestedSize P b h).1) → h'.mem.byte a = h.mem.byte a

variable {P : Profile} {h h' : Heap} {s : Span} {b n p : Nat} {c : Cell} {call : Call} {r : Reply}
  {L L' : Span → List Cell} {X : Nat → Prop} {live : List Nat} {mode : Mode} {σ : Session}

theorem Heap.Effect.keeps (he : h.Effect P L call r h' L') (hS : h.Sound P L)
    (hc : h.CellIn L s b c) (hk : c.kind = .live) (hends : call.ends (b + P.hdrSize) r = false) (hw : h'.lostBytes = 0) :
    ∃ c', h'.CellIn L' s b c' ∧ c'.kind = .live ∧ c'.size = c.size ∧ c'.slack = c.slack := by
  have hu : c.used = true := Cell.used_of_ne (by rw [hk]; decide)
  have hsame : ∀ {X : Nat → Prop} {h' : Heap} {L' : Span → List Cell}, h.Spares P X L h' L' → ¬ X b →
      ∃ c', h'.CellIn L' s b c' ∧ c'.kind = .live ∧ c'.size = c.size ∧ c'.slack = c.slack :=
    fun hs hX => ⟨c, (hs.cells s b c hu hX).mpr hc, hk, rfl, rfl⟩
  have hnew : ∀ {b'}, (∀ t d, h.CellIn L t b' d → d.kind = .free) → b ≠ b' := fun hv hb => by
    have hfree := hv s c (hb ▸ hc)
    rw [hk] at hfree
    exact absurd hfree (by decide)
  cases he with
  | stayed _ _ hs => exact hsame hs.spares id
  | alike _ _ ha _ => exact ⟨c, ⟨ha.spans ▸ hc.1, hc.2⟩, hk, rfl, rfl⟩
  | tuned => exact ⟨c, hc, hk, rfl, rfl⟩
  | remoded => exact ⟨c, hc, hk, rfl, rfl⟩
  | @forgot mode _ _ hf =>
    exact ⟨c.unsummed, Heap.Forgot.cell (h := { h with mode := mode }) hf hc, hk, rfl, rfl⟩
  | issued _ hi _ => exact hsame hi.spares (hnew hi.vacant)
  | freed hp _ _ hr =>
    refine hsame hr.spares fun hb => ?_
    rw [Call.ends, hp, hb, beq_self_eq_true] at hends
    exact absurd hends (by decide)
  | emptied hp hz _ _ hr =>
    refine hsame hr.spares fun hb => ?_
    rw [Call.ends, hp, hb, hz, beq_self_eq_true, beq_self_eq_true, Bool.or_true] at hends
    exact absurd hends (by decide)
  | @resized ptr size _ b' d d' _ _ hp _ _ _ _ hr =>
    refine hsame hr.spares fun hb => ?_
    have hne : (b' + P.hdrSize != 0) = true := by
      have := P.sizes
      rw [bne_iff_ne]
      omega
    rw [Call.ends, hp, hb, hne, beq_self_eq_true, Bool.true_or] at hends
    exact absurd hends (by decide)
  | @shifted ptr size _ _ b' b'' d d' _ _ hp _ _ _ hm =>
    refine hsame hm.spares fun hb => hb.elim (fun hb => ?_) (hnew hm.vacant)
    have hne : (b'' + P.hdrSize != 0) = true := by
      have := P.sizes
      rw [bne_iff_ne]
      omega
    rw [Call.ends, hp, hb, hne, beq_self_eq_true, Bool.true_or] at hends
    exact absurd hends (by decide)
  | @surrendered _ _ _ _ _ b' d _ _ _ hd _ _ hs =>
    have hlost := hs.served.lostBytes
    change _ = h.lostBytes + d.size at hlost
    have := (hs.sound.tiled.plan.cell_fits hs.cell).pos
    change 0 < d.size at this
    omega
  | @written _ _ _ _ _ b' d _ _ _ hd _ _ _ hw =>
    by_cases hb : b = b'
    · subst hb
      obtain ⟨v, hv⟩ := hw.cell
      obtain ⟨rfl, rfl⟩ := hS.tiled.plan.cell_unique hc hd
      exact ⟨_, hv, hk, rfl, rfl⟩
    · exact hsame hw.spares hb

/-- A block that is out and what it was handed out for: `n` bytes under `mode`, the bound on its
slack held to only where `tight`. -/
structure Heap.Recorded (P : Profile) (h : Heap) (L : Span → List Cell) (p n : Nat) (mode : Mode)
    (tight : Prop) : Prop where
  cell : ∃ s b c, p = b + P.hdrSize ∧ h.CellIn L s b c ∧ c.kind = .live ∧
    c.requested P = c.grant P mode n ∧ c.Suits P n ∧ (tight → c.size ≤ n + P.hdrSize + P.slackMax)

theorem Heap.Effect.grants (he : h.Effect P L call (.pointer p) h' L') (hn : call.requests = some n)
    (hne : p ≠ 0) : h'.Recorded P L' p n h.mode (call.ample P = true) := by
  cases he with
  | stayed hr => exact absurd hr hne
  | alike hr => exact absurd hr hne
  | @issued _ s b n' d _ _ hn' hi _ hz =>
    obtain rfl : n' = n := by
      cases call <;> simp only [Call.asks, Call.requests] at hn hn' <;> grind
    exact ⟨s, b, d, rfl, hi.cell, hi.live, hi.granted, hi.suits, hz⟩
  | emptied => exact absurd rfl hne
  | resized _ hz _ _ _ hr =>
    obtain rfl := Option.some.inj hn
    have hge := hr.suits.ge
    exact ⟨_, _, _, rfl, hr.cell, hr.live, hr.granted, hr.suits, fun _ => by omega⟩
  | shifted _ hz _ _ hm =>
    obtain rfl := Option.some.inj hn
    have hge := hm.suits.ge
    exact ⟨_, _, _, rfl, hm.cell, hm.live, hm.granted, hm.suits, fun _ => by omega⟩

theorem Holding.recorded (hh : Holding P p call mode σ) (hn : call.requests = some n)
    (hw : σ.heap.lostBytes = 0) : ∃ L, σ.heap.Kempt P L σ.live ∧
      σ.heap.Recorded P L p n mode (call.ample P = true) := by
  induction hh with
  | @granted σ supply hr hv ho hp hne hm =>
    have hle := (σ.offered supply).lost_next (P := P) (.call call)
    obtain ⟨L, hK⟩ := hr.kempt (by change σ.heap.lostBytes ≤ _ at hle; omega)
    have hK₁ : (σ.offered supply).heap.Kempt P L σ.live := hK.asked supply
    obtain ⟨L', he, hK'⟩ := hK₁.comes call hv ho
    rw [hp] at he
    subst hm
    exact ⟨L', hK', he.grants hn hne⟩
  | @kept σ a supply _ hv ho hk ih =>
    have hle := (σ.offered supply).lost_next (P := P) a
    obtain ⟨L, hK, ⟨s, b, c, rfl, hc, hkind, hg, hs, ht⟩⟩ :=
      ih (by change σ.heap.lostBytes ≤ _ at hle; omega)
    cases a with
    | call c' =>
      obtain ⟨L', he, hK'⟩ := (hK.asked supply).comes c' hv ho
      obtain ⟨d, hd, hkd, hsize, hslack⟩ := he.keeps (hK.asked supply).thriving.sound hc hkind hk hw
      refine ⟨L', hK', ⟨s, b, d, rfl, hd, hkd, ?_, ⟨hsize ▸ hs.le, hsize ▸ hs.ge⟩, hsize ▸ ht⟩⟩
      rw [Cell.requested, Cell.grant, hsize, hslack]
      exact hg
    | poke ptr off bs =>
      rw [Action.okFor, Bool.and_eq_true, decide_eq_true_eq, List.contains_iff_mem] at hv
      exact ⟨L, (hK.asked supply).poke hv.1 hv.2, ⟨s, b, c, rfl, hc, hkind, hg, hs, ht⟩⟩

theorem Heap.Recorded.records {tight : Prop} (hg : h.Recorded P L p n mode tight) (hS : h.Sound P L)
    (ht : mode = .managed → tight) : h.Records P p n mode := by
  obtain ⟨s, b, c, rfl, hc, hk, hreq, hs, hfit⟩ := hg.cell
  obtain ⟨u, -, hh⟩ := hS.tiled.cell hc
  have hfits := hS.tiled.plan.cell_fits hc
  have hle := hfits.slack_le hk
  have hsl : wordSlack (c.word u) = c.slack := wordSlack_mkWord hfits.slack_lt
  have hb : b + P.hdrSize - P.hdrSize = b := Nat.add_sub_cancel b _
  have hsize : (sizeOfLive P (b + P.hdrSize) h).1 = c.requested P := by
    rw [hS.sizeOfLive hc (.inl hk), if_pos hk]
  cases mode with
  | managed =>
    rw [Heap.Records, hb, hh.word_eq, hsl, hh.run_requestedSize hk]
    rw [Cell.grant, if_neg (by decide)] at hreq
    refine ⟨hreq, ?_, P.layout_asserts.2.2.2.2.2.1⟩
    rw [Cell.requested] at hreq
    have := hfit (ht rfl)
    omega
  | libc =>
    rw [Heap.Records, hb, hh.word_eq, hsize, Cell.wordSize_word hfits, hreq, Cell.grant, if_pos rfl]
    have := hs.le
    exact ⟨rfl, by omega⟩

theorem Heap.Sound.framed_poke (hS : h.Sound P L) (hb : h.Backs P L p) {off : Nat} {bs : List UInt8}
    (hin : off + bs.length ≤ (Mars.sizeOfLive P p h).1) :
    h.Framed P (h.withMem (h.mem.storeBytes (p + off) bs)) := by
  obtain ⟨t, b₀, c₀, rfl, hc₀, hk₀⟩ := hb
  have hfits₀ := hS.tiled.plan.cell_fits hc₀
  rw [hS.sizeOfLive hc₀ hk₀] at hin
  intro b hb a hlo hhi hout
  obtain ⟨s, c, hc⟩ := hS.mem_tiling.mp hb
  obtain ⟨u, -, hh⟩ := hS.tiled.cell hc
  rw [hh.word_eq, Cell.wordSize_word hh.fits] at hhi
  refine Memory.byte_store_of_notMem ?_
  rcases hk₀ with hk₀ | hk₀
  swap
  · rw [if_neg (by rw [hk₀]; decide)] at hin
    omega
  have hslack := hfits₀.slack_le hk₀
  rw [if_pos hk₀, Cell.requested] at hin
  rcases hS.tiled.plan.apart hc hc₀ with ⟨rfl, rfl, rfl⟩ | hap
  · rw [hh.run_requestedSize hk₀, Cell.requested] at hout
    omega
  · omega

/-- In any session that has lost nothing, a block that is out records the request it was handed out
for, but for one that was asked for no bytes aligned to 32 in managed mode; and no store within what
the caller may use of a block changes anything else of any block, or what the heap check finds. -/
theorem request_recorded (hw : σ.heap.lostBytes = 0) :
    (∀ p c mode n, Holding P p c mode σ → c.requests = some n →
      (mode = .managed → c.ample P = true) → σ.heap.Records P p n mode) ∧
    (Arrived P Action.any σ → ∀ ptr off bs, (Action.poke ptr off bs).okFor P σ = true →
      σ.heap.Framed P (σ.next P (.poke ptr off bs)).heap ∧
        (mmCheckHeap P (σ.next P (.poke ptr off bs)).heap).1 = (mmCheckHeap P σ.heap).1) := by
  refine ⟨fun p c mode n hh hn hc => ?_, fun hr ptr off bs hv => ?_⟩
  · obtain ⟨L, hK, hrec⟩ := hh.recorded hn hw
    exact hrec.records hK.thriving.sound hc
  · obtain ⟨L, hK⟩ := hr.kempt hw
    rw [Action.okFor, Bool.and_eq_true, decide_eq_true_eq, List.contains_iff_mem] at hv
    refine ⟨hK.thriving.sound.framed_poke (hK.backing.backs ptr hv.1) hv.2, ?_⟩
    have hcheck : ∀ {h : Heap} {L : Span → List Cell}, h.Thriving P L → (mmCheckHeap P h).1 = .ok :=
      fun {h L} hT => by
        have hT' : (clearError h).2.Thriving P L := hT.alike ⟨_, _, _, _⟩
        exact hT'.checked
    exact (hcheck (hK.poke hv.1 hv.2).thriving).trans (hcheck hK.thriving).symm

theorem slender_large : minArena .hardened ≤ 144 := by decide

theorem slender_ne_zero : 4112 ≠ 0 := by decide

theorem slender_aligned : 4112 % alignment = 0 := by decide

theorem slender_fits : 4112 + 144 < 2 ^ 64 := by decide

/-- Just enough for one request of no bytes, aligned to 32. -/
def Buffer.slender : Buffer .hardened :=
  ⟨4112, 144, slender_ne_zero, slender_aligned, slender_large, slender_fits⟩

theorem Heap.offers_of_none {bytes : Nat} (hs : h.supply = []) : h.Offers bytes := fun raw hraw => by
  rw [hs] at hraw
  exact absurd hraw nofun

theorem request_recorded_slender :
    (((Session.start Buffer.slender ⟨0⟩ 1).offered []).next .hardened
      (.call (.malloc 8))).heap.Records .hardened 4128 8 .managed :=
  (request_recorded (by decide +kernel)).1 4128 (.malloc 8) .managed 8
    (.granted [] (.brought Buffer.slender ⟨0⟩ 1) (by decide) (Heap.offers_of_none rfl)
      (by decide +kernel) (by decide) (by decide +kernel)) rfl fun _ => rfl

theorem slender_holding : Holding .hardened 4192 (.memalign 32 0) .managed
    (((Session.start Buffer.slender ⟨0⟩ 1).offered []).next .hardened (.call (.memalign 32 0))) :=
  .granted [] (.brought Buffer.slender ⟨0⟩ 1) (by decide) (Heap.offers_of_none rfl)
    (by decide +kernel) (by decide) (by decide +kernel)

theorem request_unrecorded : ¬ ∀ (P : Profile) (σ : Session) (p : Nat) (c : Call) (mode : Mode) (n : Nat),
    σ.heap.lostBytes = 0 → Holding P p c mode σ → c.requests = some n → σ.heap.Records P p n mode := by
  intro hall
  have hrec := hall .hardened _ 4192 (.memalign 32 0) .managed 0 (by decide +kernel) slender_holding rfl
  exact absurd hrec (by decide +kernel)

end Mars
