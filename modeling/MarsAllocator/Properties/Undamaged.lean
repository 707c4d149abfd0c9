import MarsAllocator.Invariant.Wide
import MarsAllocator.Properties.Binning
import MarsAllocator.Properties.Overflow

namespace Mars

open ByteMemory StateProgram

set_option synthInstance.maxSize 100000

variable {P : Profile} {h h' : Heap} {s : Span} {L : Span → List Cell} {σ : Session} {b n p : Nat}

/-- Under paranoid a block in use ends in a copy of its header. -/
def Heap.Mirrored (P : Profile) (h : Heap) : Prop :=
  P.hasMirror = true → ∀ b ∈ h.tiling P, wordUsed (h.word b) = true →
    h.mem.load (b + h.extent b - P.hdrSize) P.hdrSize = h.mem.load b P.hdrSize

/-- Every invariant of an arena over `s` alone. -/
structure Heap.InOrder (P : Profile) (s : Span) (h : Heap) : Prop where
  spans : h.spans = [s]
  exact : h.Exact P
  mirrored : h.Mirrored P
  checked : (mmCheckHeap P h).1 = .ok

theorem Heap.Sound.mirrored (hS : h.Sound P L) : h.Mirrored P := by
  intro hmir b hb hu
  obtain ⟨s, c, hc⟩ := hS.mem_tiling.mp hb
  obtain ⟨v, hcell, hh⟩ := hS.tiled.cell hc
  rw [hh.word_eq, Cell.wordUsed_word] at hu
  rw [hcell.extent hh.fits]
  exact hcell.mirror trivial hmir hu

theorem Heap.Upright.inOrder (hU : h.Upright P s L) : h.InOrder P s := by
  refine ⟨hU.brought.spans, hU.exact, hU.sound.mirrored, ?_⟩
  rw [mmCheckHeap, fst_bind]
  exact (hU.idled ((⟨rfl⟩ : h.Counted _).idled hU.sound.cursor rfl)).checked

def KeepsSpans (h h' : Heap) : Prop := h'.spans = h.spans

instance : CoreClosed KeepsSpans where
  refl _ := rfl
  trans _ _ _ h h' := h'.trans h
  core hs := by
    cases hs
    all_goals rfl

theorem scanResyncFrom_zero (steps : Nat) (hz : h.ZeroIn p s.hi) :
    (scanResyncFrom P s steps p h).1 = 0 := by
  have hp := P.sizes
  induction steps generalizing p with
  | zero => rfl
  | succ steps ih =>
    rw [scanResyncFrom, fst_ite]
    split
    · rename_i hin
      have hno : (extentCorroborated P p h).1 = false := by
        rw [extentCorroborated, fst_bind, headerOk_zero (hz p 8 (le_refl p) (by omega))]
        rfl
      rw [fst_bind, fst_and, hno]
      exact ih (hz.sub (Nat.le_add_right p _) (le_refl _))
    · rfl

theorem wp_sealAndLink_fast (hu : wordUsed (h.word b) = true) (hw : wordSize (h.word b) = 0) :
    wp (sealAndLink .fast b) (fun _ h' => Alike h h') h := by
  have hno : ∀ h₁, Alike h h₁ → (headerOk .fast b h₁).1 = false := fun h₁ ha => by
    rw [← Bool.not_eq_true, headerOk_fst]
    rintro ⟨t, hk⟩
    have hmin := hk.min_le
    rw [(ha.sameHeader .fast b).word, hw] at hmin
    exact absurd hmin (by decide)
  refine wp_observe (refl_of Alike h) (a := true) hu fun h₁ h₁a => ?_
  rw [wp_when_false _ (by decide), fast_sealHeader, pure_bind_run, withSpanOf, wp_bind, wp_read]
  cases h₁.spanOf b with
  | none => exact h₁a
  | some s =>
    refine wp_observe h₁a (a := b + wordSize (h.word b)) rfl fun h₂ h₂a => ?_
    rw [hw, Nat.add_zero, Prog.when, wp_ite]
    split
    · refine wp_observe h₂a (hno h (refl_of Alike h)) fun h₃ h₃a => ?_
      exact h₃a
    · exact h₂a

theorem abandon_stunted (hn : n % 2 ^ 58 = 0) (hmin : Profile.fast.minBlock ≤ n) (u : Bool) :
    wp (abandon .fast b n u) (fun _ h' => wordSize (h'.word b) = 0 ∧ h'.bins = h.bins) h := by
  rw [abandon, wp_ite, if_neg (by omega), wp_bind, wp]
  have hw₁ : Wrote b (b + 8) h (store64 b 0 h).2 := Wrote.storeN (le_refl _) (le_refl _)
  generalize (store64 b 0 h).2 = h₁ at hw₁
  rw [fast_setPayloadCrc, pure_bind_run, wp_bind, wp, ← setWord_mod, hn]
  have hword₂ := word_setWord (b := b) (h := h₁) (show 0 < 2 ^ 58 by decide) (show 0 < 128 by decide)
    true true
  have hw₂ := hw₁.trans (wrote_setWord b 0 0 true true)
  generalize (setWord b 0 0 true true h₁).2 = h₂ at hword₂ hw₂
  rw [wp_bind, wp]
  have hsize := size_setPrevInUse (b := b) (h := h₂) u
  have hused := used_setPrevInUse (b := b) (h := h₂) u
  have hw₃ := hw₂.trans (wrote_setPrevInUse (b := b) u)
  generalize (setPrevInUse b u h₂).2 = h₃ at hsize hused hw₃
  rw [hword₂, wordUsed_mkWord] at hused
  rw [hword₂, wordSize_mkWord (by decide) (by decide)] at hsize
  have hbins : h₃.bins = h.bins := by
    obtain ⟨m, -, e, r, c, w⟩ := hw₃
    rfl
  rw [wp_bind, wp]
  obtain ⟨h₄, hh₄⟩ : ∃ h₄, h₄ = (scrubForget b (b + n) h₃).2 := ⟨_, rfl⟩
  have hmove : h₄.mem = h₃.mem ∧ h₄.bins = h₃.bins := by
    rw [hh₄, scrubForget, Prog.modify_run]
    constructor <;> split <;> rfl
  rw [← hh₄]
  have hword₄ : h₄.word b = h₃.word b := by rw [Heap.word, hmove.1, Heap.word]
  refine wp_seq (wp_sealAndLink_fast (by rw [hword₄]; exact hused) (by rw [hword₄]; exact hsize))
    fun _ h₅ h₅a => ?_
  have hword₅ : h₅.word b = h₄.word b := (h₅a.sameHeader .fast b).word
  have hbins₅ : h₅.bins = h₄.bins := by
    obtain ⟨e, r, c, w⟩ := h₅a
    rfl
  rw [← hbins, ← hmove.2, ← hbins₅, ← hsize, ← hword₄, ← hword₅]
  exact ⟨rfl, rfl⟩

theorem publish_stunted (hb : b ≠ 0) (hs : h.spanOf b = some s) (hst : startOkIn .fast s b = true)
    (hw : wordSize (h.word b) = 0) (hn : (s.hi - b) % 2 ^ 58 = 0)
    (hz : h.ZeroIn (b + Profile.fast.hdrSize) s.hi) :
    wp (publish .fast b) (fun _ h' => wordSize (h'.word b) = 0 ∧ h'.bins = h.bins) h := by
  have hno : (isBlock .fast b h).1 = false := by
    rw [← Bool.not_eq_true, isBlock_fst]
    rintro ⟨t, hl⟩
    have hmin := hl.min_le
    rw [hw] at hmin
    exact absurd hmin (by decide)
  have hno' : (headerOk .fast b h).1 = false := by
    rw [← Bool.not_eq_true, headerOk_fst]
    rintro ⟨t, hk⟩
    have hmin := hk.min_le
    rw [hw] at hmin
    exact absurd hmin (by decide)
  have hstart : (isBlockStart .fast b h).1 = true := by
    rw [isBlockStart, Prog.ite_run, if_neg hb, withSpanOf, Prog.bind_run, Prog.read_run, hs]
    exact hst
  have hscan : (scanResync .fast s b h).1 = 0 :=
    scanResyncFrom_zero _ (hz.sub (Nat.add_le_add_left (by decide) b) (le_refl _))
  refine wp_observe (refl_of Alike h) hno fun h₁ h₁a => ?_
  rw [wp_ite, if_neg (by decide)]
  refine wp_observe h₁a rfl fun h₂ h₂a => ?_
  suffices hr : wp (rescue .fast b) (fun _ h' => wordSize (h'.word b) = 0 ∧ h'.bins = h.bins) h₂ from
    wp_seq hr fun _ h₃ h₃l => h₃l
  refine wp_observe h₂a hno' fun h₃ h₃a => ?_
  rw [wp_ite, if_neg (by decide)]
  refine wp_observe h₃a hstart fun h₄ h₄a => ?_
  rw [wp_ite, if_pos rfl, wp_withSpanOf ((h₄a.spanOf b).trans hs), rescueIn]
  refine wp_observe h₄a hscan fun h₅ h₅a => ?_
  refine wp_observe h₅a rfl fun h₆ h₆a => ?_
  rw [fast_mirrorSays, pure_bind_run, Option.filter_none, Prog.elim_none]
  have hrun : lostRun s b 0 = s.hi - b := rfl
  have hbins : h₆.bins = h.bins := by
    obtain ⟨e, r, c, w⟩ := h₆a
    rfl
  have hmin : Profile.fast.minBlock ≤ s.hi - b := by
    simp only [startOkIn, Bool.and_eq_true, decide_eq_true_eq] at hst
    exact hst.2
  rw [hrun, ← hbins]
  exact wp_seq (abandon_stunted hn hmin _) fun _ h₇ h₇l => h₇l

theorem wp_binInsert_empty (hempty : ∀ i, h.bins i = 0) :
    wp (binInsert P b) (fun _ h' => h'.word b = h.word b) h := by
  have hp := P.sizes
  have : Observes (binOfBlock P b) := by
    unfold binOfBlock
    infer_instance
  refine wp_observe (refl_of Alike h) rfl fun h₁ h₁a => ?_
  have hbins : ∀ i, h₁.bins i = 0 := by
    obtain ⟨e, r, c, w⟩ := h₁a
    exact hempty
  rw [wp_bind, wp_read, hbins, if_pos rfl, pure_bind_run, if_pos rfl, binPush, wp_bind, wp_read,
    hbins, wp_bind, wp]
  have hset : ∀ (which : Link) (p : Nat) (h : Heap),
      Wrote (b + 8) (b + P.hdrSize + 16) h (freeLinkSet P b which p h).2 := fun which p h => by
    have ho : which.offset + 8 ≤ 16 := by cases which <;> decide
    exact Wrote.storeN (by rw [payloadOf]; omega) (by rw [payloadOf]; omega)
  have hw₂ := (Wrote.of_alike h₁a).trans (hset .next 0 h₁)
  generalize (freeLinkSet P b .next 0 h₁).2 = h₂ at hw₂
  rw [wp_bind, wp]
  have hw₃ := hw₂.trans (hset .prev 0 h₂)
  generalize (freeLinkSet P b .prev 0 h₂).2 = h₃ at hw₃
  rw [wp_when_false _ (by decide)]
  exact hw₃.word (.inl (le_refl _))

theorem spanFormat_stunted (hpos : s.lo ≠ 0) (hs : h.spanOf s.lo = some s)
    (hn : (s.hi - s.lo) % 2 ^ 58 = 0) (hwide : 2 ^ 58 ≤ s.hi - s.lo) (hz : h.ZeroIn s.lo s.hi)
    (hbins : ∀ i, h.bins i = 0) :
    wp (spanFormat .fast s) (fun _ h' => wordSize (h'.word s.lo) = 0) h := by
  rw [spanFormat, wp_bind, wp]
  have hw₁ : Wrote s.lo (s.lo + 8) h (store64 s.lo 0 h).2 := Wrote.storeN (le_refl _) (le_refl _)
  generalize (store64 s.lo 0 h).2 = h₁ at hw₁
  rw [fast_setPayloadCrc, pure_bind_run, wp_bind, wp, ← setWord_mod, hn]
  have hword₂ := word_setWord (b := s.lo) (h := h₁) (show 0 < 2 ^ 58 by decide)
    (show 0 < 128 by decide) false false
  have hw₂ := hw₁.trans (wrote_setWord s.lo 0 0 false false)
  generalize (setWord s.lo 0 0 false false h₁).2 = h₂ at hword₂ hw₂
  rw [wp_bind, wp]
  have hsize := size_setPrevInUse (b := s.lo) (h := h₂) true
  have hw₃ := hw₂.trans (wrote_setPrevInUse (b := s.lo) true)
  generalize (setPrevInUse s.lo true h₂).2 = h₃ at hsize hw₃
  rw [hword₂, wordSize_mkWord (by decide) (by decide)] at hsize
  have hst : startOkIn .fast s s.lo = true := by
    have hmin : Profile.fast.minBlock = 32 := rfl
    simp only [startOkIn, Bool.and_eq_true, beq_iff_eq, decide_eq_true_eq, alignment]
    omega
  have hpub := publish_stunted hpos ((hw₃.spanOf s.lo).trans hs) hst hsize hn
    ((hz.sub (Nat.le_add_right _ _) (le_refl _)).wrote hw₃ (le_refl _))
  refine wp_seq hpub fun _ h₄ h₄l => ?_
  have hempty : ∀ i, h₄.bins i = 0 := fun i => by
    obtain ⟨m, -, e, r, c, w⟩ := hw₃
    rw [h₄l.2]
    exact hbins i
  refine wp_mono (wp_binInsert_empty hempty) fun _ h₅ h₅w => ?_
  rw [h₅w]
  exact h₄l.1

theorem spanAdopt_stunted (hpos : s.lo ≠ 0) (hn : (s.hi - s.lo) % 2 ^ 58 = 0)
    (hwide : 2 ^ 58 ≤ s.hi - s.lo) (hz : h.ZeroIn s.lo s.hi) (hbins : ∀ i, h.bins i = 0) :
    wp (spanAdopt .fast s) (fun _ h' => wordSize (h'.word s.lo) = 0) h := by
  rw [spanAdopt, wp_bind, wp, wp_bind, wp]
  change wp _ _ (h.listed s)
  have hrest := h.listed_rest s
  have hspan : (h.listed s).spanOf s.lo = some s := by
    rw [Heap.listed_spanOf, if_pos ⟨le_refl _, by omega⟩]
  have hzero : (h.listed s).ZeroIn s.lo s.hi := by
    rw [hrest]
    exact hz
  have hempty : ∀ i, (h.listed s).bins i = 0 := fun i => by
    rw [hrest]
    exact hbins i
  refine wp_seq (spanFormat_stunted hpos hspan hn hwide hzero hempty) fun _ h₁ h₁w => ?_
  have hmem : (scrubEnter s h₁).2.mem = h₁.mem := by
    rw [scrubEnter, Prog.modify_run]
    split <;> rfl
  rw [wp, Heap.word, hmem]
  exact h₁w

theorem mem_spanAdopt (s : Span) (h : Heap) : s ∈ (spanAdopt P s h).2.spans := by
  have : Respects KeepsSpans (spanFormat P s) := by
    unfold spanFormat
    infer_instance
  have hformat : KeepsSpans (h.listed s) (spanFormat P s (h.listed s)).2 := Respects.step (h.listed s)
  have henter : (scrubEnter s (spanFormat P s (h.listed s)).2).2.spans = (h.listed s).spans := by
    rw [← hformat, scrubEnter, Prog.modify_run]
    split <;> rfl
  change s ∈ (scrubEnter s (spanFormat P s (h.listed s)).2).2.spans
  rw [henter, h.listed_spans]
  exact List.mem_cons_self

theorem wide_not_exact (mem : Memory) (secret : UInt64) :
    ¬ (Session.start wideBuffer mem secret).heap.Exact .fast := by
  rintro ⟨blocks, ht, -, -⟩
  obtain ⟨g, hheap, hz, hbins⟩ := Session.start_adopts wideBuffer mem secret
  have hzero : wp (spanAdopt .fast wideSpan) (fun _ h' => wordSize (h'.word wideSpan.lo) = 0) g :=
    spanAdopt_stunted wideBuffer.span_ne_zero (by decide) (by decide) hz hbins
  rw [hheap] at ht
  have htiles := (ht.spans wideSpan (mem_spanAdopt wideSpan g)).tiled
  have hpos : 0 < wordSize ((spanAdopt .fast wideSpan g).2.word wideSpan.lo) :=
    htiles.extent_pos (by decide)
  rw [wp] at hzero
  omega

/-- Whatever valid calls and stores into payloads follow `mm_init`, every invariant of the arena
holds after each of them. -/
theorem undamaged_inOrder (buf : Buffer P) (hsmall : usableOf P buf.size < 2 ^ 58) (mem : Memory)
    (secret : UInt64) (actions : List Action)
    (hp : (Session.start buf mem secret).playable P Action.any actions = true) :
    ((Session.start buf mem secret).play P actions).heap.InOrder P buf.span := by
  obtain ⟨L, hU, -⟩ := Session.upright buf hsmall mem secret hp
  exact hU.inOrder

theorem undamaged_inOrder_kilo : ((Session.start (Buffer.kilo .paranoid) ⟨0⟩ 1).play .paranoid
    [.call (.malloc 40), .poke 4112 3 [1, 2], .call (.memalign 64 30), .call (.realloc 4112 200),
      .call (.scrub 9)]).heap.InOrder .paranoid (Buffer.kilo .paranoid).span :=
  undamaged_inOrder (Buffer.kilo .paranoid) (by decide) ⟨0⟩ 1 _ (by decide +kernel)

/-- Of a buffer whose one extent is too wide for a header this is not so. -/
theorem undamaged_out_of_order_wide : ¬ ∀ (buf : Buffer .fast) (mem : Memory) (secret : UInt64)
    (actions : List Action),
    (Session.start buf mem secret).playable .fast Action.any actions = true →
      ((Session.start buf mem secret).play .fast actions).heap.InOrder .fast buf.span :=
  fun hall => wide_not_exact ⟨0⟩ 0 (hall wideBuffer ⟨0⟩ 0 [] rfl).exact

end Mars
