import MarsAllocator.Invariant.Sessions

namespace Mars

open ByteMemory StateProgram

set_option synthInstance.maxSize 100000

variable {P : Profile} {h h' : Heap} {s : Span} {a b n p x y x' y' : Nat}

def Heap.ZeroIn (h : Heap) (x y : Nat) : Prop := ∀ a n, x ≤ a → a + n ≤ y → h.mem.load a n = 0

theorem Heap.ZeroIn.sub (hz : h.ZeroIn x y) (hx : x ≤ x') (hy : y' ≤ y) : h.ZeroIn x' y' :=
  fun a n h₁ h₂ => hz a n (hx.trans h₁) (h₂.trans hy)

theorem Heap.ZeroIn.wrote (hz : h.ZeroIn x y) (hw : Wrote x' y' h h') (hxy : y' ≤ x) :
    h'.ZeroIn x y := fun a n h₁ h₂ => by
  rw [hw.load (by omega)]
  exact hz a n h₁ h₂

theorem Heap.ZeroIn.alike (hz : h.ZeroIn x y) (ha : Alike h h') : h'.ZeroIn x y := by
  obtain ⟨e, r, c, w⟩ := ha
  exact hz

theorem headerOk_zero (hz : h.word b = 0) : (headerOk P b h).1 = false := by
  rw [← Bool.not_eq_true, headerOk_fst]
  rintro ⟨t, hk⟩
  have hmin := hk.min_le
  have hp := P.sizes
  rw [hz, show wordSize 0 = 0 from rfl] at hmin
  omega

theorem mirrorSays_zero (hz : h.ZeroIn (b + P.hdrSize) s.hi) {resync : Nat}
    (hr : resync ≠ 0 → b + P.minBlock ≤ resync ∧ resync < s.hi) :
    (mirrorSays P s b resync h).1 = none := by
  have hp := P.sizes
  rw [mirrorSays, Prog.ite_run]
  split
  · rename_i hm
    have hb := hr hm.2
    have hsize := Profile.mirrorSize_of_mirror hm.1
    have h16 := hdrSize_of_mirror hm.1
    change mirrorAt P s b resync (h.mem.load (resync - P.mirrorSize) P.hdrSize) h.secret = none
    rw [hz _ _ (by omega) (by omega)]
    exact if_pos (.inl (show wordSize 0 < P.minBlock from by
      rw [show wordSize 0 = 0 from rfl]
      omega))
  · rfl

theorem scanResync_bounds (P : Profile) (s : Span) (b : Nat) (h : Heap)
    (hn : (scanResync P s b h).1 ≠ 0) :
    b + P.minBlock ≤ (scanResync P s b h).1 ∧ (scanResync P s b h).1 < s.hi :=
  scanResyncFrom_bounds P s recoverySteps (b + P.minBlock) h hn

theorem rescueIn_loses (hst : startOkIn P s b = true) (hz : h.ZeroIn (b + P.hdrSize) s.hi) :
    wp (rescueIn P s b) (fun _ h' => h.lostBytes < h'.lostBytes) h := by
  have hnone := mirrorSays_zero hz (scanResync_bounds P s b h)
  refine wp_observe (refl_of Alike h) rfl fun h₁ h₁a => ?_
  refine wp_observe h₁a rfl fun h₂ h₂a => ?_
  refine wp_observe h₂a hnone fun h₃ h₃a => ?_
  rw [Option.filter_none, Prog.elim_none, ← h₃a.lostBytes]
  exact wp_seq (abandon_loses (lostRun_ge hst) _) fun _ h₄ h₄l => h₄l

theorem recoverAt_loses {owner : Nat} (hst : startOkIn P s b = true)
    (hz : h.ZeroIn (b + P.hdrSize) s.hi) :
    wp (recoverAt P s owner b) (fun _ h' => h.lostBytes < h'.lostBytes) h := by
  have hnone := mirrorSays_zero hz (scanResync_bounds P s b h)
  refine wp_observe (refl_of Alike h) rfl fun h₁ h₁a => ?_
  refine wp_observe h₁a rfl fun h₂ h₂a => ?_
  refine wp_observe h₂a hnone fun h₃ h₃a => ?_
  rw [Prog.elim_none, ← h₃a.lostBytes]
  exact abandon_loses (lostRun_ge hst) _

/-- Nothing stands after a block whose recorded end is short of its span's. -/
theorem recoverNext_loses (hl : h.Legible P s b) (hst : startOkIn P s (b + wordSize (h.word b)) = true)
    (hend : b + wordSize (h.word b) + P.minBlock ≤ s.hi)
    (hz : h.ZeroIn (b + wordSize (h.word b)) s.hi) :
    wp (recoverNext P b) (fun _ h' => h.lostBytes < h'.lostBytes) h := by
  have hp := P.sizes
  rw [recoverNext, wp_withSpanOf hl.span]
  refine wp_observe (refl_of Alike h) (a := b + wordSize (h.word b)) rfl fun h₁ h₁a => ?_
  rw [wp_ite, if_neg (by omega), wp_ite, if_neg (by omega)]
  have hzero := hz (b + wordSize (h.word b)) 8 (le_refl _) (by omega)
  refine wp_observe h₁a (headerOk_zero hzero) fun h₂ h₂a => ?_
  rw [wp_ite, if_neg (by decide), ← h₂a.lostBytes]
  exact recoverAt_loses hst ((hz.sub (Nat.le_add_right _ _) (le_refl _)).alike h₂a)

theorem wrote_footer (hn : P.minBlock ≤ wordSize (h.word b)) :
    Wrote (b + P.hdrSize) (b + wordSize (h.word b)) h (writeFreeFooter b h).2 := by
  have hp := P.sizes
  exact (Wrote.of_alike (Respects.step (x := blockSize b) h)).trans
    (Wrote.storeN (a := b + wordSize (h.word b) - 8) (by omega) (by omega))

theorem publish_loses (hb : b ≠ 0) (hs : h.spanOf b = some s) (hst : startOkIn P s b = true)
    (hend : b + wordSize (h.word b) + P.minBlock ≤ s.hi) (hz : h.ZeroIn (b + P.hdrSize) s.hi) :
    wp (publish P b) (fun _ h' => h.lostBytes < h'.lostBytes) h := by
  have hp := P.sizes
  have hlo := (spanOf_bounds hs).2.1
  have hdvd := wordSize_dvd (h.word b)
  have hbase : (b - s.lo) % 16 = 0 := by
    simp only [startOkIn, Bool.and_eq_true, beq_iff_eq, alignment] at hst
    exact hst.1
  by_cases hmin : P.minBlock ≤ wordSize (h.word b)
  · -- the block stands, and nothing does where it ends
    have hl : h.Legible P s b := ⟨hb, hs, hst, hmin, by omega⟩
    have hst' : startOkIn P s (b + wordSize (h.word b)) = true := by
      simp only [startOkIn, Bool.and_eq_true, beq_iff_eq, decide_eq_true_eq, alignment]
      omega
    refine wp_observe (refl_of Alike h) ((isBlock_fst h b).mpr ⟨s, hl⟩) fun h₁ h₁a => ?_
    rw [wp_ite, if_pos rfl]
    refine wp_observe h₁a rfl fun h₂ h₂a => ?_
    have hw₂ : h₂.word b = h.word b := (h₂a.sameHeader P b).word
    have hfoot : Wrote (b + P.hdrSize) (b + wordSize (h.word b)) h₂
        (Prog.when ((!(isUsed b h).1) = true) (writeFreeFooter b) h₂).2 := by
      rw [Prog.when_run]
      split
      · have hw := wrote_footer (P := P) (b := b) (h := h₂) (by rw [hw₂]; exact hmin)
        rwa [hw₂] at hw
      · exact .of_alike (refl_of Alike h₂)
    rw [wp_bind, wp]
    generalize (Prog.when ((!(isUsed b h).1) = true) (writeFreeFooter b) h₂).2 = h₃ at hfoot
    have hw₃ : h₃.word b = h.word b := (hfoot.word (.inl (by omega))).trans hw₂
    have hseal := wrote_sealHeader (P := P) (b := b) (h := h₃) (by rw [hw₃]; exact hmin)
    rw [hw₃] at hseal
    rw [wp_bind, wp]
    generalize (sealHeader P b h₃).2 = h₄ at hseal
    have hall : Wrote (b + 8) (b + wordSize (h.word b)) h h₄ :=
      ((Wrote.of_alike h₂a).trans (hfoot.mono (by omega) (le_refl _))).trans hseal
    have hw₄ : h₄.word b = h.word b := hall.word (.inl (le_refl _))
    have hl₄ : h₄.Legible P s b := hl.of_word hw₄ (hall.spanOf b)
    have hz₄ : h₄.ZeroIn (b + wordSize (h₄.word b)) s.hi := by
      rw [hw₄]
      exact (hz.sub (by omega) (le_refl _)).wrote hall (le_refl _)
    have hlost := recoverNext_loses hl₄ (by rw [hw₄]; exact hst') (by rw [hw₄]; exact hend) hz₄
    rw [hall.lostBytes] at hlost
    exact wp_seq hlost fun n h₅ h₅l => lt_of_lt_of_le h₅l (Respects.step (R := LostGrows)
      (x := do
        Prog.when (n ≠ 0) do
          let used ← isUsed b
          relink P n used
        pure true) h₅)
  · -- not even the block stands
    have hno : (isBlock P b h).1 = false := by
      rw [← Bool.not_eq_true, isBlock_fst]
      rintro ⟨t, hl⟩
      exact hmin hl.min_le
    have hno' : (headerOk P b h).1 = false := by
      rw [← Bool.not_eq_true, headerOk_fst]
      rintro ⟨t, hk⟩
      exact hmin hk.min_le
    have hstart : (isBlockStart P b h).1 = true := by
      rw [isBlockStart, Prog.ite_run, if_neg hb, withSpanOf, Prog.bind_run, Prog.read_run, hs]
      exact hst
    refine wp_observe (refl_of Alike h) hno fun h₁ h₁a => ?_
    rw [wp_ite, if_neg (by decide)]
    refine wp_observe h₁a rfl fun h₂ h₂a => ?_
    suffices hr : wp (rescue P b) (fun _ h' => h.lostBytes < h'.lostBytes) h₂ from
      wp_seq hr fun _ h₃ h₃l => h₃l
    refine wp_observe h₂a hno' fun h₃ h₃a => ?_
    rw [wp_ite, if_neg (by decide)]
    refine wp_observe h₃a hstart fun h₄ h₄a => ?_
    rw [wp_ite, if_pos rfl, wp_withSpanOf ((h₄a.spanOf b).trans hs), ← h₄a.lostBytes]
    exact rescueIn_loses hst (hz.alike h₄a)

theorem sizeField_mod (n : Nat) : sizeField (n % 2 ^ 58) = sizeField n := by
  rw [sizeField_eq (Nat.mod_lt _ (by decide)), sizeField, alignment, wSizeShift, wSlackShift,
    wSlackBits, Nat.shiftLeft_eq]
  omega

theorem setWord_mod (b n slack : Nat) (used quarantined : Bool) :
    setWord b (n % 2 ^ 58) slack used quarantined = setWord b n slack used quarantined := by
  unfold setWord wordSet
  rw [sizeField_mod]

theorem wrote_setWord (b n slack : Nat) (used quarantined : Bool) :
    Wrote b (b + 8) h (setWord b n slack used quarantined h).2 :=
  (Wrote.of_alike (Respects.step (x := load64 b) h)).trans (Wrote.storeN (le_refl b) (le_refl _))

theorem wrote_setPayloadCrc_header (c : Nat) :
    Wrote b (b + P.hdrSize) h (setPayloadCrc P b c h).2 := by
  rw [setPayloadCrc, Prog.ite_run]
  split
  · rename_i hc
    rw [Profile.hdrSize_of_crc hc]
    exact Wrote.storeN (by omega) (by omega)
  · exact .of_alike (refl_of Alike h)

theorem spanFormat_loses (hpos : s.lo ≠ 0) (hs : h.spanOf s.lo = some s)
    (hdvd : (s.hi - s.lo) % 16 = 0) (hwide : 2 ^ 58 ≤ s.hi - s.lo) (hz : h.ZeroIn s.lo s.hi) :
    wp (spanFormat P s) (fun _ h' => h.lostBytes < h'.lostBytes) h := by
  have hp := P.sizes
  have hmod := Nat.mod_lt (s.hi - s.lo) (show 2 ^ 58 > 0 by decide)
  have hle : (s.hi - s.lo) % 2 ^ 58 + 2 ^ 58 ≤ s.hi - s.lo := by omega
  rw [spanFormat, wp_bind, wp]
  have hw₁ : Wrote s.lo (s.lo + P.hdrSize) h (store64 s.lo 0 h).2 :=
    Wrote.storeN (le_refl _) (by omega)
  generalize (store64 s.lo 0 h).2 = h₁ at hw₁
  rw [wp_bind, wp]
  have hw₂ := hw₁.trans (wrote_setPayloadCrc_header (P := P) (b := s.lo) (h := h₁) 0)
  generalize (setPayloadCrc P s.lo 0 h₁).2 = h₂ at hw₂
  rw [wp_bind, wp, ← setWord_mod]
  have hword₃ := word_setWord (b := s.lo) (h := h₂) hmod (show 0 < 128 by decide) false false
  have hw₃ := hw₂.trans ((wrote_setWord s.lo ((s.hi - s.lo) % 2 ^ 58) 0 false false).mono (le_refl _)
    (show s.lo + 8 ≤ s.lo + P.hdrSize by omega))
  generalize (setWord s.lo ((s.hi - s.lo) % 2 ^ 58) 0 false false h₂).2 = h₃ at hword₃ hw₃
  rw [wp_bind, wp]
  have hsize := size_setPrevInUse (b := s.lo) (h := h₃) true
  have hw₄ := hw₃.trans ((wrote_setPrevInUse (b := s.lo) true).mono (le_refl _)
    (show s.lo + 8 ≤ s.lo + P.hdrSize by omega))
  generalize (setPrevInUse s.lo true h₃).2 = h₄ at hsize hw₄
  rw [hword₃, wordSize_mkWord (by omega) (by decide)] at hsize
  have hst : startOkIn P s s.lo = true := by
    simp only [startOkIn, Bool.and_eq_true, beq_iff_eq, decide_eq_true_eq, alignment]
    omega
  have hlost := publish_loses (P := P) hpos ((hw₄.spanOf s.lo).trans hs) hst (by rw [hsize]; omega)
    ((hz.sub (Nat.le_add_right _ _) (le_refl _)).wrote hw₄ (le_refl _))
  rw [hw₄.lostBytes] at hlost
  exact wp_seq hlost fun _ h₅ h₅l => lt_of_lt_of_le h₅l (Respects.step (R := LostGrows)
    (x := binInsert P s.lo) h₅)

theorem spanAdopt_loses (hpos : s.lo ≠ 0) (hdvd : (s.hi - s.lo) % 16 = 0)
    (hwide : 2 ^ 58 ≤ s.hi - s.lo) (hz : h.ZeroIn s.lo s.hi) :
    wp (spanAdopt P s) (fun _ h' => h.lostBytes < h'.lostBytes) h := by
  rw [spanAdopt, wp_bind, wp, wp_bind, wp]
  change wp _ _ (h.listed s)
  have hrest := h.listed_rest s
  have hspan : (h.listed s).spanOf s.lo = some s := by
    rw [Heap.listed_spanOf, if_pos ⟨le_refl _, by omega⟩]
  have hlost : (h.listed s).lostBytes = h.lostBytes := by rw [hrest]
  have hzero : (h.listed s).ZeroIn s.lo s.hi := by
    rw [hrest]
    exact hz
  refine wp_seq (spanFormat_loses hpos hspan hdvd hwide hzero) fun _ h₁ h₁l => ?_
  rw [hlost] at h₁l
  exact lt_of_lt_of_le h₁l (Respects.step (R := LostGrows) (x := scrubEnter s) h₁)

theorem Session.start_adopts (buf : Buffer P) (mem : Memory) (secret : UInt64) :
    ∃ g, (Session.start buf mem secret).heap = (spanAdopt P buf.span g).2 ∧
      g.ZeroIn buf.span.lo buf.span.hi ∧ ∀ i, g.bins i = 0 := by
  have hal : alignment = 16 := rfl
  have hlarge := buf.large
  have hbase := buf.ne_null
  have hoff : P.blockOffset + usableOf P buf.size ≤ buf.size := by
    rw [minArena] at hlarge
    rw [usableOf, hal]
    omega
  have hlo : buf.span.lo = buf.base + P.blockOffset := rfl
  have hhi : buf.span.hi = buf.base + P.blockOffset + usableOf P buf.size := rfl
  obtain ⟨g, hg⟩ : ∃ g, g = (setFresh buf.span false { (Heap.blank mem) with
    secret := secret.toNat, mem := mem.store buf.base buf.size 0 }).2 := ⟨_, rfl⟩
  refine ⟨g, ?_, fun a n h₁ h₂ => ?_, fun i => ?_⟩
  · have hcond : ¬ (buf.base = 0 ∨ buf.size < minArena P ∨ buf.base % alignment ≠ 0) := by
      have := buf.aligned
      omega
    change (mmInit P buf.base buf.size secret.toNat (Heap.blank mem)).2 = _
    rw [mmInit, Prog.bind_run, Prog.ite_run, if_neg hcond]
    subst hg
    rfl
  · rw [hg]
    change (mem.store buf.base buf.size 0).load a n = 0
    rw [Memory.load_sub (a := buf.base) (n := buf.size) (by omega) (by omega),
      Memory.load_store_self, Nat.zero_mod, Nat.zero_shiftRight, Nat.zero_mod]
  · rw [hg]
    rfl

theorem Buffer.span_dvd (buf : Buffer P) : (buf.span.hi - buf.span.lo) % 16 = 0 := by
  have hlo : buf.span.lo = buf.base + P.blockOffset := rfl
  have hhi : buf.span.hi = buf.base + P.blockOffset + usableOf P buf.size := rfl
  have hdvd := usableOf_dvd P buf.size
  omega

theorem Buffer.span_ne_zero (buf : Buffer P) : buf.span.lo ≠ 0 := by
  have hlo : buf.span.lo = buf.base + P.blockOffset := rfl
  have := buf.ne_null
  omega

/-- The first block of such an arena is given up as it is made. -/
theorem Session.start_loses (buf : Buffer P) (hwide : 2 ^ 58 ≤ usableOf P buf.size) (mem : Memory)
    (secret : UInt64) : 0 < (Session.start buf mem secret).heap.lostBytes := by
  obtain ⟨g, hheap, hz, -⟩ := Session.start_adopts buf mem secret
  have hlo : buf.span.lo = buf.base + P.blockOffset := rfl
  have hhi : buf.span.hi = buf.base + P.blockOffset + usableOf P buf.size := rfl
  have hlost := spanAdopt_loses (P := P) buf.span_ne_zero buf.span_dvd (by omega) hz
  rw [hheap]
  exact lt_of_le_of_lt (Nat.zero_le _) hlost

instance (need : Nat) : CallClosed P need LostGrows where
  clear := ⟨fun h => le_refl h.lostBytes⟩
  mode _ := ⟨fun h => le_refl h.lostBytes⟩
  tune _ _ := ⟨fun h => le_refl h.lostBytes⟩
  chunk _ := inferInstance
  large _ := inferInstance
  take _ := inferInstance
  reclaim _ := inferInstance

theorem Session.lost_next (σ : Session) (a : Action) :
    σ.heap.lostBytes ≤ (σ.next P a).heap.lostBytes := by
  cases a with
  | call c => exact (CallClosed.call (R := LostGrows) c).step σ.heap
  | poke ptr offset bytes => exact le_refl _

theorem Reached.upright {σ : Session} (hr : Reached P Action.any σ) (hw : σ.heap.lostBytes = 0) :
    ∃ s, σ.Upright P s := by
  induction hr with
  | start buf mem secret =>
    have hsmall : usableOf P buf.size < 2 ^ 58 := by
      by_contra hwide
      have := Session.start_loses buf (by omega) mem secret
      omega
    exact ⟨buf.span, Session.upright buf hsmall mem secret (show _ = true from Session.playable.eq_1 ..)⟩
  | @step σ a hr ha hv ih =>
    have hle := σ.lost_next (P := P) a
    obtain ⟨s, hs⟩ := ih (by omega)
    exact ⟨s, hs.next a hv⟩

end Mars
