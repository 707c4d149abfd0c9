import MarsAllocator.Invariant.Reclaim

namespace Mars

open ByteMemory StateProgram

variable {P : Profile} {h h' h₁ : Heap} {s s' t : Span} {a b b' k m n : Nat} {c c' d : Cell}
  {L L' L₁ : Span → List Cell} {X : Nat → Prop} {live : List Nat}

theorem Heap.Outcome.course (ho : h.Outcome P X L h' L') (hs : h.Served h') (hT : h.Thriving P L)
    (hB : h.Busy L fun _ => False)
    (hX : ∀ t x c, X x → h.CellIn L t x c → c.kind ≠ .lost)
    (hX' : ∀ t x c, X x → h'.CellIn L' t x c → c.kind ≠ .lost)
    (hin : ∀ t x d, X x → h.CellIn L t x d → d.used = true → ∃ x' d', At t.lo (L' t) x' d' ∧ d'.used = true) :
    h.Course P X L h' L' :=
  ⟨hT.step ho hs hX hX', hB.spares ho.spares (fun _ ht => hs.kin.spans ▸ ht)
    (fun t x d hx hd hu => .inr (hin t x d hx hd hu)) fun _ ht => ht.elim, hs.tended, ho.spares⟩

theorem Heap.Outcome.course_live (ho : h.Outcome P (· = b) L h' L') (hs : h.Served h')
    (hT : h.Thriving P L) (hB : h.Busy L fun _ => False) (hc : h.CellIn L s b c) (hk : c.kind = .live)
    (hc' : h'.CellIn L' s b c') (hk' : c'.kind = .live) : h.Course P (· = b) L h' L' := by
  refine ho.course hs hT hB (fun t x d hx hd => ?_) (fun t x d hx hd => ?_) fun t x d hx hd _ => ?_
  · rw [hT.sound.kind_eq hc (hx ▸ hd), hk]
    decide
  · rw [ho.sound.kind_eq hc' (hx ▸ hd), hk']
    decide
  · obtain rfl : t = s := (hT.sound.tiled.plan.cell_unique (hx ▸ hd) hc).1
    exact ⟨b, c', hc'.2, Cell.used_of_ne (by rw [hk']; decide)⟩

theorem Heap.Thriving.run_scrubTick (hT : h.Thriving P L) (hB : h.Busy L fun _ => False) :
    ∃ h', scrubTick P h = ((), h') ∧ h.Stayed P L h' L := by
  obtain ⟨h', hrun, hlap⟩ := hT.sound.run_scrubTick hT.settled
  exact ⟨h', hrun, hlap.idled.stayed hT hB⟩

/-- The block of the cell `c` at `b` has been given back. -/
structure Heap.Returned (P : Profile) (b : Nat) (c : Cell) (h : Heap) (L : Span → List Cell)
    (h' : Heap) (L' : Span → List Cell) : Prop extends h.Course P (· = b) L h' L' where
  gone : ∀ t d, h'.CellIn L' t b d → d.kind = .free
  counts : h'.stats.standing = h.stats.standing - (1, c.size, c.requested P)

theorem Heap.Stayed.gone (hs : h.Stayed P L h' L') (hg : ∀ t d, h.CellIn L t b d → d.kind = .free) :
    ∀ t d, h'.CellIn L' t b d → d.kind = .free := by
  intro t d hd
  by_contra hk
  exact hk (hg t d ((hs.spares.cells t b d (Cell.used_of_ne hk) id).mp hd))

theorem Heap.Thriving.run_freeUnlocked (hT : h.Thriving P L) (hB : h.Busy L fun _ => False)
    (hc : h.CellIn L s b c) (hk : c.kind = .live) :
    ∃ h' L', freeUnlocked P (b + P.hdrSize) h = ((), h') ∧ h.Returned P b c L h' L' := by
  obtain ⟨r, h₁, L', hrun, ht, d, hd, hdk⟩ := hT.sound.run_release hT.settled hc hk
  have hT₁ : h₁.Thriving P L' := by
    refine hT.step ht.toOutcome ht.served (fun t x e hx he => ?_) fun t x e hx he => ?_
    · rw [hT.sound.kind_eq hc (hx ▸ he), hk]
      decide
    · rw [ht.gone t e (hx ▸ he)]
      decide
  have hB₁ : h₁.Busy L' (· = s) := by
    refine hB.spares ht.spares (fun t ht' => ht.served.kin.spans ▸ ht') (fun t x e hx he _ => .inl ?_)
      fun _ ht => ht.elim
    exact (hT.sound.tiled.plan.cell_unique (hx ▸ he) hc).1
  obtain ⟨h₂, hrun₂, hs₂⟩ := hT₁.run_reclaim hB₁ hd hdk
  obtain ⟨h', hrun', hs'⟩ := hs₂.thriving.run_scrubTick hs₂.busy
  have hs := hs₂.trans hs'
  refine ⟨h', L', ?_, ⟨⟨hs.thriving, hs.busy, ht.served.tended.trans hs.tended,
    ht.spares.trans (hs.spares.mono fun _ hx => hx.elim)⟩, hs.gone ht.gone, ?_⟩⟩
  · rw [hrun, Prog.bind_run_of_eq hrun₂, hrun']
  · rw [hs.counts, ht.counts]

/-- The block `c` at `b` has moved to `b'`, where it is `c'`, for `n` bytes. -/
structure Heap.Shifted (P : Profile) (b : Nat) (c : Cell) (s' : Span) (b' n : Nat) (c' : Cell)
    (h : Heap) (L : Span → List Cell) (h' : Heap) (L' : Span → List Cell) : Prop
    extends h.Course P (fun x => x = b ∨ x = b') L h' L' where
  vacant : ∀ t d, h.CellIn L t b' d → d.kind = .free
  gone : ∀ t d, h'.CellIn L' t b d → d.kind = .free
  cell : h'.CellIn L' s' b' c'
  live : c'.kind = .live
  granted : c'.requested P = c'.grant P h.mode n
  suits : c'.Suits P n
  counts : h'.stats.standing =
    h.stats.standing + (1, c'.size, c'.requested P) - (1, c.size, c.requested P)
  bytes : ∀ i < min (c.requested P) n,
    h'.mem.byte (b' + P.hdrSize + i) = h.mem.byte (b + P.hdrSize + i)
  sum : c'.crc ≠ 0 → h.mode = .managed ∧
    c'.crc = payloadCrcOf (h'.mem.load (b' + P.hdrSize) n) n

theorem Heap.Stayed.shifted (hs : h.Stayed P L h₁ L₁) (hc : h.CellIn L s b c) (hk : c.kind = .live)
    (hT : h.Thriving P L) (hm : h₁.Shifted P b c s' b' n c' L₁ h' L') :
    h.Shifted P b c s' b' n c' L h' L' where
  toCourse := (hs.toCourse.mono fun _ hx => hx.elim).trans hm.toCourse
  vacant := fun t d hd => by
    by_contra hne
    exact hne (hm.vacant t d ((hs.spares.cells t b' d (Cell.used_of_ne hne) id).mpr hd))
  gone := hm.gone
  cell := hm.cell
  live := hm.live
  granted := hs.tended.mode ▸ hm.granted
  suits := hm.suits
  counts := hs.counts ▸ hm.counts
  bytes := fun i hi => by
    rw [hm.bytes i hi]
    exact hs.spares.bytes _ (hc.kept hk (hT.sound.tiled.plan.cell_fits hc) id (by omega))
  sum := hs.tended.mode ▸ hm.sum

theorem Heap.Thriving.run_reallocMove (hT : h.Thriving P L) (hB : h.Busy L fun _ => False)
    (ho : h.Offers (mappingFor P (sizeFor P n))) (hc : h.CellIn L s b c) (hk : c.kind = .live)
    (oldSum : Nat) :
    ∃ p h' L', reallocMove P (b + P.hdrSize) (c.requested P) oldSum n h = (p, h') ∧
      (p = 0 ∧ h.Stayed P L h' L' ∨
        ∃ s' b' c', p = b' + P.hdrSize ∧ h.Shifted P b c s' b' n c' L h' L') := by
  have hp := P.sizes
  obtain ⟨r, h₁, L₁, hrun₁, hres⟩ := hT.run_mallocUnlocked hB ho
  rcases hres with ⟨hr, hs⟩ | ⟨s', b', c₁, hr, hi, -⟩
  · have hcopy : reallocCopy P (b + P.hdrSize) (c.requested P) oldSum n h = (0, h₁) := by
      rw [reallocCopy, Prog.bind_run_of_eq hrun₁, if_pos hr]
      rfl
    refine ⟨0, h₁, L₁, ?_, .inl ⟨rfl, hs⟩⟩
    rw [reallocMove, Prog.bind_run_of_eq hcopy]
    rfl
  have hu : c.used = true := Cell.used_of_ne (by rw [hk]; decide)
  have hne : b ≠ b' := by
    rintro rfl
    exact absurd (hi.vacant s c hc) (Cell.used_iff.mp hu)
  have hc₁ : h₁.CellIn L₁ s b c := (hi.spares.cells s b c hu hne).mpr hc
  have hT₁ := hi.thriving
  have hgrant := (hi.suits.grant h.mode).2.2
  -- the copy, in the new block
  obtain ⟨h₂, L₂, v, hrun₂, hw₂, hout₂, hcell₂, -, -, hcopied, hsum⟩ :=
    hT₁.sound.run_copyOver hT₁.settled hc₁ hk hi.cell hi.live (by rw [hi.granted]; exact hgrant)
      oldSum (n := n)
  have hlive : (c₁.summed v).kind = .live := hi.live
  have hcourse₂ := hout₂.course_live hw₂.served hT₁ hi.busy hi.cell hi.live hcell₂ hlive
  have hc₂ : h₂.CellIn L₂ s b c := (hout₂.spares.cells s b c hu hne).mpr hc₁
  -- the old block goes
  obtain ⟨h', L', hrun', ht⟩ := hcourse₂.thriving.run_freeUnlocked hcourse₂.busy hc₂ hk
  have hcopy : reallocCopy P (b + P.hdrSize) (c.requested P) oldSum n h = (b' + P.hdrSize, h₂) := by
    rw [reallocCopy, Prog.bind_run_of_eq hrun₁, hr, if_neg (by omega)]
    refine Prod.ext rfl ?_
    have hsnd := congrArg Prod.snd hrun₂
    exact hsnd
  have hu' : (c₁.summed v).used = true := Cell.used_of_ne (by rw [hlive]; decide)
  have hfit₂ := hcourse₂.thriving.sound.tiled.plan.cell_fits hcell₂
  have hreq : (c₁.summed v).requested P = c₁.requested P := rfl
  have hn : n ≤ c₁.requested P := by
    rw [hi.granted]
    exact hgrant
  -- what was written stays while the old block goes
  have hstays : ∀ i < c₁.requested P,
      h'.mem.byte (b' + P.hdrSize + i) = h₂.mem.byte (b' + P.hdrSize + i) := fun i hi' =>
    ht.spares.bytes _ (hcell₂.kept hlive hfit₂ hne.symm hi')
  refine ⟨b' + P.hdrSize, h', L', ?_, .inr ⟨s', b', c₁.summed v, rfl, ⟨?_, hi.vacant, ht.gone,
    (ht.spares.cells s' b' _ hu' hne.symm).mpr hcell₂, hlive, hi.granted,
    ⟨hi.suits.le, hi.suits.ge⟩, ?_, fun i hlt => ?_, fun h0 => ?_⟩⟩⟩
  · rw [reallocMove, Prog.bind_run_of_eq hcopy, Prog.bind_run, Prog.when_run, if_pos (by omega), hrun']
    rfl
  · exact (hi.toCourse.mono fun x hx => Or.inr hx).trans
      ((hcourse₂.mono fun x hx => Or.inr hx).trans (ht.toCourse.mono fun x hx => Or.inl hx))
  · rw [ht.counts, hw₂.stats, hi.counts]
    rfl
  · rw [hstays i (by omega), hcopied i hlt]
    exact hi.spares.bytes _ (hc.kept hk (hT.sound.tiled.plan.cell_fits hc) hne (by omega))
  · obtain ⟨hmode, hval⟩ := hsum h0
    rw [hi.tended.mode] at hmode
    refine ⟨hmode, hval.trans ?_⟩
    have hload : h₂.mem.load (b' + P.hdrSize) n = h'.mem.load (b' + P.hdrSize) n :=
      Memory.load_congr fun a h₁ h₂ => by
        obtain ⟨i, rfl⟩ := Nat.exists_eq_add_of_le h₁
        exact (hstays i (by omega)).symm
    rw [hload]

theorem Heap.Thriving.run_reallocUnlocked (hT : h.Thriving P L) (hB : h.Busy L fun _ => False)
    (ho : h.Offers (mappingFor P (sizeFor P n))) (hc : h.CellIn L s b c) (hk : c.kind = .live)
    (hn : n ≠ 0) :
    ∃ p h' L', reallocUnlocked P (b + P.hdrSize) n h = (p, h') ∧
      (p = 0 ∧ h.Stayed P L h' L' ∨
        (∃ c', p = b + P.hdrSize ∧ h.Course P (· = b) L h' L' ∧ h.Resized P s b n c L c' h' L') ∨
        ∃ s' b' c', p = b' + P.hdrSize ∧ h.Shifted P b c s' b' n c' L h' L') := by
  rcases hT.sound.run_reallocPlace hT.settled hc hk hn with
    ⟨h', hrun, hr⟩ | ⟨c', h', L', hrun, hr⟩ | ⟨h₂, hrun, hi⟩
  · exact ⟨0, h', L, hrun, .inl ⟨rfl, hr.toIdled.stayed hT hB⟩⟩
  · exact ⟨_, h', L', hrun, .inr (.inl ⟨c', rfl,
      hr.toOutcome.course_live hr.served hT hB hc hk hr.cell hr.live, hr⟩)⟩
  have hs := hi.stayed hT hB
  have hspans := hi.served.kin.spans
  have ho₂ : h₂.Offers (mappingFor P (sizeFor P n)) := by
    rw [Heap.Offers, hspans, hi.served.eq]
    exact ho
  obtain ⟨p, h', L', hrun', hres⟩ := hs.thriving.run_reallocMove hs.busy ho₂ ⟨hspans ▸ hc.1, hc.2⟩ hk
    (if P.hasCrc then c.crc else 0)
  refine ⟨p, h', L', hrun.trans hrun', ?_⟩
  rcases hres with ⟨hp, hr⟩ | ⟨s', b', c', hp, hm⟩
  · exact .inl ⟨hp, hs.trans hr⟩
  · exact .inr (.inr ⟨s', b', c', hp, hs.shifted hc hk hT hm⟩)

theorem malloc_zero (P : Profile) (h : Heap) : (mallocUnlocked P 0 h).1.1 = 0 := by
  have hlive : arenaLive (clearError h).2 = (!h.spans.isEmpty, (clearError h).2) := rfl
  rw [mallocUnlocked, Prog.bind_run, Prog.bind_run_of_eq hlive, Prog.ite_run, if_pos (Or.inl rfl)]
  split <;> rfl

theorem Heap.Issued.fits_of_malloc (hi : h.Issued P s b n c L h' L') {r : Nat × Nat}
    (hrun : mallocUnlocked P n h₁ = (r, h')) (hr : r.1 = b + P.hdrSize) :
    c.size ≤ n + P.hdrSize + P.slackMax := by
  have hge := hi.suits.ge
  have hn : n ≠ 0 := fun hn => by
    have h0 := congrArg (fun r => r.1.1) hrun
    rw [hn, malloc_zero] at h0
    change 0 = r.1 at h0
    have := P.sizes
    omega
  omega

theorem Heap.Issued.run_unwind (hi : h.Issued P s b m c L h₁ L₁) :
    ∃ h' L', (do
        freeUnlocked P (b + P.hdrSize)
        fail .nomem
        pure 0 : HeapM Nat) h₁ = (0, h') ∧ h.Stayed P L h' L' := by
  obtain ⟨h₂, L', hrun₂, ht⟩ := hi.thriving.run_freeUnlocked hi.busy hi.cell hi.live
  have hn : h₂.Counted (fail .nomem h₂).2 := ⟨rfl⟩
  have hs := (hn.idled ht.thriving.sound.cursor rfl).stayed ht.thriving ht.busy
  refine ⟨_, L', ?_, ⟨⟨hs.thriving, hs.busy, hi.tended.trans (ht.tended.trans hs.tended), ?_⟩, ?_⟩⟩
  · rw [Prog.bind_run_of_eq hrun₂]
    rfl
  · refine ((hi.spares.trans ht.spares).trans (hs.spares.mono fun _ hx => hx.elim)).drop
      fun x hx => .inr ?_
    rw [hx]
    exact ⟨hi.vacant, hs.gone ht.gone⟩
  · have := standing_add_sub h.stats.standing (1, c.size, c.requested P) 0
    rw [← hi.counts, ← ht.counts] at this
    exact hs.counts.trans this

theorem Heap.Issued.run_memalignFrom (hi : h.Issued P s b m c L h₁ L₁) (hnm : n ≤ m)
    (hk : 16 < 2 ^ k) (hk' : 2 ^ k < 2 ^ 64) :
    ∃ p h' L', memalignFrom P (2 ^ k) (b + P.hdrSize) n h₁ = (p, h') ∧
      (p = 0 ∧ h.Stayed P L h' L' ∨
        ∃ b' c' front, p = b' + P.hdrSize ∧ p % 2 ^ k = 0 ∧ h.Issued P s b' n c' L h' L' ∧
          front = frontIn P (2 ^ k) (b + P.hdrSize) ∧ front % 16 = 0 ∧ front + c'.size ≤ c.size ∧
          (front + sizeFor P n + P.minBlock ≤ c.size → c'.size = sizeFor P n)) := by
  have hp := P.sizes
  have hT₁ := hi.thriving
  have hsuit := hi.suits.le
  rcases hT₁.sound.memalignFrom_cases hi.cell (hT₁.origin s hi.cell.1) (n := n) (by omega) hk hk' with
    ⟨hrun, -⟩ | ⟨front, hfeq, hf16, hfmin, h0, hle, hmod, hrun⟩
  · obtain ⟨h', L', hrun', hd⟩ := hi.run_unwind
    exact ⟨0, h', L', hrun.trans hrun', .inl ⟨rfl, hd⟩⟩
  have hmin' := (sizeFor_spec P h0).2.1
  obtain ⟨r, h₂, c', L', hrun₂, hcut, d, hd, hdk⟩ :=
    hT₁.sound.run_cutUp hT₁.settled hi.cell hi.live hf16 hfmin h0 hle
  have hu' : c'.used = true := Cell.used_of_ne (by rw [hcut.live]; decide)
  -- before the cut no block starts where the aligned one is to
  have hno : ∀ t e, ¬ h₁.CellIn L₁ t (b + front) e := fun t e he => by
    have := (hT₁.sound.tiled.plan.cell_fits he).pos
    rcases hT₁.sound.tiled.plan.apart he hi.cell with ⟨-, hx, -⟩ | hap <;> omega
  have hcourse : h₁.Course P (fun x => x = b ∨ x = b + front) L₁ h₂ L' := by
    refine hcut.toOutcome.course hcut.served hT₁ hi.busy (fun t x e hx he => ?_) (fun t x e hx he => ?_)
      fun t x e hx he hu => ?_
    · rcases hx with rfl | rfl
      · rw [hT₁.sound.kind_eq hi.cell he, hi.live]
        decide
      · exact absurd he (hno t e)
    · rcases hx with rfl | rfl
      · rw [hcut.gone t e he]
        decide
      · rw [hcut.sound.kind_eq hcut.cell he, hcut.live]
        decide
    · rcases hx with rfl | rfl
      · obtain rfl : t = s := (hT₁.sound.tiled.plan.cell_unique he hi.cell).1
        exact ⟨x + front, c', hcut.cell.2, hu'⟩
      · exact absurd he (hno t e)
  obtain ⟨h₃, hrun₃, hs₃⟩ := hcourse.thriving.run_reclaim (hcourse.busy.mono fun _ ht => ht.elim) hd hdk
  obtain ⟨h', hrun', hs'⟩ := hs₃.thriving.run_scrubTick hs₃.busy
  have hs := hs₃.trans hs'
  have hall := ((hi.toCourse.mono (Y := fun x => x = b ∨ x = b + front) fun _ => Or.inl).trans
    hcourse).trans (hs.toCourse.mono fun _ hx => hx.elim)
  obtain ⟨hpared, hpared'⟩ := hcut.pared
  refine ⟨_, h', L', ?_, .inr ⟨b + front, c', front, rfl, hmod, ⟨⟨hall.thriving, hall.busy, hall.tended,
    hall.spares.drop fun x hx => ?_⟩, fun t d hd => ?_, (hs.spares.cells s _ c' hu' id).mpr hcut.cell,
    hcut.live, hcut.unsummed, ?_, hcut.suits, ?_⟩, hfeq, hf16, by omega, fun hroom => hpared' (by omega)⟩⟩
  · rw [hrun, hrun₂, Prog.bind_run_of_eq hrun₃, Prog.bind_run_of_eq hrun']
    rfl
  · rcases hx with rfl | rfl
    · exact .inr ⟨hi.vacant, hs.gone hcut.gone⟩
    · exact .inl rfl
  · by_contra hdk
    exact hno t d ((hi.spares.cells t _ d (Cell.used_of_ne hdk) (by omega)).mpr hd)
  · rw [hcut.granted, hi.tended.mode]
  · rw [hs.counts, hcut.counts, hi.counts, standing_add_sub]

/-- What is left of an over-allocation for nothing at all is one block of the least size, but for
the padding of 32 bytes under one profile. -/
theorem Heap.Issued.pared_zero {align : Nat} (hi : h.Issued P s b (memalignPad P align) c L h₁ L₁)
    (hi' : h.Issued P s b' 0 c' L h' L') (ha : align = 2 ^ k) (hk : 16 < align) (hk' : align < 2 ^ 64)
    {front : Nat} (hf : front = frontIn P align (b + P.hdrSize)) (hf16 : front % 16 = 0)
    (hle : front + c'.size ≤ c.size)
    (hcut : front + sizeFor P 0 + P.minBlock ≤ c.size → c'.size = sizeFor P 0)
    (h32 : ¬ (P = .hardened ∧ align = 32)) : c'.size ≤ P.hdrSize + P.slackMax := by
  obtain ⟨u, -, hh⟩ := hi.thriving.sound.tiled.cell hi.cell
  have hmin := hh.fits.min_le
  have hd := hh.fits.dvd
  have hd' := (hi'.thriving.sound.tiled.plan.cell_fits hi'.cell).dvd
  have hge := hi.suits.ge
  have hge' := hi'.suits.ge
  have hle₁ := hi.suits.le
  have hend := hh.room.end_le
  have htop := hh.room.top
  have hp := P.sizes
  have hk63 : align ≤ 2 ^ 63 := by
    rw [ha] at hk' ⊢
    have := (Nat.pow_lt_pow_iff_right (a := 2) (by decide)).mp hk'
    exact Nat.pow_le_pow_right (by decide) (by omega)
  have hk32 : align % 32 = 0 := by
    rw [ha] at hk ⊢
    have hk5 : 4 < k := (Nat.pow_lt_pow_iff_right (a := 2) (by decide)).mp hk
    exact Nat.mod_eq_zero_of_dvd (pow_dvd_pow 2 hk5)
  obtain ⟨-, hfmin, hfront⟩ := alignedIn_spec P (b + P.hdrSize) hk hk63 (by omega)
  rw [← hf] at hfmin hfront
  have h0 : sizeFor P 0 = P.minBlock := by cases P <;> decide
  rw [h0] at hcut
  by_cases hwrap : 2 * align < 2 ^ 64
  · have hpad : memalignPad P align = 2 * align + P.minBlock := by
      rw [memalignPad, Nat.mod_eq_of_lt hwrap, uadd_of_lt (by omega)]
    rw [hpad] at hle₁
    have hmax : Profile.slackMax .fast = 39 ∧ Profile.slackMax .hardened = 63 ∧
        Profile.slackMax .paranoid = 71 := by decide
    have hsizes : Profile.hdrSize .fast = 8 ∧ Profile.hdrSize .hardened = 16 ∧
        Profile.hdrSize .paranoid = 16 ∧ Profile.trail .fast = 0 ∧ Profile.trail .hardened = 8 ∧
        Profile.minBlock .fast = 32 ∧ Profile.minBlock .hardened = 48 := by decide
    cases P with
    | fast => omega
    | hardened =>
      have hne : align ≠ 32 := fun he => h32 ⟨rfl, he⟩
      omega
    | paranoid => omega
  · have hpad : memalignPad P align = P.minBlock := by
      rw [memalignPad, show 2 * align = 2 ^ 64 by omega, Nat.mod_self, uadd_of_lt (by omega),
        Nat.zero_add]
    rw [hpad] at hge
    omega

theorem Heap.Thriving.payload_aligned (hT : h.Thriving P L) (hc : h.CellIn L s b c) :
    (b + P.hdrSize) % 16 = 0 := by
  obtain ⟨u, -, hh⟩ := hT.sound.tiled.cell hc
  have horigin := hT.origin s hc.1
  have hdvd := hh.room.dvd
  have hlo := hh.room.lo_le
  omega

theorem Heap.Thriving.run_memalignUnlocked (hT : h.Thriving P L) (hB : h.Busy L fun _ => False)
    {align : Nat} (ha : align = 2 ^ Nat.log2 align) (ha' : align < 2 ^ 64)
    (ho : h.Offers (mappingFor P (sizeFor P (paddedFor P align n)))) :
    ∃ p h' L', memalignUnlocked P align n h = (p, h') ∧
      (p = 0 ∧ h.Stayed P L h' L' ∨
        ∃ s b c, p = b + P.hdrSize ∧ p % align = 0 ∧ h.Issued P s b n c L h' L' ∧
          (n = 0 → ¬ (P = .hardened ∧ align = 32) → c.size ≤ P.hdrSize + P.slackMax)) := by
  have hp := P.sizes
  have hal : alignment = 16 := rfl
  rw [paddedFor] at ho
  by_cases hle : align ≤ alignment
  · rw [if_pos hle] at ho
    obtain ⟨r, h', L', hrun, hres⟩ := hT.run_mallocUnlocked hB ho
    refine ⟨r.1, h', L', ?_, hres.imp_right ?_⟩
    · rw [memalignUnlocked, if_pos hle, Prog.bind_run_of_eq hrun]
      rfl
    · rintro ⟨s, b, c, hr, hi, -⟩
      have hfit := hi.fits_of_malloc hrun hr
      have hdvd : align ∣ 16 := by
        rw [ha, hal] at hle
        rw [ha]
        exact pow_dvd_pow 2 ((Nat.pow_le_pow_iff_right (a := 2) (by decide) (m := 4)).mp hle)
      have hmod : 16 ∣ r.1 := by
        rw [hr]
        exact Nat.dvd_of_mod_eq_zero (hi.thriving.payload_aligned hi.cell)
      exact ⟨s, b, c, hr, Nat.mod_eq_zero_of_dvd (hdvd.trans hmod), hi, fun hn _ => by omega⟩
  rw [if_neg hle] at ho
  rw [memalignUnlocked, if_neg hle, Prog.ite_run]
  split
  · have hn₁ : h.Counted (fail .nomem (clearError h).2).2 := ⟨rfl⟩
    exact ⟨0, _, L, rfl, .inl ⟨rfl, (hn₁.idled hT.sound.cursor rfl).stayed hT hB⟩⟩
  obtain ⟨r, h₁, L₁, hrun₁, hres⟩ := hT.run_mallocUnlocked hB ho
  rw [Prog.bind_run_of_eq hrun₁]
  rcases hres with ⟨hr, hs⟩ | ⟨s, b, c, hr, hi, -⟩
  · rw [if_pos hr]
    exact ⟨0, h₁, L₁, rfl, .inl ⟨rfl, hs⟩⟩
  obtain ⟨p, h', L', hrun', hres⟩ := hi.run_memalignFrom (k := Nat.log2 align)
    (Nat.le_add_right n _) (by omega) (by omega)
  rw [← ha] at hrun' hres
  rw [hr, if_neg (by omega), hrun']
  refine ⟨p, h', L', rfl, hres.imp_right ?_⟩
  rintro ⟨b', c', front, hpb, hmod, hi', hf, hf16, hle', hcut⟩
  refine ⟨s, b', c', hpb, hmod, hi', fun hn h32 => ?_⟩
  subst hn
  rw [Nat.zero_add] at hi
  exact hi.pared_zero hi' ha (by omega) ha' hf hf16 hle' hcut h32

end Mars
