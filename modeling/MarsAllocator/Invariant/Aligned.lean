import MarsAllocator.Invariant.Moved
import MarsAllocator.Steps.Loops

namespace Mars

open ByteMemory StateProgram

variable {P : Profile} {h h' h₁ : Heap} {s : Span} {a b b' front n : Nat} {u : Bool}
  {c c' d : Cell} {L L' L₁ : Span → List Cell} {pre post : List Cell} {X : Nat → Prop}

/-- The block at `b` has been cut up: at `b'` stands what is handed out, as the cell `c'`. -/
structure Heap.CutUp (P : Profile) (s : Span) (b : Nat) (c : Cell) (b' n : Nat) (c' : Cell)
    (h : Heap) (L : Span → List Cell) (h' : Heap) (L' : Span → List Cell) : Prop
    extends h.Outcome P (fun x => x = b ∨ x = b') L h' L' where
  served : h.Served h'
  gone : ∀ t d, h'.CellIn L' t b d → d.kind = .free
  cell : h'.CellIn L' s b' c'
  live : c'.kind = .live
  unsummed : c'.crc = 0
  granted : c'.requested P = c'.grant P h.mode n
  suits : c'.Suits P n
  pared : b' + c'.size ≤ b + c.size ∧
    (b' + sizeFor P n + P.minBlock ≤ b + c.size → c'.size = sizeFor P n)
  others : ∀ t, t ≠ s → L' t = L t
  room : freeBytes (L' s) + c'.size = freeBytes (L s) + c.size
  counts : h'.stats.standing =
    h.stats.standing - (1, c.size, c.requested P) + (1, c'.size, c'.requested P)

theorem Heap.Sound.run_cutUp (hS : h.Sound P L) (hset : h.Settled L) (hc : h.CellIn L s b c)
    (hk : c.kind = .live) (hd : front % 16 = 0) (hmin : P.minBlock ≤ front) (h0 : sizeFor P n ≠ 0)
    (hle : front + sizeFor P n ≤ c.size) :
    ∃ r h' c' L', memalignCut P b c.size front (b + front + P.hdrSize) (sizeFor P n) n h =
        (do reclaim P r; scrubTick P; pure (b + front + P.hdrSize) : HeapM Nat) h' ∧
      h.CutUp P s b c (b + front) n c' L h' L' ∧ ∃ d, h'.CellIn L' s r d ∧ d.kind = .free := by
  obtain ⟨hneed, hminn, hdn, -, -⟩ := sizeFor_spec P h0
  have hp := P.sizes
  obtain ⟨h₁, pre, post, hrun₁, hL, hn₁, ho₁, hi₁⟩ := hS.run_take hc hk
  have hsz : c.opened.size = c.size := rfl
  obtain ⟨h₂, h₃, h₄, hrun₂, hrun₃, hrun₄, hw₄, ho₄, hsame₄⟩ := ho₁.run_cut hd hmin (by omega)
  rw [Function.update_idem] at ho₄
  rw [hsz] at hrun₄ ho₄
  obtain ⟨t, ht⟩ : ∃ t, t = Cell.tail P (c.size - front) := ⟨_, rfl⟩
  obtain ⟨f, hf⟩ : ∃ f, f = c.opened.cut front := ⟨_, rfl⟩
  have htsize : t.size = c.size - front := by rw [ht]; rfl
  have htcrc : t.crc = 0 := by rw [ht]; rfl
  have hfsize : f.size = front := by rw [hf]; rfl
  have hfkind : f.kind = .bare := by rw [hf]; rfl
  rw [← hf, ← ht] at ho₄
  obtain ⟨L₄, hL₄⟩ : ∃ L₄, L₄ = Function.update L s (pre ++ [f] ++ [t] ++ post) := ⟨_, rfl⟩
  rw [← hL₄] at ho₄
  have hself₄ : L₄ s = pre ++ [f] ++ [t] ++ post := ho₄.cells
  have hb : b = s.lo + extents pre := ho₁.gap.start
  have hfcell₄ : h₄.CellIn L₄ s b f := by
    have hcells₄ : L₄ s = pre ++ [f] ++ ([t] ++ post) := by rw [hself₄, List.append_assoc (pre ++ [f])]
    exact Heap.cellIn_of_eq ho₄.gap.span hcells₄ hb
  have hsp₄ : h₁.Spares P (fun x => x = b ∨ x = b + front)
      (Function.update L s (pre ++ [c.opened] ++ post)) h₄ L₄ := by
    have hext : extents [f, t] = extents [c.opened] := by
      rw [extents_cons, extents_one, extents_one, hfsize, htsize, hsz]
      omega
    have hat : ∀ x d, At (s.lo + extents pre) [f, t] x d → x = b ∨ x = b + front := by
      rw [← hb]
      rintro x d (⟨rfl, -⟩ | hx)
      · exact .inl rfl
      · exact .inr ((at_one.mp hx).1.trans (by rw [hfsize]))
    have hspares := ho₁.plan.spares (X := fun x => x = b ∨ x = b + front) ho₁.gap.span ho₁.cells
      hext hw₄.kin.spans (fun x d hx _ => .inl ((at_one.mp hx).1.trans hb.symm))
      (fun x d hx _ => hat x d hx) fun a ha => hsame₄ a (.inl (ha.mono fun _ => .inl))
    rw [Function.update_idem] at hspares
    rw [hL₄, List.append_assoc pre [f] [t]]
    exact hspares
  -- the second half, trimmed and handed out
  obtain ⟨h₅, c₅, u₅, post₅, hrun₅, hw₅, ho₅, htrim, hsp₅, -⟩ :=
    ho₄.run_splitBlock hdn hminn (by omega)
  obtain ⟨hle₅, hlt₅, hpared⟩ := htrim.size (by omega)
  have hsuit : c₅.Suits P n := suits_of_sizeFor h0 hle₅ hlt₅ ho₅.fits.dvd
  obtain ⟨h₆, c', L₆, hrun₆, hg, hsize', hcrc', hroom₆, -⟩ := ho₅.loose.run_grant hsuit
  obtain ⟨u₆, -, hh₆⟩ := hg.sound.tiled.cell hg.cell
  have hrun₇ := run_statAdd hh₆.toWrit hg.live
  obtain ⟨h₇, hh₇⟩ : ∃ h₇, h₇ =
      { h₆ with stats := h₆.stats.blockAdded c'.size (c'.requested P) } := ⟨_, rfl⟩
  rw [← hh₇] at hrun₇
  have hn₇ : h₆.Counted h₇ := hh₇ ▸ ⟨rfl⟩
  have hS₇ := hg.sound.counted hn₇
  have hne : ¬ b = b + front := by omega
  have hfu : f.used = true := Cell.used_of_bare hfkind
  have hfcell₅ := (hsp₅ (· = b + front) rfl).cells s b f hfu hne |>.mpr hfcell₄
  have hfcell₆ := (hg.spares (· = b + front) rfl).cells s b f hfu hne |>.mpr hfcell₅
  have hfcell₇ : h₇.CellIn L₆ s b f := ⟨hn₇.kin.spans ▸ hfcell₆.1, hfcell₆.2⟩
  obtain ⟨pre₇, post₇, hself₇, hb₇⟩ := hfcell₇.split
  have hfopen : f.opened = f := by rw [Cell.opened, ← hfkind]
  have ho₇ := hS₇.open hfcell₇.1 hself₇ hb₇ hfu (by rw [Cell.quarantined, hfkind]; rfl)
  rw [hfopen, ← hself₇, Function.update_eq_self] at ho₇
  obtain ⟨h₈, r, h₉, L', hr, hrun₈, hrun₉, hfree, hw₉, hS₉, hsp₉, hothers, hroom, hgone⟩ :=
    ho₇.run_giveUp
  have hu' : c'.used = true := Cell.used_of_ne (by rw [hg.live]; decide)
  have hcell₇ : h₇.CellIn L₆ s (b + front) c' := ⟨hn₇.kin.spans ▸ hg.cell.1, hg.cell.2⟩
  have hcell₉ := ((hsp₉ (· = b) rfl).cells s (b + front) c' hu' (by omega)).mpr hcell₇
  have hsp : h.Spares P (fun x => x = b ∨ x = b + front) L h₉ L' := by
    have h₁₄ := (hi₁.spares.mono fun _ => Or.inl).trans hsp₄
    have h₄₆ := (hsp₅ _ (.inr rfl)).trans (hg.spares (fun x => x = b ∨ x = b + front) (.inr rfl))
    exact h₁₄.trans ((h₄₆.congr hn₇.kin.spans hn₇.mem).trans (hsp₉ _ (.inl rfl)))
  have hset₉ : h₉.Settled L' := by
    refine hset.spares hsp fun t x d hd hx => ?_
    rcases hx with rfl | rfl
    · rw [hgone t d hd]
      decide
    · rw [(hS₉.tiled.plan.cell_unique hd hcell₉).2, hg.live]
      decide
  have hmode : h₅.mode = h.mode := by
    rw [hw₅.mode, hw₄.mode]
    exact hn₁.served.mode
  have hserved₄ : h₁.Served h₇ :=
    hw₄.served.trans (hw₅.served.trans (hg.work.served.trans hn₇.served))
  refine ⟨r, h₉, c', L', ?_, ⟨⟨hS₉, hset₉, hsp⟩, ?_, hgone, hcell₉, hg.live, ?_, ?_, hg.suits,
    ⟨by omega, fun hroom => ?_⟩, fun t ht => ?_, ?_, ?_⟩, hfree⟩
  · have hwhen : (Prog.when (r ≠ 0) (do releaseBlock P r; reclaim P r)) h₈ = reclaim P r h₉ := by
      rw [Prog.when_run, if_pos hr, Prog.bind_run_of_eq hrun₉]
    rw [memalignCut, Nat.add_sub_cancel, Prog.bind_run_of_eq hrun₁, Prog.bind_run_of_eq hrun₂,
      Prog.bind_run_of_eq hrun₃, Prog.bind_run_of_eq hrun₄, Prog.bind_run_of_eq hrun₅,
      Prog.bind_run_of_eq hrun₆, if_pos rfl, Prog.bind_run_of_eq hrun₇, Prog.bind_run_of_eq hrun₈,
      Prog.bind_run, hwhen]
    rfl
  · exact hi₁.served.trans (hserved₄.trans hw₉.served)
  · rw [hcrc', htrim.crc, htcrc]
  · rw [hg.granted, hmode]
  · rw [hsize', htrim.exact (by omega)]
  · rw [hothers t ht, hg.others t ht, Function.update_of_ne ht, hL₄, Function.update_of_ne ht]
  · have hfb := htrim.freeBytes (by omega)
    rw [hroom, hroom₆, Function.update_self, hL, freeBytes_append, freeBytes_append, freeBytes_append,
      freeBytes_append, freeBytes_append, freeBytes_one, freeBytes_one, freeBytes_one,
      if_neg (by rw [hfkind]; decide), if_neg (by rw [ho₅.bare]; decide),
      if_neg (by rw [hk]; decide)]
    omega
  · rw [hw₉.stats, hh₇, Stats.standing_blockAdded, hg.work.stats, hw₅.stats,
      hw₄.stats, hi₁.counts]

theorem Heap.CutUp.patrolled {b' : Nat} (hcut : h.CutUp P s b c b' n c' L h₁ L')
    (hl : h₁.Lapped P L' h') : h.CutUp P s b c b' n c' L h' L' := by
  have hp := hl.toPatrolled
  refine ⟨hcut.toOutcome.patrolled hl, hcut.served.trans hp.served, fun t d hd => ?_, ?_, hcut.live,
    hcut.unsummed, hcut.granted, hcut.suits, hcut.pared, hcut.others, hcut.room, hp.standing.trans hcut.counts⟩
  · rw [Heap.CellIn, hp.kin.spans] at hd
    exact hcut.gone t d hd
  · rw [Heap.CellIn, hp.kin.spans]
    exact hcut.cell

theorem Heap.Sound.run_memalignCut (hS : h.Sound P L) (hset : h.Settled L) (hc : h.CellIn L s b c)
    (hk : c.kind = .live) (huser : s.kind = .user) (hd : front % 16 = 0)
    (hmin : P.minBlock ≤ front) (h0 : sizeFor P n ≠ 0) (hle : front + sizeFor P n ≤ c.size) :
    ∃ h' c' L', memalignCut P b c.size front (b + front + P.hdrSize) (sizeFor P n) n h =
        (b + front + P.hdrSize, h') ∧ h.CutUp P s b c (b + front) n c' L h' L' := by
  obtain ⟨r, h₁, c', L', hrun, hcut, d, hcell, -⟩ := hS.run_cutUp hset hc hk hd hmin h0 hle
  obtain ⟨h', hrun', hlap⟩ := hcut.sound.run_scrubTick hcut.settled
  refine ⟨h', c', L', ?_, hcut.patrolled hlap⟩
  rw [hrun, Prog.bind_run_of_eq (run_reclaim_user (hcut.sound.spanOf hcell) huser),
    Prog.bind_run_of_eq hrun']
  rfl

/-- The request has been refused for want of room, and no block in use has changed. -/
structure Heap.Declined (P : Profile) (h : Heap) (L : Span → List Cell) (h' : Heap)
    (L' : Span → List Cell) : Prop extends h.Outcome P (fun _ => False) L h' L' where
  served : h.Served h'
  counts : h'.stats.standing = h.stats.standing
  nomem : h.Matching P L → h'.lastError = .nomem

theorem Heap.Refused.declined (hr : h.Refused P L h') (hS : h.Sound P L) (hset : h.Settled L) :
    h.Declined P L h' L := ⟨hr.toIdled.outcome hS hset, hr.served, hr.counts, hr.nomem⟩

theorem alignedIn_eq {align raw total need : Nat} (hw : alignedIn P align raw < 2 ^ 64)
    (hle : frontIn P align raw + need ≤ total) (hend : raw + total < 2 ^ 64 + need) :
    alignedIn P align raw = raw + frontIn P align raw := by
  rw [frontIn, usub] at *
  omega

theorem frontIn_fits {align raw : Nat} (ha : 16 < align) (hd : align % 16 = 0)
    (hfront : frontIn P align raw < P.minBlock + align) (h0 : sizeFor P n ≠ 0) (total : Nat)
    (htotal : n + (2 * align + P.minBlock) + P.hdrSize + P.trail ≤ total) :
    frontIn P align raw + sizeFor P n ≤ total := by
  have hp := P.sizes
  obtain ⟨-, -, -, -, hmax⟩ := sizeFor_spec P h0
  omega

theorem standing_add_sub (x y z : Nat × Nat × Nat) : x + y - y + z = x + z :=
  Prod.ext (congrArg (· + z.1) (Nat.add_sub_cancel ..))
    (Prod.ext (congrArg (· + z.2.1) (Nat.add_sub_cancel ..))
      (congrArg (· + z.2.2) (Nat.add_sub_cancel ..)))

theorem Heap.HandedOut.run_unwind {m : Nat} (ho : h.HandedOut P s b m c L h₁ L₁)
    (huser : s.kind = .user) :
    ∃ h' L', (do
        freeUnlocked P (b + P.hdrSize)
        fail .nomem
        pure 0 : HeapM Nat) h₁ = (0, h') ∧ h.Declined P L h' L' := by
  obtain ⟨h₂, L', hrun₂, ht⟩ := ho.sound.run_freeUnlocked ho.settled ho.cell ho.live huser
  have hn : h₂.Counted (fail .nomem h₂).2 := ⟨rfl⟩
  have hout := ht.toOutcome.counted hn
  refine ⟨_, L', ?_, ⟨hout.sound, hout.settled, ?_⟩, ?_, ?_, fun _ => rfl⟩
  · rw [Prog.bind_run_of_eq hrun₂]
    rfl
  · refine (ho.spares.trans hout.spares).drop fun x hx => .inr ?_
    rw [hx]
    exact ⟨ho.vacant, fun t d hd => ht.gone t d hd⟩
  · exact ho.served.trans (ht.served.trans hn.served)
  · have := standing_add_sub h.stats.standing (1, c.size, c.requested P) 0
    rw [← ho.counts, ← ht.counts] at this
    exact this

theorem Heap.Sound.memalignFrom_cases {k : Nat} (hS : h.Sound P L) (hc : h.CellIn L s b c)
    (hlo : (s.lo + P.hdrSize) % 16 = 0) (hn : n ≤ c.size) (hk : 16 < 2 ^ k) (hk' : 2 ^ k < 2 ^ 64) :
    (memalignFrom P (2 ^ k) (b + P.hdrSize) n h = (do
        freeUnlocked P (b + P.hdrSize)
        fail .nomem
        pure 0 : HeapM Nat) h ∧
      (sizeFor P n = 0 ∨ c.size < frontIn P (2 ^ k) (b + P.hdrSize) + sizeFor P n)) ∨
      ∃ front, front = frontIn P (2 ^ k) (b + P.hdrSize) ∧ front % 16 = 0 ∧ P.minBlock ≤ front ∧
        sizeFor P n ≠ 0 ∧ front + sizeFor P n ≤ c.size ∧
        (b + front + P.hdrSize) % 2 ^ k = 0 ∧ memalignFrom P (2 ^ k) (b + P.hdrSize) n h =
          memalignCut P b c.size front (b + front + P.hdrSize) (sizeFor P n) n h := by
  have hp := P.sizes
  obtain ⟨u, -, hh⟩ := hS.tiled.cell hc
  have hroom := hh.room
  have hlt := hh.fits.lt
  have hb : b ≠ 0 := by
    have := hroom.lo_pos
    have := hroom.lo_le
    omega
  have hend := hroom.end_le
  have htop := hroom.top
  have hk4 : 4 < k := (Nat.pow_lt_pow_iff_right (a := 2) (by decide)).mp hk
  have hk63 : 2 ^ k ≤ 2 ^ 63 := by
    have := (Nat.pow_lt_pow_iff_right (a := 2) (by decide)).mp hk'
    exact Nat.pow_le_pow_right (by decide) (by omega)
  have hmin := hh.fits.min_le
  obtain ⟨hwant, hfmin, hfront⟩ :=
    alignedIn_spec P (b + P.hdrSize) hk hk63 (by omega)
  have hmod := alignedIn_mod_pow P (b + P.hdrSize) hk'
  obtain ⟨front, hfeq⟩ : ∃ front, front = frontIn P (2 ^ k) (b + P.hdrSize) := ⟨_, rfl⟩
  have hadd : sizeFor P n ≠ 0 → uadd front (sizeFor P n) = front + sizeFor P n := fun h0 => by
    obtain ⟨-, -, -, -, hmax⟩ := sizeFor_spec P h0
    exact uadd_of_lt (by omega)
  rw [memalignFrom, Prog.bind_run_of_eq (hS.run_blockOf hc), if_neg hb,
    Prog.bind_run_of_eq hh.run_blockSize, ← hfeq, Prog.ite_run]
  by_cases hcond : sizeFor P n = 0 ∨ c.size < uadd front (sizeFor P n)
  · rw [if_pos hcond]
    refine .inl ⟨rfl, ?_⟩
    by_cases h0 : sizeFor P n = 0
    · exact .inl h0
    · rw [hadd h0] at hcond
      exact hcond
  obtain ⟨h0, hle⟩ := not_or.mp hcond
  rw [hadd h0, Nat.not_lt] at hle
  have hmin' := (sizeFor_spec P h0).2.1
  have hat := alignedIn_eq hwant (hfeq ▸ hle) (by omega)
  rw [← hfeq] at hat
  have hf16 : front % 16 = 0 := by
    have h16 : (b + P.hdrSize + front) % 16 = 0 := by
      rw [← hat]
      exact Nat.mod_eq_zero_of_dvd ((pow_dvd_pow 2 hk4.le).trans (Nat.dvd_of_mod_eq_zero hmod))
    have := hroom.dvd
    have := hroom.lo_le
    omega
  have hwanteq : alignedIn P (2 ^ k) (b + P.hdrSize) = b + front + P.hdrSize := by omega
  rw [if_neg hcond, hwanteq]
  exact .inr ⟨front, rfl, hf16, hfeq ▸ hfmin, h0, hle, hwanteq ▸ hmod, rfl⟩

theorem Heap.HandedOut.run_memalignFrom {m k : Nat}
    (ho : h.HandedOut P s b m c L h₁ L₁) (huser : s.kind = .user)
    (hlo : (s.lo + P.hdrSize) % 16 = 0) (hnm : n ≤ m) (hk : 16 < 2 ^ k) (hk' : 2 ^ k < 2 ^ 64) :
    ∃ p h' L', memalignFrom P (2 ^ k) (b + P.hdrSize) n h₁ = (p, h') ∧
      (p = 0 ∧ h.Declined P L h' L' ∧ (sizeFor P n = 0 ∨
          c.size < frontIn P (2 ^ k) (b + P.hdrSize) + sizeFor P n) ∨
        ∃ b' c', p = b' + P.hdrSize ∧ p % 2 ^ k = 0 ∧ h.HandedOut P s b' n c' L h' L') := by
  have hp := P.sizes
  have hsuit := ho.suits.le
  rcases ho.sound.memalignFrom_cases ho.cell hlo (n := n) (by omega) hk hk' with
    ⟨hrun, hshort⟩ | ⟨front, -, hf16, hfmin, h0, hle, hmod, hrun⟩
  · obtain ⟨h', L', hrun', hd⟩ := ho.run_unwind huser
    exact ⟨0, h', L', hrun.trans hrun', .inl ⟨rfl, hd, hshort⟩⟩
  have hmin' := (sizeFor_spec P h0).2.1
  obtain ⟨h', c', L', hrun', hcut⟩ := ho.sound.run_memalignCut ho.settled ho.cell ho.live huser hf16
    hfmin h0 hle
  refine ⟨_, h', L', hrun.trans hrun', .inr ⟨b + front, c', rfl, hmod, ?_⟩⟩
  have hsp := (ho.spares.mono (Y := fun x => x = b ∨ x = b + front) fun _ => Or.inl).trans hcut.spares
  refine ⟨⟨hcut.sound, hcut.settled, hsp.drop fun x hx => ?_⟩, ho.served.trans hcut.served,
    fun t d hd => ?_, hcut.cell, hcut.live, hcut.unsummed, ?_, hcut.suits, fun t ht => ?_, ?_, ?_⟩
  · rcases hx with rfl | rfl
    · exact .inr ⟨ho.vacant, hcut.gone⟩
    · exact .inl rfl
  · by_contra hdk
    have hd₁ := (ho.spares.cells t _ d (Cell.used_of_ne hdk) (by omega)).mpr hd
    have := (ho.sound.tiled.plan.cell_fits hd₁).pos
    rcases ho.sound.tiled.plan.apart hd₁ ho.cell with ⟨-, hx, -⟩ | hap <;> omega
  · rw [hcut.granted, ho.served.mode]
  · rw [hcut.others t ht, ho.others t ht]
  · rw [hcut.room, ho.room]
  · rw [hcut.counts, ho.counts, standing_add_sub]

/-- `mm_memalign` on an arena the caller brought: it fails only where the over-allocation does,
unless the padding wraps. -/
theorem Heap.Sound.run_memalignUnlocked (hS : h.Sound P L) (hset : h.Settled L)
    (hs : h.spans ≠ []) (hg : h.growable = false) (huser : ∀ t ∈ h.spans, t.kind = .user)
    (hlo : ∀ t ∈ h.spans, (t.lo + P.hdrSize) % 16 = 0) {k : Nat} (hk : 16 < 2 ^ k)
    (hk' : 2 ^ k < 2 ^ 64) (hn : n < 2 ^ 64) :
    ∃ p h' L', memalignUnlocked P (2 ^ k) n h = (p, h') ∧
      (p = 0 ∧ h.Declined P L h' L' ∨
        ∃ s b c, p = b + P.hdrSize ∧ p % 2 ^ k = 0 ∧ h.HandedOut P s b n c L h' L') ∧
      (2 * 2 ^ k + P.minBlock < 2 ^ 64 →
        (p = 0 ↔ (mallocUnlocked P (n + (2 * 2 ^ k + P.minBlock)) h).1.1 = 0)) := by
  have hp := P.sizes
  have hmax : sizeMax = 2 ^ 64 - 1 := rfl
  have hal : alignment = 16 := rfl
  have hpad : 2 * 2 ^ k + P.minBlock < 2 ^ 64 → memalignPad P (2 ^ k) = 2 * 2 ^ k + P.minBlock := by
    intro hw
    rw [memalignPad, Nat.mod_eq_of_lt (by omega), uadd_of_lt hw]
  have hpadlt : memalignPad P (2 ^ k) < 2 ^ 64 := uadd_lt _ _
  obtain ⟨lists, hl⟩ := hS.filed.shelves
  obtain ⟨r, h₁, hrun₁, hres⟩ := hS.run_mallocUnlocked hset hs hg hl (n + memalignPad P (2 ^ k))
  rw [memalignUnlocked, if_neg (by omega), Prog.ite_run]
  by_cases hover : sizeMax - memalignPad P (2 ^ k) < n
  · have hn₁ : h.Counted (fail .nomem (clearError h).2).2 := ⟨rfl⟩
    have href : h.Refused P L (fail .nomem (clearError h).2).2 :=
      ⟨hn₁.idled hS.cursor rfl, fun _ => rfl⟩
    rw [if_pos hover]
    refine ⟨0, _, L, rfl, .inl ⟨rfl, href.declined hS hset⟩, fun hw => iff_of_true rfl ?_⟩
    rw [← hpad hw, hrun₁]
    rcases hres with ⟨-, hr, -⟩ | ⟨-, -, s, c, L', ho⟩
    · exact hr
    · have := ho.suits.le
      have := (ho.sound.tiled.plan.cell_fits ho.cell).lt
      omega
  rw [if_neg hover, Prog.bind_run_of_eq hrun₁]
  rcases hres with ⟨-, hr, href⟩ | ⟨hne, hr, s, c, L₁, ho⟩
  · rw [if_pos hr]
    refine ⟨0, h₁, L, rfl, .inl ⟨rfl, href.declined hS hset⟩, fun hw => iff_of_true rfl ?_⟩
    rw [← hpad hw, hrun₁]
    exact hr
  generalize h.pick P lists (sizeFor P (n + memalignPad P (2 ^ k))) = b at hne hr ho
  have hptr : b + P.hdrSize ≠ 0 := by omega
  have hs' : s ∈ h.spans := ho.served.kin.spans ▸ ho.cell.1
  obtain ⟨p, h', L', hrun', hres⟩ := ho.run_memalignFrom (huser s hs') (hlo s hs') (n := n)
    (Nat.le_add_right _ _) hk hk'
  rw [hr, if_neg hptr, hrun']
  have hends : p = 0 ∧ h.Declined P L h' L' ∨
      ∃ b' c', p = b' + P.hdrSize ∧ p % 2 ^ k = 0 ∧ h.HandedOut P s b' n c' L h' L' :=
    hres.imp_left fun hres => ⟨hres.1, hres.2.1⟩
  refine ⟨p, h', L', rfl, hends.imp_right fun hout => ⟨s, hout⟩, fun hw => ?_⟩
  rw [← hpad hw, hrun₁, hr]
  refine iff_of_false (fun hp0 => ?_) hptr
  have hsuit := ho.suits.le
  have hlt := (ho.sound.tiled.plan.cell_fits ho.cell).lt
  rcases hres with ⟨-, -, hshort⟩ | ⟨b', c', hpb, -, -⟩
  · have h0 := sizeFor_ne_zero P (n := n) (by omega)
    have hk4 : 4 < k := (Nat.pow_lt_pow_iff_right (a := 2) (by decide)).mp hk
    have hd : 2 ^ k % 16 = 0 := Nat.mod_eq_zero_of_dvd (pow_dvd_pow 2 hk4.le)
    have hfront := (alignedIn_spec P (b + P.hdrSize) hk (by omega) (by
      obtain ⟨u, -, hh⟩ := ho.sound.tiled.cell ho.cell
      have := hh.room.end_le
      have := hh.room.top
      have := hh.fits.min_le
      omega)).2.2
    have hfits := frontIn_fits hk hd hfront h0 c.size (by rw [← hpad hw]; omega)
    rcases hshort with h0' | hshort <;> omega
  · omega

end Mars
