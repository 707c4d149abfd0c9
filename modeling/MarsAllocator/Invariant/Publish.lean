import MarsAllocator.Invariant.Standing

namespace Mars

open ByteMemory StateProgram

variable {P : Profile} {h : Heap} {s : Span} {b n : Nat} {u u' : Bool} {c d : Cell}
  {κ : Nat} {mirrors : Prop} {m m' : Memory} {post : List Cell}

theorem run_setWord (hc : h.Covers b 8) (n slack : Nat) (used q : Bool) :
    setWord b n slack used q h =
      ((), h.withMem (h.mem.store b 8 (wordSet (h.word b) n slack used q))) := by
  rw [setWord, Prog.bind_run_of_eq (run_load64 hc)]
  exact run_store64 hc

theorem run_setBlockSize (hc : h.Covers b 8) (n : Nat) :
    setBlockSize b n h = ((), h.withMem (h.mem.store b 8 (wordSetSize (h.word b) n))) := by
  rw [setBlockSize, Prog.bind_run_of_eq (run_load64 hc)]
  exact run_store64 hc

theorem run_setPrevInUse (hc : h.Covers b 8) (used : Bool) :
    setPrevInUse b used h =
      ((), h.withMem (h.mem.store b 8 (wordSetPrevInUse (h.word b) used))) := by
  rw [setPrevInUse, Prog.bind_run_of_eq (run_load64 hc)]
  exact run_store64 hc

theorem run_payloadCrc (hc : h.Covers b P.hdrSize) :
    payloadCrc P b h = (if P.hasCrc then h.mem.load (b + 12) 4 else 0, h) := by
  refine Prod.ext ?_ (still_payloadCrc hc)
  rw [payloadCrc, Prog.ite_run]
  split <;> rfl

/-- Only the checksum field of the header at `b` may have changed, to `v`. -/
structure CrcSet (P : Profile) (m m' : Memory) (b v : Nat) : Prop where
  crc : P.hasCrc = true → m'.load (b + 12) 4 = v
  word : m'.load b 8 = m.load b 8
  same : ∀ a, a < b ∨ b + P.hdrSize ≤ a → m'.byte a = m.byte a

theorem run_setPayloadCrc (hc : h.Covers b P.hdrSize) {v : Nat} (hv : v < 2 ^ 32) :
    ∃ m', setPayloadCrc P b v h = ((), h.withMem m') ∧ CrcSet P h.mem m' b v := by
  unfold setPayloadCrc
  by_cases hcrc : P.hasCrc = true
  · have h16 := Profile.hdrSize_of_crc hcrc
    rw [if_pos hcrc, run_storeN (hc.sub (by omega) (by omega))]
    refine ⟨_, rfl, fun _ => ?_, ?_, fun a ha => ?_⟩
    · rw [Memory.load_store_self, Nat.mod_eq_of_lt hv]
    · exact Memory.load_store_of_disjoint (by omega)
    · exact Memory.byte_store_of_notMem (by omega)
  · rw [if_neg hcrc]
    exact ⟨h.mem, rfl, fun hc => absurd hc hcrc, rfl, fun _ _ => rfl⟩

/-- What `mm_seal` leaves: the header of `c` at `b`, its mirror, and everything else as it was. -/
structure SealedIn (P : Profile) (κ : Nat) (s : Span) (m m' : Memory) (b : Nat) (u : Bool)
    (c : Cell) : Prop where
  head : HeadAt P κ s m' b u c
  mirror : P.hasMirror = true → c.used = true →
    m'.load (b + c.size - P.hdrSize) P.hdrSize = m'.load b P.hdrSize
  same : ∀ a, a < b ∨ b + P.hdrSize ≤ a →
    c.used = false ∨ a < b + c.size - P.mirrorSize ∨ b + c.size ≤ a → m'.byte a = m.byte a

theorem run_sealCrc (hw : h.Writ P s b u c) (hcrc : P.hasCrc = true → h.mem.load (b + 12) 4 = c.crc) :
    ∃ m', sealCrc P b h = ((), h.withMem m') ∧ HeadAt P h.secret s m' b u c ∧
      ∀ a, a < b ∨ b + P.hdrSize ≤ a → m'.byte a = h.mem.byte a := by
  unfold sealCrc
  by_cases hc : P.hasCrc = true
  · have h16 := Profile.hdrSize_of_crc hc
    have hv := hw.covers_head
    rw [if_pos hc, Prog.bind_run_of_eq hw.run_load64, Prog.bind_run_of_eq (run_payloadCrc hv),
      if_pos hc, Prog.bind_run_of_eq hw.run_blockIndex]
    change ∃ m', storeN (b + 8) 4 _ h = _ ∧ _
    rw [run_storeN (hv.sub (by omega) (by omega))]
    refine ⟨_, rfl, ⟨?_, fun _ => ?_, fun _ => ?_⟩, fun a ha => ?_⟩
    · rw [Memory.load_store_of_disjoint (by omega)]
      exact hw.word
    · rw [Memory.load_store_of_disjoint (by omega)]
      exact hcrc hc
    · rw [Memory.load_store_self, hcrc hc]
      exact Nat.mod_eq_of_lt (crc32c_lt _ _)
    · exact Memory.byte_store_of_notMem (by omega)
  · rw [if_neg hc]
    exact ⟨h.mem, rfl, ⟨hw.word, fun hc' => absurd hc' hc, fun hc' => absurd hc' hc⟩,
      fun _ _ => rfl⟩

theorem run_sealMirror (hw : h.Writ P s b u c) (hh : HeadAt P κ s h.mem b u c) :
    ∃ m', sealMirror P b h = ((), h.withMem m') ∧ SealedIn P κ s h.mem m' b u c := by
  have hp := P.sizes
  have hmin := hw.fits.min_le
  unfold sealMirror
  by_cases hc : P.hasMirror = true
  · have hms := Profile.mirrorSize_of_mirror hc
    rw [if_pos hc, Prog.bind_run_of_eq hw.run_isUsed]
    cases hu : c.used with
    | false =>
      refine ⟨h.mem, rfl, hh, fun _ h' => absurd h' (by rw [hu]; decide), fun _ _ _ => rfl⟩
    | true =>
      have hv := hw.covers
      rw [if_pos rfl, Prog.bind_run_of_eq hw.run_blockEnd, memcpy,
        Prog.bind_run_of_eq (run_loadN hw.covers_head), hms,
        run_storeN (hv.sub (by omega) (by omega))]
      have hsame : ∀ a, a < b + c.size - P.hdrSize ∨ b + c.size ≤ a →
          (h.mem.store (b + c.size - P.hdrSize) P.hdrSize (h.mem.load b P.hdrSize)).byte a =
            h.mem.byte a := fun a ha => Memory.byte_store_of_notMem (by omega)
      refine ⟨_, rfl, hh.congr fun a h₁ h₂ => hsame a (by omega), fun _ _ => ?_,
        fun a _ h₂ => hsame a ?_⟩
      · rw [Memory.load_store_self, Nat.mod_eq_of_lt (Memory.load_lt _ _ _),
          Memory.load_store_of_disjoint (by omega)]
      · rw [hu, hms] at h₂
        exact h₂.resolve_left (by decide)
  · rw [if_neg hc]
    exact ⟨h.mem, rfl, hh, fun hc' => absurd hc' hc, fun _ _ _ => rfl⟩

theorem run_sealHeader (hw : h.Writ P s b u c)
    (hcrc : P.hasCrc = true → h.mem.load (b + 12) 4 = c.crc) :
    ∃ m', sealHeader P b h = ((), h.withMem m') ∧ SealedIn P h.secret s h.mem m' b u c := by
  obtain ⟨m₁, hrun₁, hhead, hsame₁⟩ := run_sealCrc hw hcrc
  have hw₁ : (h.withMem m₁).Writ P s b u c := ⟨hw.room.withMem m₁, hw.fits, hhead.word⟩
  obtain ⟨m₂, hrun₂, hs⟩ := run_sealMirror hw₁ hhead
  rw [sealHeader, Prog.bind_run_of_eq hrun₁]
  exact ⟨m₂, hrun₂, hs.head, hs.mirror, fun a h₁ h₂ => (hs.same a h₁ h₂).trans (hsame₁ a h₁)⟩

theorem SealedIn.cellAt (hs : SealedIn P κ s m m' b u c) (hf : c.Fits P)
    (hcan : P.hasCanary = true → c.kind = .live →
      m.load (b + c.size - c.slack) 8 = canaryValue (indexIn s b) κ)
    (htag : c.kind = .free → m.load (b + c.size - 8) 8 = c.size) :
    CellAt P κ mirrors s m' b u c := by
  have hp := P.sizes
  have hmin := hf.min_le
  refine ⟨hs.head, fun hc hk => ?_, fun hk => ?_, fun _ hc hu => hs.mirror hc hu⟩
  · have hcs : P.canarySize = 8 := by rw [Profile.canarySize, if_pos hc]
    have ht : P.trail = P.canarySize + P.mirrorSize := rfl
    have := hf.trail_le hk
    have := hf.slack_le hk
    refine Eq.trans (Memory.load_congr fun x _ _ => ?_) (hcan hc hk)
    exact hs.same x (.inr (by omega)) (.inr (.inl (by omega)))
  · refine Eq.trans (Memory.load_congr fun x _ _ => ?_) (htag hk)
    exact hs.same x (.inr (by omega)) (.inl (Cell.not_used_iff.mpr hk))

theorem CellAt.holds (hc : CellAt P h.secret mirrors s h.mem b u c) (hr : h.Room s b c.size)
    (hf : c.Fits P) : h.Holds P s b u c := ⟨⟨hr, hf, hc.word⟩, hc.toHeadAt⟩

theorem run_relink (hr : h.Room s b c.size) (hf : c.Fits P)
    (hc : CellAt P h.secret mirrors s h.mem b u c) (used : Bool) :
    ∃ m', relink P b used h = ((), h.withMem m') ∧ CellAt P h.secret mirrors s m' b used c ∧
      ∀ a, ¬ EdgeBytes P b c a → m'.byte a = h.mem.byte a := by
  have hp := P.sizes
  have hh := hc.holds hr hf
  rw [relink, Prog.bind_run_of_eq hh.run_prevInUse, Prog.when_run]
  by_cases hu : u = used
  · subst hu
    rw [if_neg (not_not.mpr rfl)]
    exact ⟨h.mem, rfl, hc, fun _ _ => rfl⟩
  rw [if_pos hu, Prog.bind_run_of_eq (run_setPrevInUse hh.covers8 used)]
  have hword : wordSetPrevInUse (h.word b) used = c.word used := by
    rw [hh.word_eq]
    exact wordSetPrevInUse_mkWord hf.lt hf.slack_lt
  rw [hword]
  have hw : (h.withMem (h.mem.store b 8 (c.word used))).Writ P s b used c := by
    refine ⟨hr.withMem _, hf, ?_⟩
    rw [Heap.withMem_mem, Memory.load_store_self]
    exact Nat.mod_eq_of_lt (Cell.word_lt hf used)
  have hsame : ∀ a, a < b ∨ b + P.hdrSize ≤ a →
      (h.mem.store b 8 (c.word used)).byte a = h.mem.byte a := fun a ha =>
    Memory.byte_store_of_notMem (by omega)
  have hmin := hf.min_le
  obtain ⟨m', hrun, hs⟩ := run_sealHeader hw fun hcrc => by
    have := Profile.hdrSize_of_crc hcrc
    rw [Heap.withMem_mem, Memory.load_store_of_disjoint (by omega)]
    exact hc.crc hcrc
  refine ⟨m', hrun, hs.cellAt hf (fun hcan hk => ?_) fun hk => ?_, fun a ha => ?_⟩
  · have := hf.slack_le hk
    exact Eq.trans (Memory.load_congr fun x _ _ => hsame x (by omega)) (hc.canary hcan hk)
  · exact Eq.trans (Memory.load_congr fun x _ _ => hsame x (by omega)) (hc.tag hk)
  · rw [EdgeBytes, Cell.tailStart] at ha
    have ha' : a < b ∨ b + P.hdrSize ≤ a := by omega
    refine (hs.same a ha' ?_).trans (hsame a ha')
    cases hus : c.used with
    | false => exact .inl rfl
    | true =>
      rw [hus, if_pos rfl] at ha
      omega

/-- The cells that follow the block at `b`, up to the end of the span. -/
structure Rest (P : Profile) (κ : Nat) (mirrors : Prop) (s : Span) (m : Memory) (p : Nat) (u : Bool)
    (post : List Cell) : Prop where
  laid : Laid P κ mirrors s m p u post
  ends : p + extents post = s.hi

theorem Rest.congr (hr : Rest P κ mirrors s m n u post)
    (hm : ∀ a, n ≤ a → a < s.hi → m'.byte a = m.byte a) : Rest P κ mirrors s m' n u post :=
  ⟨hr.laid.congr_range fun a h₁ h₂ => hm a h₁ (hr.ends ▸ h₂), hr.ends⟩

theorem Rest.room (hr : Rest P κ mirrors s m (b + c.size) u (d :: post)) (hb : h.Room s b c.size)
    (hf : c.Fits P) : h.Room s (b + c.size) d.size := by
  have hends := hr.ends
  rw [extents_cons] at hends
  have := hb.lo_le
  have := hb.dvd
  have := hf.dvd
  exact ⟨hb.span, hb.found, hb.lo_pos, hb.top, by omega, by omega, by omega⟩

theorem run_recoverNext (hw : h.Writ P s b u c)
    (hr : Rest P h.secret mirrors s h.mem (b + c.size) u' post) :
    recoverNext P b h = (if post = [] then 0 else b + c.size, h) := by
  rw [recoverNext, withSpanOf, Prog.bind_run, Prog.read_run, hw.spanOf, Prog.elim_some,
    Prog.bind_run_of_eq hw.run_blockEnd, Prog.ite_run]
  cases post with
  | nil =>
    have hends := hr.ends
    rw [extents_nil] at hends
    rw [if_pos (by omega), if_pos rfl]
    rfl
  | cons d post =>
    have hends := hr.ends
    obtain ⟨hcell, hfits, -, -⟩ := hr.laid
    have hpos := hfits.pos
    have hmin := hfits.min_le
    rw [extents_cons] at hends
    rw [if_neg (by omega), Prog.ite_run, if_neg (by omega),
      Prog.bind_run_of_eq (hcell.holds (hr.room hw.room hw.fits) hfits).run_headerOk,
      if_neg (List.cons_ne_nil _ _)]
    rfl

/-- The bytes that `mm_publish` of `c` at `b` may change. -/
def PublishBytes (P : Profile) (b : Nat) (c : Cell) (post : List Cell) (a : Nat) : Prop :=
  EdgeBytes P b c a ∨ ∃ d ∈ post.head?, EdgeBytes P (b + c.size) d a

theorem run_footer (hw : h.Writ P s b u c) :
    ∃ m', Prog.when (!c.used) (writeFreeFooter b) h = ((), h.withMem m') ∧
      (c.kind = .free → m'.load (b + c.size - 8) 8 = c.size) ∧
      ∀ a, a < b + c.tailStart P ∨ b + c.size ≤ a → m'.byte a = h.mem.byte a := by
  have hp := P.sizes
  have hmin := hw.fits.min_le
  rw [Prog.when_run, Cell.tailStart]
  cases hu : c.used with
  | true =>
    rw [if_neg (by decide)]
    exact ⟨h.mem, rfl, fun hk => absurd hk (Cell.used_iff.mp hu), fun _ _ => rfl⟩
  | false =>
    have hlt := hw.fits.lt
    rw [if_pos (by decide), writeFreeFooter, Prog.bind_run_of_eq hw.run_blockSize,
      run_store64 (hw.covers.sub (by omega) (by omega))]
    refine ⟨_, rfl, fun _ => ?_, fun a ha => ?_⟩
    · rw [Memory.load_store_self]
      exact Nat.mod_eq_of_lt (by omega)
    · rw [if_neg Bool.false_ne_true] at ha
      exact Memory.byte_store_of_notMem (by omega)

theorem run_publish (hw : h.Writ P s b u c)
    (hcrc : P.hasCrc = true → h.mem.load (b + 12) 4 = c.crc)
    (hcan : P.hasCanary = true → c.kind = .live →
      h.mem.load (b + c.size - c.slack) 8 = canaryValue (indexIn s b) h.secret)
    (hr : Rest P h.secret mirrors s h.mem (b + c.size) u' post)
    (hadj : c.used = true ∨ ∀ d ∈ post.head?, d.used = true) :
    ∃ m', publish P b h = (true, h.withMem m') ∧ CellAt P h.secret mirrors s m' b u c ∧
      Rest P h.secret mirrors s m' (b + c.size) c.used post ∧
      ∀ a, ¬ PublishBytes P b c post a → m'.byte a = h.mem.byte a := by
  have hp := P.sizes
  have hmin := hw.fits.min_le
  have htail : P.hdrSize ≤ c.tailStart P := by
    rw [Cell.tailStart]
    split <;> omega
  obtain ⟨m₁, hrun₁, htag, hsame₁⟩ := run_footer hw
  have hhead₁ : ∀ a n, b ≤ a → a + n ≤ b + P.hdrSize → m₁.load a n = h.mem.load a n :=
    fun a n h₁ h₂ => Memory.load_congr fun x _ _ => hsame₁ x (by omega)
  have hw₁ : (h.withMem m₁).Writ P s b u c :=
    ⟨hw.room.withMem m₁, hw.fits, (hhead₁ b 8 (le_refl b) (by omega)).trans hw.word⟩
  obtain ⟨m₂, hrun₂, hs⟩ := run_sealHeader hw₁ fun hc => by
    have := Profile.hdrSize_of_crc hc
    exact (hhead₁ _ _ (by omega) (by omega)).trans (hcrc hc)
  have hcell₂ : CellAt P h.secret mirrors s m₂ b u c := by
    refine hs.cellAt hw.fits (fun hc hk => ?_) htag
    have hcs : P.canarySize = 8 := by rw [Profile.canarySize, if_pos hc]
    have ht : P.trail = P.canarySize + P.mirrorSize := rfl
    have hu : c.used = true := Cell.used_of_ne (by rw [hk]; decide)
    have := hw.fits.trail_le hk
    have := hw.fits.slack_le hk
    refine Eq.trans (Memory.load_congr fun x _ _ => hsame₁ x (.inl ?_)) (hcan hc hk)
    rw [Cell.tailStart, if_pos hu]
    omega
  have hsame₂ : ∀ a, ¬ EdgeBytes P b c a → m₂.byte a = h.mem.byte a := by
    intro a ha
    rw [EdgeBytes] at ha
    refine (hs.same a (by omega) ?_).trans (hsame₁ a (by omega))
    cases hu : c.used with
    | false => exact .inl rfl
    | true =>
      rw [Cell.tailStart, if_pos hu] at ha
      omega
  have hr₂ : Rest P h.secret mirrors s m₂ (b + c.size) u' post := hr.congr fun a h₁ _ =>
    hsame₂ a (by rw [EdgeBytes]; omega)
  have hw₂ : (h.withMem m₂).Writ P s b u c := ⟨hw.room.withMem m₂, hw.fits, hcell₂.word⟩
  have hnext := run_recoverNext hw₂ hr₂
  have hrun : publish P b h = (do
      Prog.when ((if post = [] then 0 else b + c.size) ≠ 0) do
        let used ← isUsed b
        relink P (if post = [] then 0 else b + c.size) used
      pure true : HeapM Bool) (h.withMem m₂) := by
    rw [publish, Prog.bind_run_of_eq hw.run_isBlock, if_pos rfl, Prog.bind_run_of_eq hw.run_isUsed,
      Prog.bind_run_of_eq hrun₁, Prog.bind_run_of_eq hrun₂]
    exact Prog.bind_run_of_eq hnext
  rw [hrun]
  cases post with
  | nil =>
    exact ⟨m₂, rfl, hcell₂, ⟨trivial, hr₂.ends⟩, fun a ha => hsame₂ a fun he => ha (.inl he)⟩
  | cons d post =>
    obtain ⟨hcell, hfits, hside, hrest⟩ := hr₂.laid
    have hroom := hr.room hw.room hw.fits
    obtain ⟨m₃, hrun₃, hd, hsame₃⟩ := run_relink (hroom.withMem m₂) hfits hcell c.used
    have hdmin := hfits.min_le
    have hdtail : P.hdrSize ≤ d.tailStart P := by
      rw [Cell.tailStart]
      split <;> omega
    have hpos : b + c.size ≠ 0 := by
      have := hw.fits.pos
      omega
    refine ⟨m₃, ?_, ?_, ⟨⟨hd, hfits, ?_, ?_⟩, hr.ends⟩, fun a ha => ?_⟩
    · rw [if_neg (List.cons_ne_nil _ _), Prog.bind_run, Prog.when_run, if_pos hpos,
        Prog.bind_run_of_eq hw₂.run_isUsed, hrun₃]
      rfl
    · refine hcell₂.congr hw.fits fun a h₁ h₂ _ => hsame₃ a ?_
      rw [EdgeBytes]
      omega
    · exact hadj.imp id fun hall => hall d rfl
    · refine hrest.congr_range fun a h₁ h₂ => hsame₃ a ?_
      rw [EdgeBytes]
      omega
    · refine (hsame₃ a fun he => ha (.inr ⟨d, rfl, he⟩)).trans ?_
      exact hsame₂ a fun he => ha (.inl he)

end Mars
