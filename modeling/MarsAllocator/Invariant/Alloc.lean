import MarsAllocator.Invariant.Carved

namespace Mars

open ByteMemory StateProgram

variable {P : Profile} {h h' h₁ : Heap} {s : Span} {a b k n : Nat} {c : Cell}
  {L L' : Span → List Cell} {X : Nat → Prop}

/-- Memory and the bins are the same, and so is what is out. -/
structure Heap.Idled (h : Heap) (L : Span → List Cell) (h' : Heap) : Prop where
  served : h.Served h'
  mem : h'.mem = h.mem
  bins : h'.bins = h.bins
  binBitmap : h'.binBitmap = h.binBitmap
  cursor : h'.Cursor L
  counts : h'.stats.standing = h.stats.standing

theorem Heap.Sound.idled (hS : h.Sound P L) (hi : h.Idled L h') : h'.Sound P L :=
  hS.same hi.served.kin hi.mem hi.bins hi.binBitmap hi.cursor

theorem Heap.Idled.outcome (hi : h.Idled L h') (hS : h.Sound P L) (hset : h.Settled L) :
    h.Outcome P X L h' L :=
  ⟨hS.idled hi, hset.congr hi.served.kin.spans,
    (Heap.Spares.refl P X h L).congr hi.served.kin.spans hi.mem⟩

theorem Heap.Idled.trans (hi : h.Idled L h₁) (hi' : h₁.Idled L h') : h.Idled L h' :=
  ⟨hi.served.trans hi'.served, hi'.mem.trans hi.mem, hi'.bins.trans hi.bins,
    hi'.binBitmap.trans hi.binBitmap, hi'.cursor, hi'.counts.trans hi.counts⟩

theorem Heap.Counted.idled (hc : h.Counted h') (hcur : h.Cursor L)
    (hst : h'.stats.standing = h.stats.standing) : h.Idled L h' :=
  ⟨hc.served, hc.mem, hc.bins, hc.binBitmap,
    hcur.congr hc.kin.spans (by rw [hc.eq]) (by rw [hc.eq]), hst⟩

theorem Heap.Lapped.idled (hl : h.Lapped P L h') : h.Idled L h' := by
  have hp := hl.toPatrolled
  exact ⟨hp.served, hp.mem, by rw [hp.eq], by rw [hp.eq], hl.cursor, hp.standing⟩

theorem Heap.Idled.handedOut (hi : h.Idled L h₁) (hS : h.Sound P L) (hset : h.Settled L)
    (ho : h₁.HandedOut P s b n c L h' L') : h.HandedOut P s b n c L h' L' where
  toOutcome := (hi.outcome hS hset).trans ho.toOutcome
  served := hi.served.trans ho.served
  vacant := fun t d hd => ho.vacant t d ⟨hi.served.kin.spans ▸ hd.1, hd.2⟩
  cell := ho.cell
  live := ho.live
  unsummed := ho.unsummed
  granted := hi.served.mode ▸ ho.granted
  suits := ho.suits
  others := ho.others
  room := ho.room
  counts := hi.counts ▸ ho.counts

theorem Heap.Sound.run_allocate (hS : h.Sound P L) (hset : h.Settled L) (hfree : h.FreeAt L b k)
    (h0 : sizeFor P n ≠ 0) (hle : sizeFor P n ≤ k) :
    ∃ h₁ h' s c' L', blockSize b h = (k, h) ∧ binRemove P b h = ((), h₁) ∧
      unchanged P b k false h₁ = (true, h₁) ∧
      carve P b k (sizeFor P n) n h₁ = ((b + P.hdrSize, (takeFresh b h).1), h') ∧
      h.HandedOut P s b n c' L h' L' ∧
      (∀ a, b + P.hdrSize + 16 ≤ a → a < b + P.hdrSize + n → h'.mem.byte a = h.mem.byte a) ∧
      (h.Faultless P L → h'.raised = h.raised) := by
  obtain ⟨s, c, hcell, hk, rfl⟩ := hfree
  obtain ⟨pre, post, hL, hb⟩ := hcell.split
  have hplan := hS.tiled.plan
  have hfit := hplan.cell_fits hcell
  have hneed := (sizeFor_spec P h0).1
  obtain ⟨u, -, hh⟩ := hS.tiled.cell hcell
  obtain ⟨h₁, hrun₁, hun, hr, hh₁, hclear, -, -⟩ := hS.run_unfile hcell.1 hL hb hk
  have hvacant : ∀ t d, h.CellIn L t b d → d.kind = .free := fun t d hd => by
    rw [(hplan.cell_unique hd hcell).2]
    exact hk
  have hsp : h.Spares P (· = b) L h₁ (Function.update L s (pre ++ [c.taken] ++ post)) :=
    hplan.spares_recell hcell.1 hL hb rfl hr.kin.spans rfl fun a ha =>
      hr.same a (ha.not_link hplan fun _ _ h' => h')
  obtain ⟨h', c', L', hrun', hout, hsame, hquiet⟩ :=
    hclear.run_carve hh₁ hL hk hset hvacant hr.work hsp h0 hle
  have hfresh : (takeFresh b h₁).1 = (takeFresh b h).1 := by
    rw [takeFresh_fst hh₁.spanOf, takeFresh_fst hh.spanOf, hr.eq]
  refine ⟨h₁, h', s, c', L', hh.run_blockSize, hrun₁, hun, hfresh ▸ hrun', hout, fun a h₁ h₂ => ?_,
    fun hf => hquiet hf hS⟩
  refine (hsame a (by omega) h₂).trans (hr.same a ?_)
  rintro ⟨x, m, ⟨t, d, hd, hdk, rfl⟩, h₃, h₄⟩
  have := hfit.min_le
  have := (hplan.cell_fits hd).min_le
  have hp := P.sizes
  rcases hplan.apart hcell hd with ⟨-, rfl, -⟩ | hap <;> omega

/-- The request has been refused for want of room, and nothing has come of it. -/
structure Heap.Refused (P : Profile) (h : Heap) (L : Span → List Cell) (h' : Heap) : Prop
    extends h.Idled L h' where
  nomem : h.Matching P L → h'.lastError = .nomem

theorem run_chooseBlock {v : Nat} (hg : h.growable = false) {need : Nat}
    (hf : binFind P need h = (v, h)) : chooseBlock P need h = (v, h) := by
  rw [chooseBlock, Prog.bind_run, Prog.read_run, hg, Bool.false_and, if_neg Bool.false_ne_true,
    Prog.bind_run_of_eq hf]
  by_cases hv : v = 0
  · have hgrow : growFor P need h = (v, h) := by
      rw [growFor, Prog.bind_run, Prog.read_run, hg, hv]
      rfl
    rw [if_pos hv, Prog.bind_run_of_eq hgrow, if_neg fun hc => Bool.false_ne_true hc.2]
    rfl
  · rw [if_neg hv, Prog.bind_run, if_neg fun hc => Bool.false_ne_true hc.2]
    rfl

theorem run_arenaLive (hs : h.spans ≠ []) : arenaLive h = (true, h) := by
  rw [arenaLive, Prog.read_run, List.isEmpty_eq_false_iff.mpr hs]
  rfl

theorem Heap.Sound.run_scrub (hS : h.Sound P L) (hset : h.Settled L) (hs : h.spans ≠ []) (budget : Nat) :
    ∃ st h', scrub P budget h = (st, h') ∧ h.Idled L h' ∧ (h.Matching P L → st = .ok) := by
  obtain ⟨h₁, hh₁⟩ : ∃ h₁, h₁ = (clearError h).2 := ⟨_, rfl⟩
  have hrun₁ : clearError h = ((), h₁) := by rw [hh₁, clearError, Prog.modify_run]
  have hn₁ : h.Counted h₁ := hh₁ ▸ ⟨rfl⟩
  have hi₁ : h.Idled L h₁ := hn₁.idled hS.cursor (by rw [hh₁]; rfl)
  obtain ⟨st, h', hrun, hlap, hok⟩ := (hS.idled hi₁).run_scrubRun (hset.congr hn₁.kin.spans) budget
  refine ⟨st, h', ?_, hi₁.trans hlap.idled, fun hm => hok (hm.congr hn₁.kin.spans hn₁.mem)⟩
  rw [scrub, Prog.bind_run_of_eq hrun₁, Prog.bind_run_of_eq (run_arenaLive (hn₁.kin.spans ▸ hs)),
    if_pos rfl, hrun]

theorem Heap.Sound.run_mallocUnlocked (hS : h.Sound P L) (hset : h.Settled L)
    (hs : h.spans ≠ []) (hg : h.growable = false) {lists : Nat → List Nat}
    (hl : h.Shelves P (h.FreeAt L) lists) (n : Nat) :
    ∃ r h', mallocUnlocked P n h = (r, h') ∧
      ((n = 0 ∨ sizeFor P n = 0 ∨ h.pick P lists (sizeFor P n) = 0) ∧ r.1 = 0 ∧ h.Refused P L h' ∨
        h.pick P lists (sizeFor P n) ≠ 0 ∧ r.1 = h.pick P lists (sizeFor P n) + P.hdrSize ∧
          ∃ s c L', h.HandedOut P s (h.pick P lists (sizeFor P n)) n c L h' L') := by
  obtain ⟨h₁, hh₁⟩ : ∃ h₁, h₁ = (clearError h).2 := ⟨_, rfl⟩
  have hn₁ : h.Counted h₁ := hh₁ ▸ ⟨rfl⟩
  have hi₁ : h.Idled L h₁ := hn₁.idled hS.cursor (by rw [hh₁]; rfl)
  have hS₁ := hS.idled hi₁
  have hrun₁ : clearError h = ((), h₁) := by rw [hh₁, clearError, Prog.modify_run]
  have hfind : binFind P (sizeFor P n) h₁ = (h.pick P lists (sizeFor P n), h₁) := by
    have hl₁ : h₁.Shelves P (h₁.FreeAt L) lists := by
      rw [freeAt_kin hn₁.kin.spans, hh₁]
      exact ⟨hl.linked, hl.mem_iff⟩
    rw [hS₁.filed.run_binFind_pick hl₁, hh₁]
    rfl
  have hfits := fun hne : h.pick P lists (sizeFor P n) ≠ 0 => hS.filed.pick_fits hl hne
  generalize h.pick P lists (sizeFor P n) = v at hfind hfits ⊢
  rw [mallocUnlocked, Prog.bind_run_of_eq hrun₁,
    Prog.bind_run_of_eq (run_arenaLive (hn₁.kin.spans ▸ hs)), if_neg (by decide), Prog.ite_run]
  by_cases h0 : n = 0 ∨ sizeFor P n = 0
  · have hn₂ : h.Counted (fail .nomem h₁).2 := hn₁.trans ⟨rfl⟩
    rw [if_pos h0]
    refine ⟨_, _, rfl, .inl ⟨h0.imp_right .inl, rfl, ?_, fun _ => rfl⟩⟩
    exact hn₂.idled hS.cursor (by rw [hh₁]; rfl)
  rw [if_neg h0, Prog.bind_run_of_eq (run_chooseBlock (by rw [← hg, hn₁.eq]) hfind), Prog.ite_run]
  by_cases hv : v = 0
  · obtain ⟨h₂, hh₂⟩ : ∃ h₂, h₂ = (fail .nomem (statNote .allocFailed 0 h₁).2).2 := ⟨_, rfl⟩
    have hn₂ : h.Counted h₂ := hn₁.trans (hh₂ ▸ ⟨rfl⟩)
    have hi₂ : h.Idled L h₂ := hn₂.idled hS.cursor (by rw [hh₂, hh₁]; rfl)
    obtain ⟨h', hrun', hlap⟩ := (hS.idled hi₂).run_scrubTick (hset.congr hn₂.kin.spans)
    rw [if_pos hv]
    refine ⟨(0, sizeMax), h', ?_, .inl ⟨.inr (.inr hv), rfl, hi₂.trans hlap.idled, fun hm => ?_⟩⟩
    · rw [hh₂] at hrun'
      rw [Prog.bind_run, Prog.bind_run, Prog.bind_run, hrun']
      rfl
    · rw [(hlap.quiet (hm.congr hn₂.kin.spans hn₂.mem)).1, hh₂]
      rfl
  obtain ⟨k, hfree, hle⟩ := hfits hv
  have hfree₁ : h₁.FreeAt L v k := by rwa [freeAt_kin hn₁.kin.spans]
  obtain ⟨h₂, h', s, c, L', hrun₂, hrun₃, hrun₄, hrun₅, hout, -, -⟩ :=
    hS₁.run_allocate (hset.congr hn₁.kin.spans) hfree₁ (fun h' => h0 (.inr h')) hle
  rw [if_neg hv, Prog.bind_run_of_eq hrun₂, Prog.bind_run_of_eq hrun₃, Prog.bind_run_of_eq hrun₄,
    if_pos rfl, hrun₅]
  exact ⟨_, h', rfl, .inr ⟨hv, rfl, s, c, L', hi₁.handedOut hS hset hout⟩⟩

end Mars
