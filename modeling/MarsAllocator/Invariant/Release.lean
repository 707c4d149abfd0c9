import MarsAllocator.Invariant.Alloc

namespace Mars

open ByteMemory StateProgram

variable {P : Profile} {h h' h₀ h₁ : Heap} {s : Span} {a b k n : Nat} {c c₀ : Cell}
  {L L' L₀ : Span → List Cell} {X : Nat → Prop}

theorem Heap.Sound.run_blockOf (hS : h.Sound P L) (hc : h.CellIn L s b c) :
    blockOf P (b + P.hdrSize) h = (b, h) := by
  have hp := P.sizes
  obtain ⟨u, -, hh⟩ := hS.tiled.cell hc
  have hr := hh.room
  have hmin := hh.fits.min_le
  have hlo := hr.lo_le
  have hend := hr.end_le
  have hdvd := hr.dvd
  have hne : h.spans ≠ [] := fun hn => by
    have := hc.1
    rw [hn] at this
    exact absurd this List.not_mem_nil
  have hspan : (if b + P.hdrSize = 0 then none else h.spanOf (b + P.hdrSize)) = some s := by
    rw [if_neg (by omega)]
    exact hr.found _ (by omega) (by omega)
  have hal : alignment = 16 := rfl
  have hin : ¬ (b + P.hdrSize < s.lo + P.hdrSize ∨
      (b + P.hdrSize - (s.lo + P.hdrSize)) % alignment ≠ 0) := by
    rw [hal]
    omega
  rw [blockOf, Prog.bind_run_of_eq (run_arenaLive hne), if_neg (by decide), Prog.bind_run,
    Prog.read_run, hspan, Prog.elim_some, if_neg hin, Nat.add_sub_cancel,
    Prog.bind_run_of_eq hh.run_isBlock, if_pos rfl]
  rfl

theorem Heap.Sound.run_liveBlock (hS : h.Sound P L) (hc : h.CellIn L s b c)
    (hq : c.quarantined = false) : liveBlock P (b + P.hdrSize) h = (b, h) := by
  obtain ⟨u, -, hh⟩ := hS.tiled.cell hc
  have hb : b ≠ 0 := by
    have := hh.room.lo_pos
    have := hh.room.lo_le
    omega
  have hsound : (do if ← headerOk P b then pure true else rescue P b) h = (true, h) := by
    rw [Prog.bind_run_of_eq hh.run_headerOk]
    rfl
  rw [liveBlock, Prog.bind_run_of_eq (hS.run_blockOf hc), if_neg hb, Prog.bind_run_of_eq hsound,
    if_neg (by decide), Prog.bind_run_of_eq hh.run_isQuarantined, hq]
  rfl

/-- The block `c₀` at `b` has been taken in hand, and with what has joined it is `c`. -/
structure Heap.InHand (P : Profile) (s : Span) (b : Nat) (c₀ : Cell) (h₀ : Heap)
    (L₀ : Span → List Cell) (c : Cell) (h : Heap) (L : Span → List Cell) : Prop where
  spares : h₀.Spares P (· = b) L₀ h L
  served : h₀.Served h
  others : ∀ t, t ≠ s → L t = L₀ t
  room : freeBytes (L s) + c.size = freeBytes (L₀ s) + c₀.size
  counts : h.stats.standing = h₀.stats.standing - (1, c₀.size, c₀.requested P)
  bytes : ∀ a, b + P.hdrSize ≤ a → a < b + P.hdrSize + c₀.requested P →
    h.mem.byte a = h₀.mem.byte a

theorem Heap.Sound.run_take (hS : h.Sound P L) (hc : h.CellIn L s b c) (hk : c.kind = .live) :
    ∃ h₁ pre post, statSub P b h = ((), h₁) ∧ L s = pre ++ [c] ++ post ∧ h.Counted h₁ ∧
      h₁.Open P (Function.update L s (pre ++ [c.opened] ++ post)) s pre b c.opened true post ∧
      h.InHand P s b c L c.opened h₁ (Function.update L s (pre ++ [c.opened] ++ post)) := by
  have hu : c.used = true := Cell.used_of_ne (by rw [hk]; decide)
  have hq : c.quarantined = false := by rw [Cell.quarantined, hk]; rfl
  obtain ⟨pre, post, hL, hb⟩ := hc.split
  obtain ⟨v, -, hh⟩ := hS.tiled.cell hc
  obtain ⟨h₁, hh₁⟩ : ∃ h₁, h₁ =
      { h with stats := h.stats.blockRemoved c.size (c.requested P) } := ⟨_, rfl⟩
  have hn₁ : h.Counted h₁ := hh₁ ▸ ⟨rfl⟩
  have hS₁ := hS.counted hn₁
  have hs₁ : s ∈ h₁.spans := hn₁.kin.spans ▸ hc.1
  refine ⟨h₁, pre, post, ?_, hL, hn₁, hS₁.open hs₁ hL hb hu hq, ?_, hn₁.served,
    fun t ht => Function.update_of_ne ht .., ?_, ?_, fun a _ _ => by rw [hn₁.mem]⟩
  · rw [hh₁]
    exact run_statSub hh.toWrit hk
  · exact hS.tiled.plan.spares_recell hc.1 hL hb rfl hn₁.kin.spans rfl fun a _ => by rw [hn₁.mem]
  · rw [Function.update_self, hL, freeBytes_append, freeBytes_append, freeBytes_append,
      freeBytes_append, freeBytes_one, freeBytes_one,
      if_neg (show c.opened.kind ≠ .free from show Kind.bare ≠ .free by decide),
      if_neg (by rw [hk]; decide)]
    rfl
  · rw [hh₁]
    rfl

/-- The block of the cell `c` at `b` has been given back. -/
structure Heap.TakenBack (P : Profile) (s : Span) (b : Nat) (c : Cell) (h : Heap)
    (L : Span → List Cell) (h' : Heap) (L' : Span → List Cell) : Prop
    extends h.Outcome P (· = b) L h' L' where
  served : h.Served h'
  gone : ∀ t d, h'.CellIn L' t b d → d.kind = .free
  others : ∀ t, t ≠ s → L' t = L t
  room : freeBytes (L' s) = freeBytes (L s) + c.size
  counts : h'.stats.standing = h.stats.standing - (1, c.size, c.requested P)

theorem Heap.Sound.spanOf (hS : h.Sound P L) (hc : h.CellIn L s b c) : h.spanOf b = some s := by
  obtain ⟨u, -, hh⟩ := hS.tiled.cell hc
  exact hh.spanOf

theorem run_reclaim_user (hs : h.spanOf b = some s) (hk : s.kind = .user) :
    reclaim P b h = ((), h) := by
  rw [reclaim, withSpanOf, Prog.bind_run, Prog.read_run, hs, Prog.elim_some, if_pos hk]
  rfl

theorem Heap.Open.run_giveUp {pre post : List Cell} {u : Bool}
    (ho : h.Open P L s pre b c u post) :
    ∃ h₁ r h' L', r ≠ 0 ∧ absorbNeighbours P b h = (r, h₁) ∧ releaseBlock P r h₁ = ((), h') ∧
      (∃ d, h'.CellIn L' s r d ∧ d.kind = .free) ∧ h.Work h' ∧ h'.Sound P L' ∧
      (∀ X : Nat → Prop, X b → h.Spares P X L h' L') ∧ (∀ t, t ≠ s → L' t = L t) ∧
      freeBytes (L' s) = freeBytes (L s) + c.size ∧
      ∀ t d, h'.CellIn L' t b d → d.kind = .free := by
  obtain ⟨h₁, r, h', pre', back, front, post', hpre, hpost, hback, hfront, hr, hstart, hrun₁, hrun₂,
    hwork, hsound, hspares⟩ := ho.run_giveBack
  obtain ⟨d, hd⟩ : ∃ d, d = Cell.freed (extents (back ++ [c] ++ front)) := ⟨_, rfl⟩
  have hkind : d.kind = .free := by rw [hd]; rfl
  have hsize : d.size = extents back + c.size + extents front := by
    rw [hd, ← extents_one c, ← extents_append, ← extents_append]
    rfl
  rw [← hd] at hsound hspares
  obtain ⟨L', hL'⟩ : ∃ L', L' = Function.update L s (pre' ++ [d] ++ post') := ⟨_, rfl⟩
  rw [← hL'] at hsound hspares
  have hself : L' s = pre' ++ [d] ++ post' := by rw [hL', Function.update_self]
  have hcell : h'.CellIn L' s r d :=
    Heap.cellIn_of_eq (hwork.kin.spans ▸ ho.gap.span) hself hstart
  refine ⟨h₁, r, h', L', hr, hrun₁, hrun₂, ⟨d, hcell, hkind⟩, hwork, hsound, hspares,
    fun t ht => by rw [hL', Function.update_of_ne ht], ?_, fun t e he => ?_⟩
  · rw [hself, ho.cells, hpre, hpost, freeBytes_append, freeBytes_append, freeBytes_append,
      freeBytes_append, freeBytes_append, freeBytes_append, freeBytes_one, freeBytes_one,
      if_pos hkind, if_neg (by rw [ho.bare]; decide), freeBytes_of_free hback,
      freeBytes_of_free hfront]
    omega
  · have hb := ho.gap.start
    rw [hpre, extents_append] at hb
    have := ho.fits.pos
    have := (hsound.tiled.plan.cell_fits he).pos
    rcases hsound.tiled.plan.apart he hcell with ⟨-, -, rfl⟩ | hap
    · exact hkind
    · omega

theorem Heap.Sound.run_release (hS : h.Sound P L) (hset : h.Settled L) (hc : h.CellIn L s b c)
    (hk : c.kind = .live) :
    ∃ r h' L', freeUnlocked P (b + P.hdrSize) h = (do reclaim P r; scrubTick P) h' ∧
      h.TakenBack P s b c L h' L' ∧ ∃ d, h'.CellIn L' s r d ∧ d.kind = .free := by
  have hu : c.used = true := Cell.used_of_ne (by rw [hk]; decide)
  have hq : c.quarantined = false := by rw [Cell.quarantined, hk]; rfl
  obtain ⟨h₁, hh₁⟩ : ∃ h₁, h₁ = (clearError h).2 := ⟨_, rfl⟩
  have hn₁ : h.Counted h₁ := hh₁ ▸ ⟨rfl⟩
  have hrun₁ : clearError h = ((), h₁) := by rw [hh₁, clearError, Prog.modify_run]
  have hS₁ := hS.counted hn₁
  have hc₁ : h₁.CellIn L s b c := ⟨hn₁.kin.spans ▸ hc.1, hc.2⟩
  obtain ⟨v, hcell, hh⟩ := hS₁.tiled.cell hc₁
  have hb : b ≠ 0 := by
    have := hh.room.lo_pos
    have := hh.room.lo_le
    omega
  obtain ⟨h₂, hh₂⟩ : ∃ h₂, h₂ = (statNote .free (c.requested P) h₁).2 := ⟨_, rfl⟩
  have hrun₂ : statNote .free (c.requested P) h₁ = ((), h₂) := by
    rw [hh₂, statNote, updateStats, Prog.modify_run]
  have hn₂ : h.Counted h₂ := hn₁.trans (hh₂ ▸ ⟨rfl⟩)
  have hc₂ : h₂.CellIn L s b c := ⟨hn₂.kin.spans ▸ hc.1, hc.2⟩
  obtain ⟨h₃, pre, post, hrun₃, hL, hn₃, ho, hi⟩ := (hS.counted hn₂).run_take hc₂ hk
  obtain ⟨h₄, r, h₅, L', hr, hrun₄, hrun₅, hrun, hw₅, hS₅, hsp₅, hothers, hroom, hgone⟩ :=
    ho.run_giveUp
  have hsp : h.Spares P (· = b) L h₅ L' :=
    ((Heap.Spares.refl P _ h L).congr hn₂.kin.spans hn₂.mem).trans
      (hi.spares.trans (hsp₅ (· = b) rfl))
  refine ⟨r, h₅, L', ?_, ⟨⟨hS₅, hset.spares hsp fun t x d hd hx => ?_, hsp⟩,
    hn₂.served.trans (hn₃.served.trans hw₅.served), hgone, fun t ht => ?_, ?_, ?_⟩, hrun⟩
  · rw [freeUnlocked, Prog.bind_run_of_eq hrun₁, Prog.bind_run_of_eq (hS₁.run_liveBlock hc₁ hq),
      Prog.when_run, if_pos hb, Prog.bind_run_of_eq hh.run_isUsed, hu, if_neg (by decide),
      Prog.bind_run_of_eq (run_canaryOk hcell hh.room hh.fits (by rw [hk]; decide)),
      if_neg (by decide), Prog.bind_run_of_eq (hh.run_requestedSize hk), Prog.bind_run_of_eq hrun₂,
      Prog.bind_run_of_eq hrun₃, Prog.bind_run_of_eq hrun₄]
    have hwhen : (Prog.when (r ≠ 0) (do releaseBlock P r; reclaim P r)) h₄ = reclaim P r h₅ := by
      rw [Prog.when_run, if_pos hr, Prog.bind_run_of_eq hrun₅]
    rw [Prog.bind_run, hwhen]
    rfl
  · rw [hgone t d (hx ▸ hd)]
    decide
  · rw [hothers t ht, hi.others t ht]
  · rw [hroom, hi.room]
  · rw [hw₅.stats, hi.counts, hh₂, hh₁]
    rfl

theorem Heap.Sound.run_freeUnlocked (hS : h.Sound P L) (hset : h.Settled L)
    (hc : h.CellIn L s b c) (hk : c.kind = .live) (huser : s.kind = .user) :
    ∃ h' L', freeUnlocked P (b + P.hdrSize) h = ((), h') ∧ h.TakenBack P s b c L h' L' := by
  obtain ⟨r, h₁, L', hrun, ht, d, hd, -⟩ := hS.run_release hset hc hk
  obtain ⟨h', hrun', hlap⟩ := ht.sound.run_scrubTick ht.settled
  refine ⟨h', L', ?_, ⟨ht.toOutcome.patrolled hlap, ht.served.trans hlap.toPatrolled.served,
    fun t d hd => ?_, ht.others, ht.room, ?_⟩⟩
  · rw [hrun, Prog.bind_run_of_eq (run_reclaim_user (ht.sound.spanOf hd) huser)]
    exact hrun'
  · rw [Heap.CellIn, hlap.toPatrolled.kin.spans] at hd
    exact ht.gone t d hd
  · rw [hlap.toPatrolled.standing, ht.counts]

end Mars
