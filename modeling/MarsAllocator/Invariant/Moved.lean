import MarsAllocator.Invariant.Resize

namespace Mars

open ByteMemory StateProgram

variable {P : Profile} {h h' h₁ : Heap} {s s' : Span} {a b b' k n oldSize oldSum : Nat} {u : Bool}
  {c c' d : Cell} {L L' : Span → List Cell} {pre post : List Cell} {X : Nat → Prop}

theorem run_memcpy {dst src : Nat} (hs : h.Covers src n) (hd : h.Covers dst n) :
    memcpy dst src n h = ((), h.withMem (h.mem.store dst n (h.mem.load src n))) := by
  rw [memcpy, Prog.bind_run_of_eq (run_loadN hs)]
  exact run_storeN hd

theorem Heap.Sound.run_resum_live {v : Nat} (hS : h.Sound P L) (hset : h.Settled L) (hc : h.CellIn L s b c)
    (hk : c.kind = .live) (hv : v < 2 ^ 32) :
    ∃ h₁ h' L', setPayloadCrc P b v h = ((), h₁) ∧ sealHeader P b h₁ = ((), h') ∧ h.Work h' ∧
      h.Outcome P (· = b) L h' L' ∧ h'.CellIn L' s b (c.summed v) ∧ (∀ t, t ≠ s → L' t = L t) ∧
      freeBytes (L' s) = freeBytes (L s) ∧
      ∀ a, b + P.hdrSize ≤ a → a < b + P.hdrSize + c.requested P → h'.mem.byte a = h.mem.byte a := by
  obtain ⟨pre, post, hL, hb⟩ := hc.split
  have hp := P.sizes
  have hfit := hS.tiled.plan.cell_fits hc
  have hmin := hfit.min_le
  have hslack := hfit.slack_le hk
  have htrail := hfit.trail_le hk
  have htr : P.trail = P.canarySize + P.mirrorSize := rfl
  have hreq : c.requested P = c.size - P.hdrSize - c.slack := rfl
  obtain ⟨h₁, h', hrun₁, hrun₂, hwork, hsound, hsame⟩ := hS.run_resum hc.1 hL hb hv
  have hkind : (c.summed v).kind = .live := hk
  have hspares : h.Spares P (· = b) L h' (Function.update L s (pre ++ [c.summed v] ++ post)) := by
    refine hS.tiled.plan.spares_recell hc.1 hL hb rfl hwork.kin.spans rfl fun a ha => ?_
    have hout := ha.outside hS.tiled.plan hc fun _ => rfl
    exact hsame a (by omega) (by omega)
  have hcell : h'.CellIn (Function.update L s (pre ++ [c.summed v] ++ post)) s b (c.summed v) :=
    Heap.cellIn_of_eq (hwork.kin.spans ▸ hc.1) (Function.update_self ..) hb
  have hout : h.Outcome P (· = b) L h' (Function.update L s (pre ++ [c.summed v] ++ post)) :=
    ⟨hsound, hset.put hspares hsound hcell (by rw [hkind]; decide), hspares⟩
  refine ⟨h₁, h', _, hrun₁, hrun₂, hwork, hout, hcell, fun t ht => Function.update_of_ne ht ..,
    ?_, fun a h₁ h₂ => hsame a (by omega) (by omega)⟩
  rw [Function.update_self, hL, freeBytes_append, freeBytes_append, freeBytes_append,
    freeBytes_append, freeBytes_one, freeBytes_one, if_neg (by rw [hkind]; decide),
    if_neg (by rw [hk]; decide)]

theorem Heap.Sound.run_copyOver (hS : h.Sound P L) (hset : h.Settled L) (hc : h.CellIn L s b c)
    (hk : c.kind = .live) (hc' : h.CellIn L s' b' c') (hk' : c'.kind = .live)
    (hn : n ≤ c'.requested P) (oldSum : Nat) :
    ∃ h' L' v, (do
        memcpy (b' + P.hdrSize) (b + P.hdrSize) (min (c.requested P) n)
        let fb ← blockOf P (b' + P.hdrSize)
        Prog.when (fb ≠ 0) do
          carryPayloadCrc P fb (min (c.requested P) n) oldSum n
          sealHeader P fb) h = ((), h') ∧ h.Work h' ∧
      h.Outcome P (· = b') L h' L' ∧ h'.CellIn L' s' b' (c'.summed v) ∧
      (∀ t, t ≠ s' → L' t = L t) ∧ freeBytes (L' s') = freeBytes (L s') ∧
      (∀ i < min (c.requested P) n,
        h'.mem.byte (b' + P.hdrSize + i) = h.mem.byte (b + P.hdrSize + i)) ∧
      (v ≠ 0 → h.mode = .managed ∧ v = payloadCrcOf (h'.mem.load (b' + P.hdrSize) n) n) := by
  obtain ⟨k, hkeq⟩ : ∃ k, k = min (c.requested P) n := ⟨_, rfl⟩
  rw [← hkeq]
  have hle : k ≤ c.requested P ∧ k ≤ n := by omega
  have hplan := hS.tiled.plan
  have hfit := hplan.cell_fits hc
  have hfit' := hplan.cell_fits hc'
  have hslack := hfit.slack_le hk
  have hslack' := hfit'.slack_le hk'
  have hreq : c.requested P = c.size - P.hdrSize - c.slack := rfl
  have hreq' : c'.requested P = c'.size - P.hdrSize - c'.slack := rfl
  have hcov : h.Covers (b + P.hdrSize) k := (hplan.room hc).covers.sub (by omega) (by omega)
  have hcov' : h.Covers (b' + P.hdrSize) k := (hplan.room hc').covers.sub (by omega) (by omega)
  obtain ⟨m, hm⟩ : ∃ m, m = h.mem.store (b' + P.hdrSize) k (h.mem.load (b + P.hdrSize) k) := ⟨_, rfl⟩
  have hrun₁ : memcpy (b' + P.hdrSize) (b + P.hdrSize) k h = ((), h.withMem m) :=
    hm ▸ run_memcpy hcov hcov'
  have hsame : ∀ a, a < b' + P.hdrSize ∨ b' + P.hdrSize + c'.requested P ≤ a →
      m.byte a = h.mem.byte a := fun a ha => by
    rw [hm]
    exact Memory.byte_store_of_notMem (by omega)
  have hcopied : ∀ i < k, m.byte (b' + P.hdrSize + i) = h.mem.byte (b + P.hdrSize + i) := by
    intro i hi
    have hload : m.load (b' + P.hdrSize) k = h.mem.load (b + P.hdrSize) k := by
      rw [hm, Memory.load_store_self, Nat.mod_eq_of_lt (Memory.load_lt _ _ _)]
    exact Memory.load_sub_eq (k := 1) hload (by omega)
  have hS₁ : (h.withMem m).Sound P L := hS.poke hc' hk' hsame
  have hset₁ : (h.withMem m).Settled L := hset.congr rfl
  obtain ⟨u, -, hh⟩ := hS₁.tiled.cell (c := c') (b := b') (s := s') hc'
  have hb' : b' ≠ 0 := by
    have := hh.room.lo_pos
    have := hh.room.lo_le
    omega
  obtain ⟨v, hv⟩ : ∃ v, v = (h.withMem m).carried P b' k oldSum n := ⟨_, rfl⟩
  have hlt : v < 2 ^ 32 := hv ▸ Heap.carried_lt ..
  obtain ⟨h₂, h', L', hrun₂, hrun₃, hwork, hout, hcell, hothers, hroom, hsame'⟩ :=
    hS₁.run_resum_live hset₁ hc' hk' hlt
  have hcov₂ : (h.withMem m).Covers (b' + P.hdrSize) n :=
    (hplan.room hc').covers.sub (by omega) (by omega)
  refine ⟨h', L', v, ?_, (h.work_withMem m).trans hwork, ?_, hcell, hothers, hroom, fun i hi => ?_,
    fun h0 => ?_⟩
  · rw [Prog.bind_run_of_eq hrun₁, Prog.bind_run_of_eq (hS₁.run_blockOf hc'), Prog.when_run,
      if_pos hb', Prog.bind_run, run_carryPayloadCrc hcov₂, ← hv, hrun₂]
    exact hrun₃
  · have hspares := Heap.Spares.poke (X := (· = b')) hS hc' hk' hsame rfl
    exact ⟨hout.sound, hout.settled, hspares.trans hout.spares⟩
  · rw [hsame' _ (by omega) (by omega)]
    exact hcopied i hi
  · rw [hv, Heap.carried] at h0
    by_cases hsum : (P.hasCrc && (h.withMem m).mode == .managed) = true ∧ oldSum ≠ 0 ∧ n ≤ k
    · rw [hv, Heap.carried, if_pos hsum]
      have hload : h'.mem.load (b' + P.hdrSize) n = (h.withMem m).mem.load (payloadOf P b') n :=
        Memory.load_congr fun a h₁ h₂ => hsame' a h₁ (by omega)
      rw [hload]
      exact ⟨eq_of_beq (Bool.and_eq_true _ _ ▸ hsum.1).2, rfl⟩
    · exact absurd (if_neg hsum) h0

/-- The block `c` at `b` has moved to `b'`, where it is `c'`, for `n` bytes. -/
structure Heap.Moved (P : Profile) (b : Nat) (c : Cell) (s' : Span) (b' n : Nat) (c' : Cell)
    (h : Heap) (L : Span → List Cell) (h' : Heap) (L' : Span → List Cell) : Prop
    extends h.Outcome P (fun x => x = b ∨ x = b') L h' L' where
  served : h.Served h'
  vacant : ∀ t d, h.CellIn L t b' d → d.kind = .free
  gone : ∀ t d, h'.CellIn L' t b d → d.kind = .free
  cell : h'.CellIn L' s' b' c'
  live : c'.kind = .live
  granted : c'.requested P = c'.grant P h.mode n
  suits : c'.Suits P n
  counts : h'.stats.standing =
    h.stats.standing + (1, c'.size, c'.requested P) - (1, c.size, c.requested P)
  bytes : ∀ i < min (c.requested P) n,
    h'.mem.byte (b' + P.hdrSize + i) = h.mem.byte (b + P.hdrSize + i)
  sum : c'.crc ≠ 0 → h.mode = .managed ∧
    c'.crc = payloadCrcOf (h'.mem.load (b' + P.hdrSize) n) n

theorem Heap.Sound.run_reallocMove (hS : h.Sound P L) (hset : h.Settled L) (hc : h.CellIn L s b c)
    (hk : c.kind = .live) (hg : h.growable = false) (huser : ∀ t ∈ h.spans, t.kind = .user)
    (oldSum : Nat) :
    ∃ p h', reallocMove P (b + P.hdrSize) (c.requested P) oldSum n h = (p, h') ∧
      (p = 0 ∧ h.Refused P L h' ∨
        ∃ s' b' c' L', p = b' + P.hdrSize ∧ h.Moved P b c s' b' n c' L h' L') := by
  obtain ⟨lists, hl⟩ := hS.filed.shelves
  have hs : h.spans ≠ [] := List.ne_nil_of_mem hc.1
  obtain ⟨r, h₁, hrun₁, hres⟩ := hS.run_mallocUnlocked hset hs hg hl n
  rcases hres with ⟨-, hr, href⟩ | ⟨-, hr, s', c₁, L₁, hout⟩
  · have hcopy : reallocCopy P (b + P.hdrSize) (c.requested P) oldSum n h = (0, h₁) := by
      rw [reallocCopy, Prog.bind_run_of_eq hrun₁, if_pos hr]
      rfl
    refine ⟨0, h₁, ?_, .inl ⟨rfl, href⟩⟩
    rw [reallocMove, Prog.bind_run_of_eq hcopy]
    rfl
  generalize h.pick P lists (sizeFor P n) = b' at hr hout
  have hu : c.used = true := Cell.used_of_ne (by rw [hk]; decide)
  have hne : b ≠ b' := by
    rintro rfl
    exact absurd (hout.vacant s c hc) (Cell.used_iff.mp hu)
  have hc₁ : h₁.CellIn L₁ s b c := (hout.spares.cells s b c hu hne).mpr hc
  have hgrant := (hout.suits.grant h.mode).2.2
  obtain ⟨h₂, L₂, v, hrun₂, hw₂, hout₂, hcell₂, hothers₂, hroom₂, hcopied, hsum⟩ :=
    hout.sound.run_copyOver hout.settled hc₁ hk hout.cell hout.live (by rw [hout.granted]; exact hgrant)
      oldSum (n := n)
  have hc₂ : h₂.CellIn L₂ s b c := (hout₂.spares.cells s b c hu hne).mpr hc₁
  obtain ⟨h', L', hrun', ht⟩ := hout₂.sound.run_freeUnlocked hout₂.settled hc₂ hk (huser s hc.1)
  have hcopy : reallocCopy P (b + P.hdrSize) (c.requested P) oldSum n h = (b' + P.hdrSize, h₂) := by
    rw [reallocCopy, Prog.bind_run_of_eq hrun₁, hr, if_neg (by have := P.sizes; omega)]
    refine Prod.ext rfl ?_
    have := congrArg Prod.snd hrun₂
    exact this
  have hu' : (c₁.summed v).used = true := Cell.used_of_ne (by
    rw [show (c₁.summed v).kind = .live from hout.live]
    decide)
  have hlive : (c₁.summed v).kind = .live := hout.live
  refine ⟨b' + P.hdrSize, h', ?_, .inr ⟨s', b', c₁.summed v, L', rfl, ?_⟩⟩
  · rw [reallocMove, Prog.bind_run_of_eq hcopy, Prog.bind_run, Prog.when_run,
      if_pos (by have := P.sizes; omega), hrun']
    rfl
  have hsp := (hout.spares.mono fun x hx => Or.inr hx).trans
    ((hout₂.spares.mono fun x hx => Or.inr hx).trans
      (ht.spares.mono (Y := fun x => x = b ∨ x = b') fun x hx => Or.inl hx))
  have hserved := hout.served.trans (hw₂.served.trans ht.served)
  refine ⟨⟨ht.sound, ht.settled, hsp⟩, hserved, hout.vacant, ht.gone,
    (ht.spares.cells s' b' _ hu' hne.symm).mpr hcell₂, hlive, hout.granted,
    ⟨hout.suits.le, hout.suits.ge⟩, ?_, fun i hi => ?_, fun h0 => ?_⟩
  · rw [ht.counts, hw₂.stats, hout.counts]
    rfl
  · have hreq : (c₁.summed v).requested P = c₁.requested P := rfl
    have hi₁ : i < c₁.requested P := by
      rw [hout.granted]
      omega
    rw [ht.spares.bytes _ (hcell₂.kept hlive (hout₂.sound.tiled.plan.cell_fits hcell₂) hne.symm hi₁),
      hcopied i hi]
    exact hout.spares.bytes _ (hc.kept hk (hS.tiled.plan.cell_fits hc) hne (by omega))
  · obtain ⟨hmode, hval⟩ := hsum h0
    rw [hout.served.mode] at hmode
    refine ⟨hmode, hval.trans ?_⟩
    have hfit := hout₂.sound.tiled.plan.cell_fits hcell₂
    have hn : n ≤ (c₁.summed v).requested P := by
      rw [show (c₁.summed v).requested P = c₁.requested P from rfl, hout.granted]
      exact hgrant
    have hload : h₂.mem.load (b' + P.hdrSize) n = h'.mem.load (b' + P.hdrSize) n :=
      Memory.load_congr fun a h₁ h₂ => by
        obtain ⟨i, rfl⟩ := Nat.exists_eq_add_of_le h₁
        exact (ht.spares.bytes _ (hcell₂.kept hlive hfit hne.symm (by omega))).symm
    rw [hload]

theorem Heap.Idled.refused (hi : h.Idled L h₁) (hr : h₁.Refused P L h') : h.Refused P L h' :=
  ⟨hi.trans hr.toIdled, fun hm => hr.nomem (hm.congr hi.served.kin.spans hi.mem)⟩

theorem Heap.Idled.moved {b' : Nat} {s' : Span} (hi : h.Idled L h₁) (hS : h.Sound P L)
    (hset : h.Settled L) (hm : h₁.Moved P b c s' b' n c' L h' L') :
    h.Moved P b c s' b' n c' L h' L' where
  toOutcome := (hi.outcome hS hset).trans hm.toOutcome
  served := hi.served.trans hm.served
  vacant := fun t d hd => hm.vacant t d ⟨hi.served.kin.spans ▸ hd.1, hd.2⟩
  gone := hm.gone
  cell := hm.cell
  live := hm.live
  granted := hi.served.mode ▸ hm.granted
  suits := hm.suits
  counts := hi.counts ▸ hm.counts
  sum := hi.served.mode ▸ hm.sum
  bytes := fun i h' => by rw [hm.bytes i h', hi.mem]

theorem Heap.Sound.run_reallocPlace (hS : h.Sound P L) (hset : h.Settled L)
    (hc : h.CellIn L s b c) (hk : c.kind = .live) (hn : n ≠ 0) :
    (∃ h', reallocUnlocked P (b + P.hdrSize) n h = (0, h') ∧ h.Refused P L h') ∨
      (∃ c' h' L', reallocUnlocked P (b + P.hdrSize) n h = (b + P.hdrSize, h') ∧
        h.Resized P s b n c L c' h' L') ∨
      ∃ h₂, reallocUnlocked P (b + P.hdrSize) n h =
        reallocMove P (b + P.hdrSize) (c.requested P) (if P.hasCrc then c.crc else 0) n h₂ ∧
          h.Idled L h₂ := by
  have hu : c.used = true := Cell.used_of_ne (by rw [hk]; decide)
  have hq : c.quarantined = false := by rw [Cell.quarantined, hk]; rfl
  obtain ⟨h₁, hh₁⟩ : ∃ h₁, h₁ = (clearError h).2 := ⟨_, rfl⟩
  have hrun₁ : clearError h = ((), h₁) := by rw [hh₁, clearError, Prog.modify_run]
  have hn₁ : h.Counted h₁ := hh₁ ▸ ⟨rfl⟩
  have hi₁ : h.Idled L h₁ := hn₁.idled hS.cursor (by rw [hh₁]; rfl)
  have hS₁ := hS.idled hi₁
  have hset₁ : h₁.Settled L := hset.congr hn₁.kin.spans
  have hc₁ : h₁.CellIn L s b c := ⟨hn₁.kin.spans ▸ hc.1, hc.2⟩
  obtain ⟨v, hcell, hh⟩ := hS₁.tiled.cell hc₁
  have hb : b ≠ 0 := by
    have := hh.room.lo_pos
    have := hh.room.lo_le
    omega
  have hptr : b + P.hdrSize ≠ 0 := by omega
  have hplace : reallocInPlace P (b + P.hdrSize) n h₁ =
      if sizeFor P n = 0 then (Resize.done 0, (fail .nomem h₁).2) else resizeLive P b n h₁ := by
    rw [reallocInPlace, Prog.bind_run_of_eq (hS₁.run_liveBlock hc₁ hq), if_neg hb,
      Prog.bind_run_of_eq hh.run_isUsed, hu, if_neg (by decide),
      Prog.bind_run_of_eq (run_canaryOk hcell hh.room hh.fits (by rw [hk]; decide)),
      if_neg (by decide), Prog.ite_run]
    rfl
  rw [reallocUnlocked, Prog.bind_run_of_eq hrun₁, if_neg hptr, if_neg hn]
  by_cases h0 : sizeFor P n = 0
  · rw [if_pos h0] at hplace
    have hn₂ : h₁.Counted (fail .nomem h₁).2 := ⟨rfl⟩
    have hi₂ := hn₂.idled hS₁.cursor rfl
    rw [Prog.bind_run_of_eq hplace]
    exact .inl ⟨_, rfl, hi₁.trans hi₂, fun _ => rfl⟩
  rw [if_neg h0] at hplace
  obtain ⟨r, h₂, hrun₂, hres⟩ := hS₁.run_resizeLive hset₁ hc₁ hk h0
  rw [hrun₂] at hplace
  rw [Prog.bind_run_of_eq hplace]
  rcases hres with ⟨c', L', rfl, hr⟩ | ⟨rfl, hi₂⟩
  · exact .inr (.inl ⟨c', h₂, L', rfl, hi₁.resized hS hset hr⟩)
  · exact .inr (.inr ⟨h₂, rfl, hi₁.trans hi₂⟩)

theorem Heap.Sound.run_reallocUnlocked (hS : h.Sound P L) (hset : h.Settled L)
    (hc : h.CellIn L s b c) (hk : c.kind = .live) (hg : h.growable = false)
    (huser : ∀ t ∈ h.spans, t.kind = .user) (hn : n ≠ 0) :
    ∃ p h', reallocUnlocked P (b + P.hdrSize) n h = (p, h') ∧
      (p = 0 ∧ h.Refused P L h' ∨
        (∃ c' L', p = b + P.hdrSize ∧ h.Resized P s b n c L c' h' L') ∨
        ∃ s' b' c' L', p = b' + P.hdrSize ∧ h.Moved P b c s' b' n c' L h' L') := by
  rcases hS.run_reallocPlace hset hc hk hn with ⟨h', hrun, hr⟩ | ⟨c', h', L', hrun, hr⟩ | ⟨h₂, hrun, hi⟩
  · exact ⟨0, h', hrun, .inl ⟨rfl, hr⟩⟩
  · exact ⟨_, h', hrun, .inr (.inl ⟨c', L', rfl, hr⟩)⟩
  have hc₂ : h₂.CellIn L s b c := ⟨hi.served.kin.spans ▸ hc.1, hc.2⟩
  obtain ⟨p, h', hrun', hres⟩ := (hS.idled hi).run_reallocMove (hset.congr hi.served.kin.spans) hc₂ hk
    (hi.served.growable.trans hg) (hi.served.kin.spans ▸ huser) (if P.hasCrc then c.crc else 0) (n := n)
  refine ⟨p, h', hrun.trans hrun', ?_⟩
  rcases hres with ⟨hp, hr⟩ | ⟨s', b', c', L', hp, hm⟩
  · exact .inl ⟨hp, hi.refused hr⟩
  · exact .inr (.inr ⟨s', b', c', L', hp, hi.moved hS hset hm⟩)

end Mars
