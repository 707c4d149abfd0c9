import MarsAllocator.Invariant.Mapped
import MarsAllocator.Invariant.Sessions

namespace Mars

open ByteMemory StateProgram

variable {P : Profile} {h h' h₁ : Heap} {s t : Span} {a b k n need : Nat} {c d : Cell}
  {L L' L₁ : Span → List Cell} {X Y : Nat → Prop} {E E' : Span → Prop}

/-- The secret, the mode and the settings of the arena stay, and so does what it has lost. -/
structure Heap.Tended (h h' : Heap) : Prop where
  eq : h' = { h with
    mem := h'.mem, registry := h'.registry, spans := h'.spans, spanCount := h'.spanCount,
    totalBytes := h'.totalBytes, nextIndexBase := h'.nextIndexBase, bins := h'.bins,
    binBitmap := h'.binBitmap, scrubSpan := h'.scrubSpan, scrubAt := h'.scrubAt,
    freshSpans := h'.freshSpans, fresh := h'.fresh, trimAfter := h'.trimAfter, ops := h'.ops,
    stats := h'.stats, opsSinceScrub := h'.opsSinceScrub, supply := h'.supply,
    lastError := h'.lastError, raised := h'.raised }

theorem Heap.tended_refl (h : Heap) : h.Tended h := ⟨rfl⟩

theorem Heap.Tended.trans (ht : h.Tended h₁) (ht' : h₁.Tended h') : h.Tended h' := by
  refine ⟨?_⟩
  rw [ht'.eq, ht.eq]

theorem Heap.Served.tended (hs : h.Served h') : h.Tended h' := by
  refine ⟨?_⟩
  rw [hs.eq]

theorem Heap.Grew.tended (hg : h.Grew P s need L h') : h.Tended h' := by
  refine ⟨?_⟩
  rw [hg.eq]

theorem Heap.Tended.mode (ht : h.Tended h') : h'.mode = h.mode := by rw [ht.eq]

theorem Heap.Tended.growable (ht : h.Tended h') : h'.growable = h.growable := by rw [ht.eq]

theorem Heap.Tended.lostBytes (ht : h.Tended h') : h'.lostBytes = h.lostBytes := by rw [ht.eq]

theorem Heap.Tended.pageSize (ht : h.Tended h') : h'.pageSize = h.pageSize := by rw [ht.eq]

/-- An arena between two calls, whether the caller brought it or it grows. -/
structure Heap.Thriving (P : Profile) (h : Heap) (L : Span → List Cell) : Prop where
  sound : h.Sound P L
  settled : h.Settled L
  distinct : h.spans.Nodup
  root : ∃ s ∈ h.spans, s.kind ≠ .large
  origin : ∀ s ∈ h.spans, (s.lo + P.hdrSize) % 16 = 0
  low : ∀ s ∈ h.spans, s.kind ≠ .user → s.hi ≤ 2 ^ 56
  fixed : ∀ s ∈ h.spans, s.kind = .user → h.growable = false
  total : h.totalBytes = (h.spans.map fun s => s.hi - s.lo).sum
  lost : h.lostBytes = (h.spans.map fun s => Mars.lostBytes (L s)).sum
  paged : ∃ k < 56, h.pageSize = 2 ^ k

/-- Every span mapped for one block, those in `E` apart, has a block in use. -/
def Heap.Busy (h : Heap) (L : Span → List Cell) (E : Span → Prop) : Prop :=
  ∀ s ∈ h.spans, s.kind = .large → E s ∨ ∃ b c, At s.lo (L s) b c ∧ c.used = true

theorem Heap.Busy.mono (hb : h.Busy L E) (hE : ∀ s, E s → E' s) : h.Busy L E' := fun s hs hk =>
  (hb s hs hk).imp_left (hE s)

theorem Heap.Busy.spares (hb : h.Busy L E) (hs : h.Spares P X L h' L')
    (hspans : ∀ t ∈ h'.spans, t ∈ h.spans)
    (hX : ∀ t x d, X x → h.CellIn L t x d → d.used = true →
      E' t ∨ ∃ x' d', At t.lo (L' t) x' d' ∧ d'.used = true)
    (hE : ∀ t, E t → E' t ∨ ∃ x' d', At t.lo (L' t) x' d' ∧ d'.used = true) : h'.Busy L' E' := by
  intro t ht hk
  rcases hb t (hspans t ht) hk with he | ⟨x, d, hd, hu⟩
  · exact hE t he
  · have hc : h.CellIn L t x d := ⟨hspans t ht, hd⟩
    by_cases hx : X x
    · exact hX t x d hx hc hu
    · exact .inr ⟨x, d, ((hs.cells t x d hu hx).mpr hc).2, hu⟩

namespace Heap.Thriving

variable (hT : h.Thriving P L)
include hT

theorem spans_ne : h.spans ≠ [] := by
  obtain ⟨s, hs, -⟩ := hT.root
  exact List.ne_nil_of_mem hs

theorem shaped : h.Shaped := by
  refine ⟨hT.spans_ne, hT.distinct, fun t ht => ?_, hT.total⟩
  have hg := hT.sound.tiled.ground t ht
  exact ⟨hg.found, hg.lo_pos, hg.lo_lt.le⟩

theorem exact : h.Exact P := hT.sound.exact hT.settled hT.lost

theorem checked : (checkHeapUnlocked P h).1 = .ok := exact_check hT.shaped hT.exact

theorem asked (supply : List (Option Nat)) : { h with supply := supply }.Thriving P L := by
  have hk : h.Kin { h with supply := supply } := ⟨rfl, rfl, rfl⟩
  exact ⟨hT.sound.same hk rfl rfl rfl (hT.sound.cursor.congr rfl rfl rfl), hT.settled.congr rfl,
    hT.distinct, hT.root, hT.origin, hT.low, hT.fixed, hT.total, hT.lost, hT.paged⟩

theorem step (ho : h.Outcome P X L h' L') (hs : h.Served h')
    (hX : ∀ t x c, X x → h.CellIn L t x c → c.kind ≠ .lost)
    (hX' : ∀ t x c, X x → h'.CellIn L' t x c → c.kind ≠ .lost) : h'.Thriving P L' := by
  have hspans := hs.kin.spans
  refine ⟨ho.sound, ho.settled, hspans ▸ hT.distinct, hspans ▸ hT.root, hspans ▸ hT.origin,
    hspans ▸ hT.low, ?_, ?_, ?_, ?_⟩
  · rw [hspans, hs.growable]
    exact hT.fixed
  · rw [hspans, hs.eq]
    exact hT.total
  · rw [hspans, hs.lostBytes, hT.lost]
    refine congrArg List.sum (List.map_congr_left fun t ht => ?_)
    refine lostBytes_congr (p := t.lo) (hT.sound.tiled.plan.fits t ht)
      (ho.sound.tiled.plan.fits t (hspans ▸ ht)) fun b c hk => ?_
    have hu : c.used = true := Cell.used_of_ne (by rw [hk]; decide)
    constructor
    · intro hb
      have hc : h.CellIn L t b c := ⟨ht, hb⟩
      exact ((ho.spares.cells t b c hu fun hx => hX t b c hx hc hk).mpr hc).2
    · intro hb
      have hc : h'.CellIn L' t b c := ⟨hspans ▸ ht, hb⟩
      exact ((ho.spares.cells t b c hu fun hx => hX' t b c hx hc hk).mp hc).2
  · rw [hs.eq]
    exact hT.paged

theorem grew (hg : h.Grew P s need L h') (hgrow : h.growable = true) :
    h'.Thriving P (Function.update L s [Cell.freed (s.hi - s.lo)]) := by
  have hspans := hg.spans
  have hnot : ∀ t ∈ h.spans, t ≠ s := fun t ht he => hg.new (he ▸ ht)
  have hmem : ∀ t ∈ h'.spans, t = s ∨ t ∈ h.spans := fun t ht => by
    rw [hspans] at ht
    exact List.mem_cons.mp ht
  refine ⟨hg.sound, fun t x d hd => ?_, ?_, ?_, fun t ht => ?_, fun t ht hk => ?_, fun t ht hk => ?_,
    ?_, ?_, ?_⟩
  · rcases hmem t hd.1 with rfl | ht
    · have hat := hd.2
      rw [Function.update_self] at hat
      rw [(at_one.mp hat).2]
      exact show Kind.free ≠ .bare by decide
    · have hat := hd.2
      rw [Function.update_of_ne (hnot t ht)] at hat
      exact hT.settled t x d ⟨ht, hat⟩
  · rw [hspans]
    exact List.nodup_cons.mpr ⟨hg.new, hT.distinct⟩
  · obtain ⟨t, ht, hk⟩ := hT.root
    rw [hspans]
    exact ⟨t, List.mem_cons_of_mem s ht, hk⟩
  · rcases hmem t ht with rfl | ht
    · exact hg.origin
    · exact hT.origin t ht
  · rcases hmem t ht with rfl | ht
    · exact hg.low
    · exact hT.low t ht hk
  · rcases hmem t ht with rfl | ht
    · exact absurd hk hg.mapped
    · exact absurd (hT.fixed t ht hk) (by rw [hgrow]; decide)
  · rw [hspans, List.map_cons, List.sum_cons, Nat.add_comm, ← hT.total]
    rw [hg.eq]
  · rw [hspans, List.map_cons, List.sum_cons, Function.update_self, hg.tended.lostBytes, hT.lost]
    have hzero : Mars.lostBytes [Cell.freed (s.hi - s.lo)] = 0 := rfl
    rw [hzero, Nat.zero_add]
    refine congrArg List.sum (List.map_congr_left fun t ht => ?_)
    rw [Function.update_of_ne (hnot t ht)]
  · rw [hg.tended.pageSize]
    exact hT.paged

end Heap.Thriving

theorem Heap.Sound.run_binFind (hS : h.Sound P L) (need : Nat) :
    ∃ v, binFind P need h = (v, h) ∧ (v ≠ 0 → ∃ k, h.FreeAt L v k ∧ need ≤ k) := by
  obtain ⟨lists, hl⟩ := hS.filed.shelves
  exact ⟨_, hS.filed.run_binFind_pick hl need, fun hne => hS.filed.pick_fits hl hne⟩

/-- There is a free block of `need` bytes at `b`, in a span mapped for it where there was none. -/
structure Heap.Furnished (P : Profile) (b need : Nat) (h : Heap) (L : Span → List Cell) (h₁ : Heap)
    (L₁ : Span → List Cell) : Prop where
  thriving : h₁.Thriving P L₁
  tended : h.Tended h₁
  spares : ∀ X, h.Spares P X L h₁ L₁
  stats : h₁.stats = h.stats
  raised : h₁.raised = h.raised
  free : ∃ k, h₁.FreeAt L₁ b k ∧ need ≤ k
  busy : ∀ s c, h₁.CellIn L₁ s b c → h₁.Busy L₁ (· = s)

theorem Heap.Thriving.furnished (hT : h.Thriving P L) (hB : h.Busy L fun _ => False)
    (hf : h.FreeAt L b k) (hle : need ≤ k) : h.Furnished P b need L h L :=
  ⟨hT, h.tended_refl, fun X => .refl P X h L, rfl, rfl, ⟨k, hf, hle⟩,
    fun _ _ _ => hB.mono fun _ h' => h'.elim⟩

theorem Heap.Furnished.asked {q : List (Option Nat)}
    (hf : { h with supply := q }.Furnished P b need L h₁ L₁) : h.Furnished P b need L h₁ L₁ := by
  refine ⟨hf.thriving, ?_, fun X => ⟨(hf.spares X).cells, (hf.spares X).bytes⟩, hf.stats, hf.raised,
    hf.free, hf.busy⟩
  exact Heap.Tended.trans ⟨rfl⟩ hf.tended

theorem Heap.Grew.furnished (hg : h.Grew P s need L h') (hT : h.Thriving P L)
    (hB : h.Busy L fun _ => False) (hgrow : h.growable = true) :
    h.Furnished P s.lo need L h' (Function.update L s [Cell.freed (s.hi - s.lo)]) := by
  refine ⟨hT.grew hg hgrow, hg.tended, hg.spares, by rw [hg.eq], by rw [hg.eq],
    ⟨_, hg.free, hg.fits⟩, fun t c hc => ?_⟩
  obtain rfl : t = s := (hg.sound.tiled.plan.cell_unique hc hg.cell).1
  intro u hu hk
  rw [hg.spans] at hu
  rcases List.mem_cons.mp hu with rfl | hu
  · exact .inl rfl
  · have hne : u ≠ t := fun he => hg.new (he ▸ hu)
    rw [Function.update_of_ne hne]
    exact .inr ((hB u hu hk).resolve_left id)

theorem Heap.Thriving.run_growFor (hT : h.Thriving P L) (hB : h.Busy L fun _ => False)
    (ho : h.Offers (mappingFor P need)) (hmin : P.minBlock ≤ need) (hd : need % 16 = 0) :
    ∃ b h₁ L₁, growFor P need h = (b, h₁) ∧
      (b = 0 ∧ h.Asked h₁ ∨ b ≠ 0 ∧ h.Furnished P b need L h₁ L₁) := by
  rw [growFor, Prog.bind_run, Prog.read_run]
  by_cases hgrow : h.growable = true
  swap
  · rw [if_pos (by simpa using hgrow)]
    exact ⟨0, h, L, rfl, .inl ⟨rfl, rfl⟩⟩
  rw [if_neg (by simpa using hgrow)]
  obtain ⟨r, h₁, hrun, hres⟩ : ∃ r h₁, (if largeThreshold < need then arenaMapLarge P need
      else arenaGrow P need) h = (r, h₁) ∧ (r = none ∧ h.Asked h₁ ∨
        ∃ s, r = some s ∧ h.Grew P s need L h₁) := by
    rw [Prog.ite_run]
    split
    · obtain ⟨r, h₁, hrun, hres⟩ := hT.sound.run_mapSpan ho hmin hd SpanKind.large_ne_user
      refine ⟨r, h₁, hrun, hres.imp_right ?_⟩
      rintro ⟨s, hr, -, hg⟩
      exact ⟨s, hr, hg⟩
    · rename_i hlarge
      obtain ⟨r, h₁, hrun, hres⟩ := hT.sound.run_mapSpan ho hmin hd SpanKind.chunk_ne_user
      refine ⟨r, h₁, ?_, hres.imp_right ?_⟩
      · rw [arenaGrow, if_neg hlarge, hrun]
      · rintro ⟨s, hr, -, hg⟩
        exact ⟨s, hr, hg⟩
  rw [Prog.bind_run_of_eq hrun]
  rcases hres with ⟨rfl, hh₁⟩ | ⟨s, rfl, hg⟩
  · exact ⟨0, h₁, L, rfl, .inl ⟨rfl, hh₁⟩⟩
  -- the block just formatted checks out and is large enough
  obtain ⟨u, -, hh⟩ := hg.sound.tiled.cell hg.cell
  have hok : (Prog.and (headerOk P s.lo) (do
      let used ← isUsed s.lo
      let n ← blockSize s.lo
      return !used && decide (need ≤ n))) h₁ = (true, h₁) := by
    rw [Prog.and_run, hh.run_headerOk, if_pos rfl, Prog.bind_run_of_eq hh.run_isUsed,
      Prog.bind_run_of_eq hh.run_blockSize]
    have : decide (need ≤ (Cell.freed (s.hi - s.lo)).size) = true := decide_eq_true hg.fits
    rw [this]
    rfl
  rw [Prog.elim_some, Prog.bind_run_of_eq hok]
  have := hh.room.lo_pos
  exact ⟨s.lo, h₁, _, rfl, .inr ⟨by omega, hg.furnished hT hB hgrow⟩⟩

theorem Heap.Thriving.run_chooseBlock (hT : h.Thriving P L) (hB : h.Busy L fun _ => False)
    (ho : h.Offers (mappingFor P need)) (hmin : P.minBlock ≤ need) (hd : need % 16 = 0) :
    ∃ b h₁ L₁, chooseBlock P need h = (b, h₁) ∧
      (b = 0 ∧ h.Asked h₁ ∨ b ≠ 0 ∧ h.Furnished P b need L h₁ L₁) := by
  obtain ⟨v, hrun, hres⟩ := hT.sound.run_binFind need
  obtain ⟨b, h₁, L₁, hrun₁, hres₁⟩ := hT.run_growFor hB ho hmin hd
  rw [chooseBlock, Prog.bind_run, Prog.read_run]
  by_cases hded : (h.growable && decide (largeThreshold < need)) = true
  · rw [if_pos hded, Prog.bind_run, Prog.pure_run, if_pos rfl, Prog.bind_run_of_eq hrun₁]
    rcases hres₁ with ⟨rfl, hh₁⟩ | ⟨hb, hf⟩
    · have hT₁ : h₁.Thriving P L := by
        rw [hh₁]
        exact hT.asked _
      obtain ⟨v, hrun, hres⟩ := hT₁.sound.run_binFind need
      rw [if_pos ⟨rfl, hded⟩, hrun]
      by_cases hv : v = 0
      · exact ⟨v, h₁, L, rfl, .inl ⟨hv, hh₁⟩⟩
      · obtain ⟨k, hf, hle⟩ := hres hv
        refine ⟨v, h₁, L, rfl, .inr ⟨hv, Heap.Furnished.asked (q := h₁.supply) ?_⟩⟩
        rw [← hh₁]
        exact hT₁.furnished (by rw [hh₁]; exact hB) hf hle
    · rw [if_neg fun hc => hb hc.1]
      exact ⟨b, h₁, L₁, rfl, .inr ⟨hb, hf⟩⟩
  rw [if_neg hded, Prog.bind_run_of_eq hrun]
  by_cases hv : v = 0
  · rw [if_pos hv, Prog.bind_run_of_eq hrun₁, if_neg fun hc => hded hc.2]
    exact ⟨b, h₁, L₁, rfl, hres₁⟩
  · obtain ⟨k, hf, hle⟩ := hres hv
    rw [if_neg hv, Prog.bind_run, Prog.pure_run, if_neg fun hc => hded hc.2]
    exact ⟨v, h, L, rfl, .inr ⟨hv, hT.furnished hB hf hle⟩⟩

/-- A call leaves an arena as good as before, and the blocks in use that do not start in `X` as they
were. -/
structure Heap.Course (P : Profile) (X : Nat → Prop) (h : Heap) (L : Span → List Cell) (h' : Heap)
    (L' : Span → List Cell) : Prop where
  thriving : h'.Thriving P L'
  busy : h'.Busy L' fun _ => False
  tended : h.Tended h'
  spares : h.Spares P X L h' L'

/-- Nothing has come of the call for any block in use. -/
structure Heap.Stayed (P : Profile) (h : Heap) (L : Span → List Cell) (h' : Heap)
    (L' : Span → List Cell) : Prop extends h.Course P (fun _ => False) L h' L' where
  counts : h'.stats.standing = h.stats.standing

/-- The block at `b` has been handed out for `n` bytes, as the cell `c`. -/
structure Heap.Issued (P : Profile) (s : Span) (b n : Nat) (c : Cell) (h : Heap)
    (L : Span → List Cell) (h' : Heap) (L' : Span → List Cell) : Prop
    extends h.Course P (· = b) L h' L' where
  vacant : ∀ t d, h.CellIn L t b d → d.kind = .free
  cell : h'.CellIn L' s b c
  live : c.kind = .live
  unsummed : c.crc = 0
  granted : c.requested P = c.grant P h.mode n
  suits : c.Suits P n
  counts : h'.stats.standing = h.stats.standing + (1, c.size, c.requested P)

theorem Heap.Course.trans (hc : h.Course P X L h₁ L₁) (hc' : h₁.Course P X L₁ h' L') :
    h.Course P X L h' L' :=
  ⟨hc'.thriving, hc'.busy, hc.tended.trans hc'.tended, hc.spares.trans hc'.spares⟩

theorem Heap.Course.mono (hc : h.Course P X L h' L') (hXY : ∀ x, X x → Y x) :
    h.Course P Y L h' L' := ⟨hc.thriving, hc.busy, hc.tended, hc.spares.mono hXY⟩

theorem Heap.Stayed.trans (hs : h.Stayed P L h₁ L₁) (hs' : h₁.Stayed P L₁ h' L') :
    h.Stayed P L h' L' := ⟨hs.toCourse.trans hs'.toCourse, hs'.counts.trans hs.counts⟩

theorem Heap.Idled.stayed (hi : h.Idled L h') (hT : h.Thriving P L) (hB : h.Busy L fun _ => False) :
    h.Stayed P L h' L := by
  have ho := hi.outcome (X := fun _ => False) hT.sound hT.settled
  refine ⟨⟨hT.step ho hi.served (fun _ _ _ hx => hx.elim) fun _ _ _ hx => hx.elim, ?_,
    hi.served.tended, ho.spares⟩, hi.counts⟩
  exact hB.spares ho.spares (fun t ht => hi.served.kin.spans ▸ ht) (fun _ _ _ hx => hx.elim)
    fun _ ht => ht.elim

theorem Heap.Thriving.stayed_asked (hT : h.Thriving P L) (hB : h.Busy L fun _ => False)
    (ha : h.Asked h') : h.Stayed P L h' L := by
  rw [ha]
  exact ⟨⟨hT.asked _, hB, ⟨rfl⟩, ⟨fun _ _ _ _ _ => Iff.rfl, fun _ _ => rfl⟩⟩, rfl⟩

theorem Heap.Stayed.issued (hs : h.Stayed P L h₁ L₁) (hi : h₁.Issued P s b n c L₁ h' L') :
    h.Issued P s b n c L h' L' where
  toCourse := (hs.toCourse.mono fun _ hx => hx.elim).trans hi.toCourse
  vacant := fun t d hd => by
    by_contra hk
    exact hk (hi.vacant t d ((hs.spares.cells t b d (Cell.used_of_ne hk) id).mpr hd))
  cell := hi.cell
  live := hi.live
  unsummed := hi.unsummed
  granted := hs.tended.mode ▸ hi.granted
  suits := hi.suits
  counts := hs.counts ▸ hi.counts

theorem Heap.Furnished.issued (hf : h.Furnished P b need L h₁ L₁)
    (ho : h₁.HandedOut P s b n c L₁ h' L') : h.Issued P s b n c L h' L' := by
  have hspans := ho.served.kin.spans
  obtain ⟨k, ⟨t, d, hd, hk, -⟩, -⟩ := hf.free
  have hb := ho.sound.tiled.plan.bounds ho.cell
  have hpos := (ho.sound.tiled.plan.cell_fits ho.cell).pos
  obtain rfl : s = t := hf.thriving.sound.tiled.plan.unique hd (hspans ▸ ho.cell.1) hb.1 (by omega)
  have hu : c.used = true := Cell.used_of_ne (by rw [ho.live]; decide)
  refine ⟨⟨hf.thriving.step ho.toOutcome ho.served (fun u x e hx he => ?_) fun u x e hx he => ?_, ?_,
    hf.tended.trans ho.served.tended, (hf.spares _).trans ho.spares⟩, fun u e he => ?_, ho.cell,
    ho.live, ho.unsummed, hf.tended.mode ▸ ho.granted, ho.suits, hf.stats ▸ ho.counts⟩
  · rw [ho.vacant u e (hx ▸ he)]
    decide
  · rw [ho.sound.kind_eq ho.cell (hx ▸ he), ho.live]
    decide
  · refine (hf.busy s d hd).spares ho.spares (fun t ht => hspans ▸ ht) (fun u x e hx he hue => ?_)
      fun u hu' => .inr ⟨b, c, hu' ▸ ho.cell.2, hu⟩
    exact absurd (ho.vacant u e (hx ▸ he)) (Cell.used_iff.mp hue)
  · by_contra hne
    have he' := ((hf.spares fun _ => False).cells u b e (Cell.used_of_ne hne) id).mpr he
    rw [(hf.thriving.sound.tiled.plan.cell_unique he' hd).2] at hne
    exact hne hk

theorem Heap.Furnished.faultless (hf : h.Furnished P b need L h₁ L₁) (hT : h.Thriving P L)
    (hg : h.Faultless P L) : h₁.Faultless P L₁ :=
  hg.spares (hf.spares fun _ => False) hT.sound hf.thriving.sound hT.settled
    fun _ _ _ _ hx => hx.elim

theorem Heap.Thriving.run_mallocUnlocked (hT : h.Thriving P L) (hB : h.Busy L fun _ => False)
    (ho : h.Offers (mappingFor P (sizeFor P n))) :
    ∃ r h' L', mallocUnlocked P n h = (r, h') ∧
      (r.1 = 0 ∧ h.Stayed P L h' L' ∨
        ∃ s b c, r.1 = b + P.hdrSize ∧ h.Issued P s b n c L h' L' ∧
          (h.Faultless P L → h'.raised = h.raised)) := by
  obtain ⟨h₁, hh₁⟩ : ∃ h₁, h₁ = (clearError h).2 := ⟨_, rfl⟩
  have hrun₁ : clearError h = ((), h₁) := by rw [hh₁, clearError, Prog.modify_run]
  have hn₁ : h.Counted h₁ := hh₁ ▸ ⟨rfl⟩
  have hs₁ := (hn₁.idled hT.sound.cursor (by rw [hh₁]; rfl)).stayed hT hB
  have hT₁ := hs₁.thriving
  have ho₁ : h₁.Offers (mappingFor P (sizeFor P n)) := by
    rw [hh₁]
    exact ho
  rw [mallocUnlocked, Prog.bind_run_of_eq hrun₁, Prog.bind_run_of_eq (run_arenaLive hT₁.spans_ne),
    if_neg (by decide), Prog.ite_run]
  by_cases h0 : n = 0 ∨ sizeFor P n = 0
  · have hn₂ : h₁.Counted (fail .nomem h₁).2 := ⟨rfl⟩
    rw [if_pos h0]
    exact ⟨_, _, L, rfl, .inl ⟨rfl, hs₁.trans ((hn₂.idled hT₁.sound.cursor rfl).stayed hT₁ hs₁.busy)⟩⟩
  have hne : sizeFor P n ≠ 0 := fun h' => h0 (.inr h')
  obtain ⟨-, hmin, hd, -, -⟩ := sizeFor_spec P hne
  obtain ⟨b, h₂, L₂, hrun₂, hres⟩ := hT₁.run_chooseBlock hs₁.busy ho₁ hmin hd
  rw [if_neg h0, Prog.bind_run_of_eq hrun₂, Prog.ite_run]
  rcases hres with ⟨rfl, ha⟩ | ⟨hb, hf⟩
  · have hs₂ := hT₁.stayed_asked hs₁.busy ha
    obtain ⟨h₃, hh₃⟩ : ∃ h₃, h₃ = (fail .nomem (statNote .allocFailed 0 h₂).2).2 := ⟨_, rfl⟩
    have hn₃ : h₂.Counted h₃ := hh₃ ▸ ⟨rfl⟩
    have hs₃ := (hn₃.idled hs₂.thriving.sound.cursor (by rw [hh₃]; rfl)).stayed hs₂.thriving hs₂.busy
    obtain ⟨h', hrun', hlap⟩ := hs₃.thriving.sound.run_scrubTick hs₃.thriving.settled
    rw [if_pos rfl]
    refine ⟨(0, sizeMax), h', L, ?_, .inl ⟨rfl, hs₁.trans (hs₂.trans (hs₃.trans
      (hlap.idled.stayed hs₃.thriving hs₃.busy)))⟩⟩
    rw [hh₃] at hrun'
    rw [Prog.bind_run, Prog.bind_run, Prog.bind_run, hrun']
    rfl
  · obtain ⟨k, hfree, hle⟩ := hf.free
    obtain ⟨h₃, h', s, c, L', hrun₃, hrun₄, hrun₅, hrun₆, hout, -, hquiet⟩ :=
      hf.thriving.sound.run_allocate hf.thriving.settled hfree hne hle
    rw [if_neg hb, Prog.bind_run_of_eq hrun₃, Prog.bind_run_of_eq hrun₄, Prog.bind_run_of_eq hrun₅,
      if_pos rfl, hrun₆]
    refine ⟨_, h', L', rfl, .inr ⟨s, b, c, rfl, hs₁.issued (hf.issued hout), fun hg => ?_⟩⟩
    have hg₁ : h₁.Faultless P L := hg.congr hn₁.kin.spans hn₁.mem
    rw [hquiet (hf.faultless hT₁ hg₁), hf.raised, hh₁]
    rfl

end Mars
