import MarsAllocator.Invariant.Split
import MarsAllocator.Invariant.Lap

namespace Mars

open ByteMemory StateProgram

variable {P : Profile} {h h' h₁ : Heap} {s : Span} {a b n x y need : Nat} {u u' : Bool}
  {c c' d : Cell} {L L' : Span → List Cell} {pre post post' : List Cell} {X : Nat → Prop} {m : Memory}

/-- A free block marked in use, before anything else is done with it. -/
def Cell.taken (c : Cell) : Cell := ⟨c.size, 0, c.crc, .bare⟩

theorem Cell.Fits.taken (hf : c.Fits P) : c.taken.Fits P :=
  ⟨hf.dvd, hf.min_le, hf.lt, Nat.zero_lt_succ _, nofun, nofun⟩

theorem Heap.Sound.run_unfile (hS : h.Sound P L) (hs : s ∈ h.spans) (hL : L s = pre ++ [c] ++ post)
    (hb : b = s.lo + extents pre) (hk : c.kind = .free) :
    ∃ h₁, binRemove P b h = ((), h₁) ∧ unchanged P b c.size false h₁ = (true, h₁) ∧
      h.Rebinned P (h.FreeAt L) h₁ ∧ h₁.Holds P s b (lastUsed true pre) c ∧
      h₁.Clear P (Function.update L s (pre ++ [c.taken] ++ post)) s pre b c.taken false post ∧
      lastUsed true pre = true ∧ ∀ x ∈ post.head?, x.used = true := by
  have hplan := hS.tiled.plan
  have hu : c.used = false := Cell.not_used_iff.mpr hk
  obtain ⟨hgap, hmid⟩ := hS.tiled.gap hs hL
  have hlast : lastUsed (lastUsed true pre) [c] = false := hu
  rw [← hb, extents_one, hlast] at hgap
  rw [← hb] at hmid
  have hcell : h.CellIn L s b c := Heap.cellIn_of_eq hs hL hb
  have hfit := hplan.cell_fits hcell
  have hpos := hfit.pos
  have hfree : h.FreeAt L b c.size := ⟨s, c, hcell, hk, rfl⟩
  have hr := (hS.filed.unlinked_spec hfree).1
  have hF₁ := hS.filed.unlinked hfree
  have hrun₁ := hS.filed.run_binRemove hfree
  generalize h.unlinked P b (binOf P c.size) = h₁ at hr hF₁ hrun₁
  have hkin := hr.kin
  have he := extents_one_eq (show c.taken.size = c.size from rfl)
  have hgap₁ := hgap.rebinned hplan hL (by rw [extents_one]) (fun _ _ h' => h') hr
  have hcur : h₁.Cursor (Function.update L s (pre ++ [c.taken] ++ post)) := by
    refine (hS.cursor.update hL he fun d hd => ?_).congr hkin.spans (by rw [hr.eq]) (by rw [hr.eq])
    exact ⟨c.taken, at_one.mpr ⟨(at_one.mp hd).1, rfl⟩⟩
  have hclear := hgap₁.bared (hplan.kin hkin) hL (by rw [extents_one])
    (show c.taken.size = extents [c] from (extents_one c).symm) rfl hfit.taken hF₁
    (fun x k => by rw [freeAt_kin hkin.spans]; exact Iff.rfl) (fun x d hx _ => (at_one.mp hx).1)
    (by omega) hcur (hS.narrow.of_spans hkin.spans)
  have hh₁ : h₁.Holds P s b (lastUsed true pre) c := by
    have hw := (hmid.1.holds (hplan.room hcell) hfit)
    have hhead : HeadAt P h₁.secret s h₁.mem b (lastUsed true pre) c := by
      rw [hkin.secret]
      refine hw.head.congr fun a h₁ h₂ => hr.same a ?_
      refine hplan.not_link hcell h₁ ?_ (fun _ => .inl h₂) fun _ _ h' => h'
      have hp := P.sizes
      have := hfit.min_le
      omega
    exact ⟨⟨hw.room.kin hkin, hfit, hhead.word⟩, hhead⟩
  refine ⟨h₁, hrun₁, ?_, hr, hh₁, hclear, hmid.2.2.1.resolve_right (by rw [hu]; decide), fun x hx => ?_⟩
  · have := hh₁.run_unchanged_self
    rwa [hu] at this
  · have hside := hgap.after.laid
    cases post with
    | nil => exact absurd hx nofun
    | cons e rest =>
      rw [← Option.mem_some.mp hx]
      exact hside.2.2.1.resolve_left (by decide)

theorem Heap.Clear.run_claim (hc : h.Clear P L s pre b c.taken u post)
    (hh : h.Holds P s b (lastUsed true pre) c) :
    ∃ h₁ h', setWord b c.size 0 true false h = ((), h₁) ∧ sealHeader P b h₁ = ((), h') ∧ h.Work h' ∧
      h'.Open P L s pre b c.taken u post ∧
      ∀ a, a < b ∨ b + P.hdrSize ≤ a → a < b + c.size - P.mirrorSize ∨ b + c.size ≤ a →
        h'.mem.byte a = h.mem.byte a := by
  have hp := P.sizes
  have hfit := hc.fits
  have hmin := hfit.min_le
  obtain ⟨d, hd⟩ : ∃ d, d = c.taken := ⟨_, rfl⟩
  have hsize : d.size = c.size := by rw [hd]; rfl
  have hslack : d.slack = 0 := by rw [hd]; rfl
  have hcrc : d.crc = c.crc := by rw [hd]; rfl
  have hused : d.used = true := by rw [hd]; rfl
  have hq : d.quarantined = false := by rw [hd]; rfl
  rw [← hd] at hc hfit hmin ⊢
  have hset : setWord b c.size 0 true false h =
      ((), h.withMem (h.mem.store b 8 (d.word (lastUsed true pre)))) := by
    have hrun := run_setWord_cell hh.covers8 hh.prevInUse_eq hfit
    rw [hsize, hslack, hused, hq] at hrun
    exact hrun
  obtain ⟨m₁, hm₁⟩ : ∃ m₁, m₁ = h.mem.store b 8 (d.word (lastUsed true pre)) := ⟨_, rfl⟩
  rw [← hm₁] at hset
  have hsame₁ : ∀ a, a < b ∨ b + P.hdrSize ≤ a → m₁.byte a = h.mem.byte a := fun a ha => by
    rw [hm₁]
    exact Memory.byte_store_of_notMem (by omega)
  have hroom₁ : (h.withMem m₁).Room s b d.size := hc.room.withMem m₁
  have hw₁ : (h.withMem m₁).Writ P s b (lastUsed true pre) d := by
    refine ⟨hroom₁, hfit, ?_⟩
    rw [Heap.withMem_mem, hm₁, load_word hfit]
  obtain ⟨m₂, hrun₂, hs₂⟩ := run_sealHeader hw₁ fun hc' => by
    have h16 := Profile.hdrSize_of_crc hc'
    rw [Heap.withMem_mem, hm₁, Memory.load_store_of_disjoint (by omega), hcrc]
    exact hh.head.crc hc'
  have hsame₂ : ∀ a, a < b ∨ b + P.hdrSize ≤ a → a < b + c.size - P.mirrorSize ∨ b + c.size ≤ a →
      m₂.byte a = h.mem.byte a := fun a h₁ h₂ =>
    (hs₂.same a h₁ (.inr (hsize.symm ▸ h₂))).trans (hsame₁ a h₁)
  refine ⟨_, _, hset, hrun₂, h.work_withMem m₂, ⟨hc.inside fun a ha => ?_, hs₂.head⟩, hsame₂⟩
  exact hsame₂ a (by omega) (by omega)

def Cell.summed (c : Cell) (v : Nat) : Cell := { c with crc := v }

theorem Cell.Fits.summed (hf : c.Fits P) (v : Nat) : (c.summed v).Fits P :=
  ⟨hf.dvd, hf.min_le, hf.lt, hf.slack_lt, hf.trail_le, hf.slack_le⟩

theorem Heap.Loose.run_setPayloadCrc (hl : h.Loose P L s pre b c u post) {v : Nat}
    (hv : v < 2 ^ 32) :
    ∃ h', setPayloadCrc P b v h = ((), h') ∧ h.Work h' ∧
      h'.Loose P (Function.update L s (pre ++ [c.summed v] ++ post)) s pre b (c.summed v) u post ∧
      (∀ X : Nat → Prop, X b → h.Spares P X L h' (Function.update L s (pre ++ [c.summed v] ++ post))) ∧
      ∀ a, a < b ∨ b + P.hdrSize ≤ a → h'.mem.byte a = h.mem.byte a := by
  have hp := P.sizes
  have hmin := hl.fits.min_le
  obtain ⟨m, hrun, hset⟩ := Mars.run_setPayloadCrc hl.writ.covers_head hv
  have hin : ∀ a, a < b ∨ b + c.size ≤ a → m.byte a = h.mem.byte a := fun a ha =>
    hset.same a (by omega)
  have hc := (hl.toClear.inside hin).recell (show (c.summed v).size = c.size from rfl)
    (hl.fits.summed v) hl.bare
  refine ⟨_, hrun, h.work_withMem m, ⟨hc, hset.word.trans hl.word, hset.crc⟩, fun X hX => ?_,
    hset.same⟩
  exact hl.plan.spares_recell hl.gap.span hl.cells hl.gap.start rfl rfl hX fun a ha =>
    hin a (hl.toClear.kept_outside ha hX)

theorem run_statAdd (hw : h.Writ P s b u c) (hk : c.kind = .live) :
    statAdd P b h = ((), { h with stats := h.stats.blockAdded c.size (c.requested P) }) := by
  rw [statAdd, Prog.bind_run_of_eq hw.run_blockSize, Prog.bind_run_of_eq (hw.run_requestedSize hk)]
  rfl

theorem run_statSub (hw : h.Writ P s b u c) (hk : c.kind = .live) :
    statSub P b h = ((), { h with stats := h.stats.blockRemoved c.size (c.requested P) }) := by
  rw [statSub, Prog.bind_run_of_eq hw.run_blockSize, Prog.bind_run_of_eq (hw.run_requestedSize hk)]
  rfl

theorem Heap.Spares.congr (hs : h.Spares P X L h₁ L') (hspans : h'.spans = h₁.spans)
    (hm : h'.mem = h₁.mem) : h.Spares P X L h' L' := by
  refine ⟨fun s b c hu hx => ?_, fun a ha => ?_⟩
  · rw [Heap.CellIn, hspans]
    exact hs.cells s b c hu hx
  · rw [hm]
    exact hs.bytes a ha

/-- The call leaves a sound arena with no block half worked on, and blocks in use that do not start
in `X` are as they were. -/
structure Heap.Outcome (P : Profile) (X : Nat → Prop) (h : Heap) (L : Span → List Cell) (h' : Heap)
    (L' : Span → List Cell) : Prop where
  sound : h'.Sound P L'
  settled : h'.Settled L'
  spares : h.Spares P X L h' L'

theorem Heap.Settled.congr (hset : h.Settled L) (hs : h'.spans = h.spans) : h'.Settled L := by
  intro s b c hc
  rw [Heap.CellIn, hs] at hc
  exact hset s b c hc

theorem Heap.Settled.spares (hset : h.Settled L) (hs : h.Spares P X L h' L')
    (hh : ∀ s b c, h'.CellIn L' s b c → X b → c.kind ≠ .bare) : h'.Settled L' := by
  intro s b c hc hk
  by_cases hx : X b
  · exact hh s b c hc hx hk
  · exact hset s b c ((hs.cells s b c (Cell.used_of_bare hk) hx).mp hc) hk

theorem Heap.Settled.put (hset : h.Settled L) (hs : h.Spares P (· = b) L h' L')
    (hS : h'.Sound P L') (hc : h'.CellIn L' s b c) (hk : c.kind ≠ .bare) : h'.Settled L' := by
  refine hset.spares hs fun t x d hd hx => ?_
  rw [hx] at hd
  rcases hS.tiled.plan.apart hd hc with ⟨-, -, rfl⟩ | hap
  · exact hk
  · have := (hS.tiled.plan.cell_fits hd).pos
    have := (hS.tiled.plan.cell_fits hc).pos
    omega

theorem Heap.CellIn.kept {i : Nat} (hc : h.CellIn L s b c) (hk : c.kind = .live) (hf : c.Fits P)
    (hX : ¬ X b) (hi : i < c.requested P) : h.Kept P L X (b + P.hdrSize + i) := by
  refine ⟨s, b, c, hc, Cell.used_of_ne (by rw [hk]; decide), hX, by omega, ?_⟩
  have hreq : c.requested P = c.size - P.hdrSize - c.slack := rfl
  have := hf.slack_le hk
  rw [Cell.bodyEnd, hk]
  dsimp only
  omega

theorem Heap.Holds.payloadOk_live (hh : h.Holds P s b u c) (hk : c.kind = .live) :
    (payloadOk P b h).1 = if (if P.hasCrc then c.crc else 0) = 0 then true
      else payloadCrcOf (h.mem.load (b + P.hdrSize) (c.requested P)) (c.requested P) ==
        if P.hasCrc then c.crc else 0 := by
  have hcrc : (if P.hasCrc then h.mem.load (b + 12) 4 else 0) = if P.hasCrc then c.crc else 0 := by
    split
    · exact hh.head.crc ‹_›
    · rfl
  have hword : h.mem.load b 8 = c.word u := hh.toWrit.word
  rw [payloadOk_fst, hcrc, hword, Cell.requestedFrom_word hh.fits hk]
  rfl

/-- No block has been given up, and every established payload checksum matches. -/
structure Heap.Faultless (P : Profile) (h : Heap) (L : Span → List Cell) : Prop where
  matching : h.Matching P L
  kept : ∀ t x d, h.CellIn L t x d → d.kind ≠ .lost

theorem Heap.Faultless.congr (hf : h.Faultless P L) (hs : h'.spans = h.spans) (hm : h'.mem = h.mem) :
    h'.Faultless P L :=
  ⟨hf.matching.congr hs hm, fun t x d hd => hf.kept t x d ⟨hs ▸ hd.1, hd.2⟩⟩

theorem Heap.Faultless.live (hf : h.Faultless P L) (hset : h.Settled L) (hc : h.CellIn L s b c)
    (hu : c.used = true) : c.kind = .live := by
  cases hk : c.kind with
  | free => exact absurd hk (Cell.used_iff.mp hu)
  | live => rfl
  | bare => exact absurd hk (hset s b c hc)
  | lost => exact absurd hk (hf.kept s b c hc)

theorem Heap.Faultless.spares (hf : h.Faultless P L) (hs : h.Spares P X L h' L') (hS : h.Sound P L)
    (hS' : h'.Sound P L') (hset : h.Settled L)
    (hX : ∀ t x d, h'.CellIn L' t x d → X x → d.kind = .free ∨ d.kind = .live ∧ d.crc = 0) :
    h'.Faultless P L' := by
  refine ⟨fun t x d hd hu => ?_, fun t x d hd hk => ?_⟩
  · obtain ⟨v', -, hh'⟩ := hS'.tiled.cell hd
    by_cases hx : X x
    · obtain ⟨hk, hcrc⟩ := (hX t x d hd hx).resolve_left (Cell.used_iff.mp hu)
      rw [hh'.payloadOk_live hk, hcrc, ite_self, if_pos rfl]
    have hd₀ := (hs.cells t x d hu hx).mp hd
    obtain ⟨v, -, hh⟩ := hS.tiled.cell hd₀
    have hk := hf.live hset hd₀ hu
    have hsame : h'.mem.load (x + P.hdrSize) (d.requested P) =
        h.mem.load (x + P.hdrSize) (d.requested P) := by
      refine Memory.load_congr fun a h₁ h₂ => hs.bytes a ?_
      have hkept := hd₀.kept hk hh.fits hx (i := a - (x + P.hdrSize)) (by omega)
      rwa [Nat.add_sub_cancel' h₁] at hkept
    have hok := hf.matching t x d hd₀ hu
    rw [hh.payloadOk_live hk] at hok
    rw [hh'.payloadOk_live hk, hsame, hok]
  · have hu : d.used = true := Cell.used_of_ne (by rw [hk]; decide)
    by_cases hx : X x
    · rcases hX t x d hd hx with hfree | ⟨hlive, -⟩
      · exact absurd (hk.symm.trans hfree) (by decide)
      · exact absurd (hk.symm.trans hlive) (by decide)
    · exact hf.kept t x d ((hs.cells t x d hu hx).mp hd) hk

theorem Heap.Outcome.trans {L₁ : Span → List Cell} (ho : h.Outcome P X L h₁ L₁)
    (ho' : h₁.Outcome P X L₁ h' L') : h.Outcome P X L h' L' :=
  ⟨ho'.sound, ho'.settled, ho.spares.trans ho'.spares⟩

theorem Heap.Spares.drop {Y : Nat → Prop} (hs : h.Spares P X L h' L')
    (hX : ∀ x, X x → Y x ∨ (∀ t d, h.CellIn L t x d → d.kind = .free) ∧
      ∀ t d, h'.CellIn L' t x d → d.kind = .free) : h.Spares P Y L h' L' := by
  refine ⟨fun t x d hu hy => ?_, fun a ha => hs.bytes a ?_⟩
  · by_cases hx : X x
    · obtain ⟨h₁, h₂⟩ := (hX x hx).resolve_left hy
      have hne := Cell.used_iff.mp hu
      exact ⟨fun hd => absurd (h₂ t d hd) hne, fun hd => absurd (h₁ t d hd) hne⟩
    · exact hs.cells t x d hu hx
  · obtain ⟨t, x, d, hd, hu, hy, ha⟩ := ha
    refine ⟨t, x, d, hd, hu, fun hx => ?_, ha⟩
    obtain ⟨h₁, -⟩ := (hX x hx).resolve_left hy
    exact absurd (h₁ t d hd) (Cell.used_iff.mp hu)

theorem Heap.Outcome.counted (ho : h.Outcome P X L h₁ L') (hc : h₁.Counted h') :
    h.Outcome P X L h' L' :=
  ⟨ho.sound.counted hc, ho.settled.congr hc.kin.spans, ho.spares.congr hc.kin.spans hc.mem⟩

theorem Heap.Outcome.patrolled (ho : h.Outcome P X L h₁ L') (hl : h₁.Lapped P L' h') :
    h.Outcome P X L h' L' := by
  have hp := hl.toPatrolled
  exact ⟨ho.sound.patrolled hp hl.cursor, ho.settled.congr hp.kin.spans,
    ho.spares.congr hp.kin.spans hp.mem⟩

/-- The spans, the mode and what the arena is installed with stay as they are. -/
structure Heap.Served (h h' : Heap) : Prop where
  eq : h' = { h with
    mem := h'.mem, bins := h'.bins, binBitmap := h'.binBitmap, scrubSpan := h'.scrubSpan,
    scrubAt := h'.scrubAt, stats := h'.stats, ops := h'.ops, opsSinceScrub := h'.opsSinceScrub,
    trimAfter := h'.trimAfter, fresh := h'.fresh, freshSpans := h'.freshSpans,
    lastError := h'.lastError, raised := h'.raised }

theorem Heap.Work.served (hw : h.Work h') : h.Served h' := by
  refine ⟨?_⟩
  rw [hw.eq]

theorem Heap.Counted.served (hc : h.Counted h') : h.Served h' := by
  refine ⟨?_⟩
  rw [hc.eq]

theorem Heap.Patrolled.served (hp : h.Patrolled h') : h.Served h' := by
  refine ⟨?_⟩
  rw [hp.eq]

theorem Heap.Served.trans (hs : h.Served h₁) (hs' : h₁.Served h') : h.Served h' := by
  refine ⟨?_⟩
  rw [hs'.eq, hs.eq]

theorem Heap.Served.kin (hs : h.Served h') : h.Kin h' := by
  rw [hs.eq]
  exact ⟨rfl, rfl, rfl⟩

theorem Heap.Served.mode (hs : h.Served h') : h'.mode = h.mode := by rw [hs.eq]

theorem Heap.Served.growable (hs : h.Served h') : h'.growable = h.growable := by rw [hs.eq]

theorem Heap.Served.lostBytes (hs : h.Served h') : h'.lostBytes = h.lostBytes := by rw [hs.eq]

/-- What is counted of the blocks that are out: how many, their extents and what was asked for. -/
def Stats.standing (st : Stats) : Nat × Nat × Nat :=
  (st.liveBlocks, st.liveBlockBytes, st.livePayloadBytes)

theorem Heap.Work.stats (hw : h.Work h') : h'.stats = h.stats := by rw [hw.eq]

theorem Heap.Work.mode (hw : h.Work h') : h'.mode = h.mode := by rw [hw.eq]

theorem Heap.Work.raised (hw : h.Work h') : h'.raised = h.raised := by rw [hw.eq]

theorem Heap.Patrolled.standing (hp : h.Patrolled h') :
    h'.stats.standing = h.stats.standing := by rw [hp.stats]; rfl

theorem Stats.standing_blockAdded (st : Stats) (n r : Nat) :
    (st.blockAdded n r).standing = st.standing + (1, n, r) := by
  rw [Stats.blockAdded]
  dsimp only
  split <;> rfl

def freeBytes (cs : List Cell) : Nat := extents (cs.filter fun c => c.kind = .free)

@[simp] theorem freeBytes_append {cs ds : List Cell} :
    freeBytes (cs ++ ds) = freeBytes cs + freeBytes ds := by
  rw [freeBytes, List.filter_append, extents_append]
  rfl

theorem freeBytes_one (c : Cell) : freeBytes [c] = if c.kind = .free then c.size else 0 := by
  rw [freeBytes, List.filter_singleton]
  by_cases hk : c.kind = .free
  · rw [decide_eq_true hk, if_pos hk]
    exact extents_one c
  · rw [decide_eq_false hk, if_neg hk]
    rfl

theorem freeBytes_of_free {cs : List Cell} (hf : ∀ c ∈ cs, c.kind = .free) :
    freeBytes cs = extents cs := by
  rw [freeBytes, List.filter_eq_self.mpr fun c hc => decide_eq_true (hf c hc)]

theorem Trimmed.freeBytes (ht : Trimmed P need c u post c' u' post') (hle : need ≤ c.size) :
    freeBytes post' + c'.size = freeBytes post + c.size := by
  cases ht with
  | whole _ => rfl
  | parted h hpost hfree =>
    have hcons : ∀ (n : Nat) (cs : List Cell), freeBytes (Cell.freed n :: cs) = n + freeBytes cs := by
      intro n cs
      rw [← List.singleton_append, freeBytes_append, freeBytes_one, if_pos (show (Cell.freed n).kind = .free from rfl)]
      rfl
    have hcut : (c.cut need).size = need := rfl
    rw [hcons, hpost, freeBytes_append, freeBytes_of_free hfree, hcut]
    omega

theorem suits_of_sizeFor (h0 : sizeFor P n ≠ 0) (hle : sizeFor P n ≤ c.size)
    (hlt : c.size < sizeFor P n + P.minBlock) (hd : c.size % 16 = 0) : c.Suits P n := by
  obtain ⟨h₁, h₂, h₃, -, h₅⟩ := sizeFor_spec P h0
  have hb : P.minBlock % 16 = 0 ∧ P.minBlock ≤ P.hdrSize + 1 + P.slackCarved ∧
      P.trail + 15 ≤ P.slackCarved ∧ P.slackMax + 16 = P.slackCarved + P.minBlock := by
    cases P <;> decide
  exact ⟨by omega, by omega⟩

/-- The block in hand at `b` has been handed out for `n` bytes, as the cell `c`. -/
structure Heap.Granted (P : Profile) (s : Span) (b n : Nat) (c : Cell) (h : Heap)
    (L : Span → List Cell) (h' : Heap) (L' : Span → List Cell) : Prop where
  work : h.Work h'
  sound : h'.Sound P L'
  spares : ∀ X : Nat → Prop, X b → h.Spares P X L h' L'
  cell : h'.CellIn L' s b c
  live : c.kind = .live
  granted : c.requested P = c.grant P h.mode n
  suits : c.Suits P n
  others : ∀ t, t ≠ s → L' t = L t

theorem Heap.Granted.outcome {h₀ : Heap} {L₀ : Span → List Cell}
    (hg : h.Granted P s b n c L h' L') (hset : h₀.Settled L₀)
    (hsp : h₀.Spares P (· = b) L₀ h L) : h₀.Outcome P (· = b) L₀ h' L' := by
  have hspares := hsp.trans (hg.spares (· = b) rfl)
  exact ⟨hg.sound, hset.put hspares hg.sound hg.cell (by rw [hg.live]; decide), hspares⟩

theorem Heap.Loose.run_grant (hl : h.Loose P L s pre b c u post) (hs : c.Suits P n) :
    ∃ h' c' L', finishAllocation P b n h = (true, h') ∧ h.Granted P s b n c' L h' L' ∧
      c'.size = c.size ∧ c'.crc = c.crc ∧ freeBytes (L' s) = freeBytes (L s) ∧
      ∀ a, b + P.hdrSize ≤ a → a < b + P.hdrSize + n → h'.mem.byte a = h.mem.byte a := by
  obtain ⟨h', hrun, hwork, hsound, hspares, hsame⟩ := hl.run_finishAllocation hs
  obtain ⟨c', hc'⟩ : ∃ c', c' = c.handed P h.mode n := ⟨_, rfl⟩
  have hreq : c'.requested P = c'.grant P h.mode n := by
    rw [hc']
    exact Cell.requested_handed hs h.mode
  have hkind : c'.kind = .live := by rw [hc']; rfl
  have hsize : c'.size = c.size := by rw [hc']; rfl
  have hcrc : c'.crc = c.crc := by rw [hc']; rfl
  rw [← hc'] at hsound hspares
  refine ⟨h', c', _, hrun, ⟨hwork, hsound, hspares, ?_, hkind, hreq, ?_, fun t ht => ?_⟩, hsize,
    hcrc, ?_, fun a h₁ h₂ => hsame a h₁ ?_⟩
  · exact Heap.cellIn_of_eq (hwork.kin.spans ▸ hl.gap.span) (Function.update_self ..) hl.gap.start
  · exact ⟨hsize ▸ hs.le, hsize ▸ hs.ge⟩
  · rw [Function.update_of_ne ht]
  · rw [Function.update_self, hl.cells, freeBytes_append, freeBytes_append, freeBytes_append,
      freeBytes_append, freeBytes_one, freeBytes_one, if_neg (by rw [hkind]; decide),
      if_neg (by rw [hl.bare]; decide)]
  · have := (hs.grant h.mode).2.2
    omega

theorem Heap.Open.run_handOut (ho : h.Open P L s pre b c u post) (h0 : sizeFor P n ≠ 0)
    (hle : sizeFor P n ≤ c.size) :
    ∃ h₁, splitBlock P b (sizeFor P n) h = ((), h₁) ∧ h.Work h₁ ∧ h₁.Covers (b + P.hdrSize) n ∧
      (∀ a, b + P.hdrSize ≤ a → a < b + P.hdrSize + n → h₁.mem.byte a = h.mem.byte a) ∧
      ∀ v < 2 ^ 32, ∃ h₂ h' c' L', setPayloadCrc P b v h₁ = ((), h₂) ∧
        finishAllocation P b n h₂ = (true, h') ∧ h.Granted P s b n c' L h' L' ∧ c'.crc = v ∧
        freeBytes (L' s) + c'.size = freeBytes (L s) + c.size ∧
        ∀ a, b + P.hdrSize ≤ a → a < b + P.hdrSize + n → h'.mem.byte a = h.mem.byte a := by
  obtain ⟨hneed, hmin, hdvd, -, -⟩ := sizeFor_spec P h0
  have hp := P.sizes
  have htr : P.trail = P.canarySize + P.mirrorSize := rfl
  obtain ⟨h₁, c₁, u₁, post₁, hrun₁, hw₁, ho₁, htrim, hsp₁, hsame₁⟩ := ho.run_splitBlock hdvd hmin hle
  obtain ⟨hle₁, hlt₁, -⟩ := htrim.size hle
  have hsame : ∀ a, b + P.hdrSize ≤ a → a < b + P.hdrSize + n → h₁.mem.byte a = h.mem.byte a :=
    fun a h₁ h₂ => hsame₁ a h₁ (by omega)
  refine ⟨h₁, hrun₁, hw₁, ho₁.writ.covers.sub (by omega) (by omega), hsame, fun v hv => ?_⟩
  obtain ⟨h₂, hrun₂, hw₂, hl₂, hsp₂, hsame₂⟩ := ho₁.loose.run_setPayloadCrc hv
  rw [Function.update_idem] at hl₂ hsp₂
  have hsuit : (c₁.summed v).Suits P n := suits_of_sizeFor h0 hle₁ hlt₁ hl₂.fits.dvd
  obtain ⟨h', c', L', hrun', hg, hsize, hcrc, hroom, hsame'⟩ := hl₂.run_grant hsuit
  have hmode : h₂.mode = h.mode := hw₂.mode.trans hw₁.mode
  refine ⟨h₂, h', c', L', hrun₂, hrun', ⟨hw₁.trans (hw₂.trans hg.work), hg.sound, fun X hX =>
    (hsp₁ X hX).trans ((hsp₂ X hX).trans (hg.spares X hX)), hg.cell, hg.live, hmode ▸ hg.granted,
    hg.suits, fun t ht => ?_⟩, hcrc, ?_, fun a h₁ h₂ => ?_⟩
  · rw [hg.others t ht, Function.update_of_ne ht]
  · have := htrim.freeBytes hle
    have hsz : (c₁.summed v).size = c₁.size := rfl
    rw [hroom, hsize, Function.update_self, ho.cells, freeBytes_append, freeBytes_append,
      freeBytes_append, freeBytes_append, freeBytes_one, freeBytes_one,
      if_neg (show ¬ (c₁.summed v).kind = .free by rw [hl₂.bare]; decide),
      if_neg (by rw [ho.bare]; decide)]
    omega
  · rw [hsame' a h₁ h₂, hsame₂ a (.inr h₁), hsame a h₁ h₂]

/-- `mm_span_take_fresh`, where any span is fresh at all. -/
def takeFresh (b : Nat) : HeapM Nat := do
  let anyFresh ← Prog.read fun h => h.freshSpans != 0
  if anyFresh then spanTakeFresh b else pure sizeMax

theorem takeFresh_eq (b : Nat) (h : Heap) : (takeFresh b h).2 = { h with
    fresh := (takeFresh b h).2.fresh, freshSpans := (takeFresh b h).2.freshSpans } := by
  rw [takeFresh, Prog.bind_run, Prog.read_run, Prog.ite_run]
  split
  swap
  · rfl
  rw [spanTakeFresh, withSpanOf, Prog.bind_run, Prog.read_run]
  cases h.spanOf b with
  | none => rfl
  | some s =>
    rw [Prog.elim_some, Prog.bind_run, Prog.read_run, Prog.ite_run]
    split <;> rfl

/-- Only the first block of a fresh span is known to be zero. -/
theorem takeFresh_fst (hs : h.spanOf b = some s) : (takeFresh b h).1 =
    if h.freshSpans ≠ 0 ∧ h.fresh s.lo = true ∧ b = s.lo then freshDirtyPrefix else sizeMax := by
  rw [takeFresh, Prog.bind_run, Prog.read_run, Prog.ite_run]
  by_cases hz : h.freshSpans = 0
  · rw [if_neg (by simp [hz]), if_neg fun hc => hc.1 hz]
    rfl
  · rw [if_pos (by simp [hz]), spanTakeFresh, withSpanOf, Prog.bind_run, Prog.read_run, hs,
      Prog.elim_some, Prog.bind_run, Prog.read_run, Prog.ite_run]
    by_cases hf : h.fresh s.lo = true
    · rw [if_pos hf]
      by_cases hb : b = s.lo
      · rw [if_pos hb, if_pos ⟨hz, hf, hb⟩]
        rfl
      · rw [if_neg hb, if_neg fun hc => hb hc.2.2]
        rfl
    · rw [if_neg hf, if_neg fun hc => hf hc.2.1]
      rfl

/-- The block at `b` has been handed out for `n` bytes, as the cell `c`. -/
structure Heap.HandedOut (P : Profile) (s : Span) (b n : Nat) (c : Cell) (h : Heap)
    (L : Span → List Cell) (h' : Heap) (L' : Span → List Cell) : Prop
    extends h.Outcome P (· = b) L h' L' where
  served : h.Served h'
  vacant : ∀ t d, h.CellIn L t b d → d.kind = .free
  cell : h'.CellIn L' s b c
  live : c.kind = .live
  unsummed : c.crc = 0
  granted : c.requested P = c.grant P h.mode n
  suits : c.Suits P n
  others : ∀ t, t ≠ s → L' t = L t
  room : freeBytes (L' s) + c.size = freeBytes (L s)
  counts : h'.stats.standing = h.stats.standing + (1, c.size, c.requested P)

theorem Heap.Holds.counted (hh : h.Holds P s b u c) (hn : h.Counted h') : h'.Holds P s b u c := by
  refine ⟨⟨hh.room.kin hn.kin, hh.fits, ?_⟩, ?_⟩
  · rw [hn.mem]
    exact hh.word
  · rw [hn.kin.secret, hn.mem]
    exact hh.head

theorem Heap.Clear.run_carve {h₀ : Heap} {L₀ : Span → List Cell}
    (hc : h.Clear P (Function.update L₀ s (pre ++ [c.taken] ++ post)) s pre b c.taken u post)
    (hh : h.Holds P s b (lastUsed true pre) c) (hL : L₀ s = pre ++ [c] ++ post)
    (hk : c.kind = .free) (hset : h₀.Settled L₀) (hfree : ∀ t d, h₀.CellIn L₀ t b d → d.kind = .free) (hw₀ : h₀.Work h)
    (hsp : h₀.Spares P (· = b) L₀ h (Function.update L₀ s (pre ++ [c.taken] ++ post)))
    (h0 : sizeFor P n ≠ 0) (hle : sizeFor P n ≤ c.size) :
    ∃ h' c' L', carve P b c.size (sizeFor P n) n h = ((b + P.hdrSize, (takeFresh b h).1), h') ∧
      h₀.HandedOut P s b n c' L₀ h' L' ∧
      (∀ a, b + P.hdrSize ≤ a → a < b + P.hdrSize + n → h'.mem.byte a = h.mem.byte a) ∧
      (h₀.Faultless P L₀ → h₀.Sound P L₀ → h'.raised = h₀.raised) := by
  have hneed := (sizeFor_spec P h0).1
  have htr : P.trail = P.canarySize + P.mirrorSize := rfl
  have hsz : c.taken.size = c.size := rfl
  obtain ⟨v, h₁, hfresh⟩ : ∃ v h₁, takeFresh b h = (v, h₁) := ⟨_, _, rfl⟩
  have heq : h₁ = { h with fresh := h₁.fresh, freshSpans := h₁.freshSpans } := by
    have := takeFresh_eq b h
    rwa [hfresh] at this
  have hcount : h.Counted h₁ := ⟨by rw [heq]⟩
  obtain ⟨h₂, h₃, hrun₂, hrun₃, hw₃, ho₃, hsame₃⟩ :=
    (hc.counted hcount).run_claim (hh.counted hcount)
  obtain ⟨h₄, hrun₄, -, -, -, hrest⟩ := ho₃.run_handOut h0 hle
  obtain ⟨h₅, h₆, c', L', hrun₅, hrun₆, hg, hcrc, hroom, hsame₆⟩ := hrest 0 (Nat.two_pow_pos 32)
  have hmid : h.Spares P (· = b) (Function.update L₀ s (pre ++ [c.taken] ++ post)) h₃
      (Function.update L₀ s (pre ++ [c.taken] ++ post)) := by
    refine hc.spares_inside (hw₃.kin.spans.trans hcount.kin.spans) (fun a ha => ?_) rfl
    have := hc.fits.min_le
    have hp := P.sizes
    rw [← hcount.mem]
    exact hsame₃ a (by omega) (by omega)
  have hout := hg.outcome hset (hsp.trans hmid)
  -- counting, and the patrol
  obtain ⟨u₆, -, hh₆⟩ := hg.sound.tiled.cell hg.cell
  obtain ⟨h₇, hh₇⟩ : ∃ h₇, h₇ = { h₆ with stats := h₆.stats.note n .alloc } := ⟨_, rfl⟩
  have hn₇ : h₆.Counted h₇ := hh₇ ▸ ⟨rfl⟩
  have hrun₈ := run_statAdd (hh₆.counted hn₇).toWrit hg.live
  obtain ⟨h₈, hh₈⟩ : ∃ h₈, h₈ =
      { h₇ with stats := h₇.stats.blockAdded c'.size (c'.requested P) } := ⟨_, rfl⟩
  rw [← hh₈] at hrun₈
  have hn₈ : h₆.Counted h₈ := hn₇.trans (hh₈ ▸ ⟨rfl⟩)
  have hout₈ := hout.counted hn₈
  obtain ⟨h', hrun', hlap⟩ := hout₈.sound.run_scrubTick hout₈.settled
  have hmode : h₃.mode = h₀.mode := by
    rw [hw₃.mode, ← hw₀.mode]
    exact hcount.served.mode
  have hstats : h₆.stats = h₀.stats := by
    rw [hg.work.stats, hw₃.stats, ← hw₀.stats, heq]
  refine ⟨h', c', L', ?_, ⟨hout₈.patrolled hlap, ?_, hfree, ?_, hg.live, hcrc, hmode ▸ hg.granted,
    hg.suits, fun t ht => ?_, ?_, ?_⟩, fun a h₁ h₂ => ?_, fun hf hS₀ => ?_⟩
  · have hfresh' : (if (h.freshSpans != 0) = true then spanTakeFresh b else pure sizeMax) h =
        (v, h₁) := hfresh
    have hrun₇ : statNote .alloc n h₆ = ((), h₇) := by
      rw [hh₇]
      rfl
    rw [carve, Prog.bind_run, Prog.read_run, Prog.bind_run_of_eq hfresh',
      Prog.bind_run_of_eq hrun₂, Prog.bind_run_of_eq hrun₃, Prog.bind_run_of_eq hrun₄,
      Prog.bind_run_of_eq hrun₅, Prog.bind_run_of_eq hrun₆, if_pos rfl, Prog.bind_run_of_eq hrun₇,
      Prog.bind_run_of_eq hrun₈, Prog.bind_run_of_eq hrun', hfresh]
    rfl
  · exact hw₀.served.trans (hcount.served.trans (hw₃.served.trans (hg.work.served.trans
      (hn₈.served.trans hlap.toPatrolled.served))))
  · rw [Heap.CellIn, hlap.toPatrolled.kin.spans, hn₈.kin.spans]
    exact hg.cell
  · rw [hg.others t ht, Function.update_of_ne ht]
  · rw [Function.update_self, freeBytes_append, freeBytes_append, freeBytes_one,
      if_neg (show ¬ c.taken.kind = .free from show Kind.bare ≠ .free by decide)] at hroom
    rw [hroom, hL, freeBytes_append, freeBytes_append, freeBytes_one, if_pos hk]
    omega
  · rw [hlap.toPatrolled.standing, hh₈, Stats.standing_blockAdded, hh₇, hstats]
    rfl
  · rw [hlap.toPatrolled.mem, hn₈.mem, hsame₆ a h₁ h₂, hsame₃ a (.inr h₁) (.inl (by omega)),
      hcount.mem]
  · have hfault : h₈.Faultless P L' := by
      refine hf.spares hout₈.spares hS₀ hout₈.sound hset fun t x d hd hx => .inr ?_
      have hcell : h₈.CellIn L' s b c' := ⟨hn₈.kin.spans ▸ hg.cell.1, hg.cell.2⟩
      obtain rfl := (hout₈.sound.tiled.plan.cell_unique (hx ▸ hd) hcell).2
      exact ⟨hg.live, hcrc⟩
    rw [(hlap.quiet hfault.matching).2, hh₈, hh₇]
    change h₆.raised = h₀.raised
    rw [hg.work.raised, hw₃.raised, heq]
    exact hw₀.raised

end Mars
