import MarsAllocator.Invariant.Opened

namespace Mars

open ByteMemory StateProgram

variable {P : Profile} {h h' h₁ h₂ h₃ : Heap} {s : Span} {b : Nat} {c : Cell} {L : Span → List Cell}
  {lap : Lap}

/-- No block is being worked on. -/
def Heap.Settled (h : Heap) (L : Span → List Cell) : Prop :=
  ∀ s b c, h.CellIn L s b c → c.kind ≠ .bare

/-- Every established payload checksum matches. -/
def Heap.Matching (P : Profile) (h : Heap) (L : Span → List Cell) : Prop :=
  ∀ s b c, h.CellIn L s b c → c.used = true → (payloadOk P b h).1 = true

/-- Only the patrol's position, its counters, the call counters and the status have changed. -/
structure Heap.Patrolled (h h' : Heap) : Prop where
  eq : h' = { h with
    scrubSpan := h'.scrubSpan, scrubAt := h'.scrubAt, stats := h'.stats, ops := h'.ops,
    opsSinceScrub := h'.opsSinceScrub, lastError := h'.lastError, raised := h'.raised }
  stats : h'.stats = { h.stats with
    scrubPasses := h'.stats.scrubPasses, scrubBlocks := h'.stats.scrubBlocks,
    scrubDetections := h'.stats.scrubDetections }

theorem Heap.patrolled_refl (h : Heap) : h.Patrolled h := ⟨rfl, rfl⟩

theorem Heap.Patrolled.trans (hp : h₁.Patrolled h₂) (hp' : h₂.Patrolled h₃) : h₁.Patrolled h₃ := by
  refine ⟨?_, ?_⟩
  · rw [hp'.eq, hp.eq]
  · rw [hp'.stats, hp.stats]

theorem Heap.Patrolled.kin (hp : h.Patrolled h') : h.Kin h' := by
  rw [hp.eq]
  exact ⟨rfl, rfl, rfl⟩

theorem Heap.Patrolled.mem (hp : h.Patrolled h') : h'.mem = h.mem := by rw [hp.eq]

theorem Heap.Sound.patrolled (hS : h.Sound P L) (hp : h.Patrolled h') (hc : h'.Cursor L) :
    h'.Sound P L := hS.same hp.kin hp.mem (by rw [hp.eq]) (by rw [hp.eq]) hc

theorem Heap.Writ.requestedSize_le {u : Bool} (hw : h.Writ P s b u c) :
    (requestedSize P b h).1 + P.hdrSize ≤ c.size := by
  have hle := requestedFrom_le P (w := c.word u)
    (by rw [Cell.wordSize_word hw.fits]; exact hw.fits.min_le) (Cell.word_lt hw.fits u)
  rw [Cell.wordSize_word hw.fits] at hle
  change requestedFrom P (h.mem.load b 8) + _ ≤ _
  rwa [hw.word]

theorem still_payloadOk {u : Bool} (hw : h.Writ P s b u c) : Still (payloadOk P b) h := by
  have hreq := hw.requestedSize_le
  rw [payloadOk]
  refine (still_payloadCrc hw.covers_head).bind (Still.ite (fun _ => rfl) fun _ => ?_)
  refine (still_requestedSize hw.covers8).bind ?_
  refine Still.bind (Still.loadN (hw.covers.sub (Nat.le_add_right _ _) ?_)) rfl
  rw [payloadOf]
  omega

theorem payloadOk_fst (h : Heap) : (payloadOk P b h).1 =
    if (if P.hasCrc then h.mem.load (b + 12) 4 else 0) = 0 then true
    else payloadCrcOf (h.mem.load (payloadOf P b) (requestedFrom P (h.mem.load b 8)))
      (requestedFrom P (h.mem.load b 8)) == if P.hasCrc then h.mem.load (b + 12) 4 else 0 := by
  unfold payloadOk payloadCrc
  cases P.hasCrc with
  | true =>
    rw [Prog.bind_run, Prog.ite_run]
    exact apply_ite Prod.fst _ _ _
  | false => rfl

theorem payloadOk_congr (hm : h'.mem = h.mem) : (payloadOk P b h').1 = (payloadOk P b h).1 := by
  rw [payloadOk_fst, payloadOk_fst, hm]

theorem run_canaryOk {u : Bool} (hc : CellAt P h.secret True s h.mem b u c)
    (hr : h.Room s b c.size) (hf : c.Fits P) (hk : c.kind ≠ .bare) :
    canaryOk P b h = (true, h) := by
  have hw := (hc.holds hr hf).toWrit
  have hp := P.sizes
  rw [canaryOk, Prog.ite_run]
  by_cases hcan : P.hasCanary = true
  swap
  · rw [if_neg hcan]
    rfl
  rw [if_pos hcan, Prog.bind_run_of_eq hw.run_load64, Cell.wordUsed_word, Cell.wordQuarantined_word,
    Prog.ite_run]
  by_cases hl : c.kind = .live
  swap
  · have hbad : (!c.used || c.quarantined) = true := by
      rw [Cell.used, Cell.quarantined]
      cases hkind : c.kind with
      | free | lost => rfl
      | live => exact absurd hkind hl
      | bare => exact absurd hkind hk
    rw [if_pos hbad]
    rfl
  have hgood : (!c.used || c.quarantined) = false := by
    rw [Cell.used, Cell.quarantined, hl]
    rfl
  have hcs : P.canarySize = 8 := by rw [Profile.canarySize, if_pos hcan]
  have htr : P.trail = P.canarySize + P.mirrorSize := rfl
  have h₁ := hf.trail_le hl
  have h₂ := hf.slack_le hl
  have hreq : c.requested P = c.size - P.hdrSize - c.slack := rfl
  have hat : canaryAt P b h = (b + c.size - c.slack, h) := by
    rw [canaryAt, Prog.bind_run_of_eq (hw.run_requestedSize hl)]
    change (b + P.hdrSize + c.requested P, h) = _
    rw [show b + P.hdrSize + c.requested P = b + c.size - c.slack by omega]
  have hcov : h.Covers (b + c.size - c.slack) 8 := hw.covers.sub (by omega) (by omega)
  rw [hgood, if_neg Bool.false_ne_true, Prog.bind_run_of_eq hat, Prog.bind_run_of_eq (run_load64 hcov),
    Prog.bind_run_of_eq hw.run_blockIndex, Prog.read_run, hc.canary hcan hl, beq_self_eq_true]

/-- What the patrol makes of a block. -/
def Heap.verdict (P : Profile) (h : Heap) (b : Nat) (c : Cell) : Status :=
  if c.used && !(payloadOk P b h).1 then .corruptPayload else .ok

theorem Heap.Sound.run_scrubBlock (hS : h.Sound P L) (hset : h.Settled L)
    (hc : h.CellIn L s b c) : scrubBlock P b h = (h.verdict P b c, h) := by
  obtain ⟨u, hcell, hh⟩ := hS.tiled.cell hc
  have hcan := run_canaryOk hcell hh.room hh.fits (hset s b c hc)
  have hp := P.sizes
  have hmin := hh.fits.min_le
  rw [scrubBlock, Prog.bind_run_of_eq hcan, if_pos rfl, Prog.bind_run_of_eq hh.run_isUsed, Heap.verdict]
  cases hu : c.used with
  | true =>
    rw [if_pos rfl, Prog.bind_run_of_eq (Still.run (still_payloadOk hh.toWrit)), Prog.ite_run]
    cases (payloadOk P b h).1 <;> rfl
  | false =>
    have htag := hcell.tag (Cell.not_used_iff.mp hu)
    have hcov : h.Covers (b + c.size - 8) 8 := hh.covers.sub (by omega) (by omega)
    rw [if_neg Bool.false_ne_true, Prog.bind_run_of_eq hh.run_blockSize,
      Prog.bind_run_of_eq (run_load64 hcov), htag, Prog.ite_run, if_pos rfl]
    rfl

theorem Heap.Matching.congr (hmat : h.Matching P L) (hs : h'.spans = h.spans)
    (hm : h'.mem = h.mem) : h'.Matching P L := by
  intro s b c hc hu
  rw [payloadOk_congr hm]
  exact hmat s b c ⟨hs ▸ hc.1, hc.2⟩ hu

/-- The lap stands at a block of the tiling, or at the end of its span. -/
def Lap.Placed (h : Heap) (L : Span → List Cell) (lap : Lap) : Prop :=
  lap.span ∈ h.spans ∧ (lap.pos = lap.span.hi ∨ ∃ c, At lap.span.lo (L lap.span) lap.pos c)

theorem spanAfter_mem {s x : Span} : ∀ {spans : List Span}, spanAfter s spans = some x → x ∈ spans := by
  intro spans
  induction spans with
  | nil => exact fun h => nomatch h
  | cons y rest ih =>
    intro h
    rw [spanAfter] at h
    split at h
    · exact List.mem_cons_of_mem y (List.mem_of_mem_head? h)
    · exact List.mem_cons_of_mem y (ih h)

theorem Heap.nextSpan_mem (hs : s ∈ h.spans) : h.nextSpan s ∈ h.spans := by
  rw [Heap.nextSpan]
  cases ha : spanAfter s h.spans with
  | some x => exact spanAfter_mem ha
  | none =>
    cases hh : h.spans.head? with
    | none => exact hs
    | some x => exact List.mem_of_mem_head? hh

theorem Heap.Plan.first (hp : h.Plan P L) (hs : s ∈ h.spans) : ∃ c, At s.lo (L s) s.lo c := by
  have hends := hp.ends s hs
  have hlt := (hp.ground s hs).lo_lt
  cases hL : L s with
  | nil =>
    rw [hL, extents_nil] at hends
    omega
  | cons c cs => exact ⟨c, .inl ⟨rfl, rfl⟩⟩

theorem Heap.Plan.after (hp : h.Plan P L) (hc : h.CellIn L s b c) :
    b + c.size = s.hi ∨ ∃ d, At s.lo (L s) (b + c.size) d := by
  obtain ⟨pre, post, hL, hb⟩ := at_iff.mp hc.2
  have hends := hp.ends s hc.1
  rw [hL, extents_append, extents_cons] at hends
  cases post with
  | nil =>
    rw [extents_nil] at hends
    exact .inl (by omega)
  | cons d post =>
    refine .inr ⟨d, ?_⟩
    rw [hL, at_append]
    exact .inr (.inr (.inl ⟨by omega, rfl⟩))

theorem run_lapSpan (h : Heap) (lap : Lap) : lapSpan lap h =
    (if lap.span.hi ≤ lap.pos then
      { lap with span := h.nextSpan lap.span, pos := (h.nextSpan lap.span).lo } else lap, h) := by
  rw [lapSpan, Prog.ite_run]
  split <;> rfl

theorem Lap.Placed.lapSpan (hp : h.Plan P L) (hl : lap.Placed h L) :
    ∃ c, h.CellIn L ((lapSpan lap h).1).span ((lapSpan lap h).1).pos c := by
  rw [run_lapSpan]
  obtain ⟨hs, hpos⟩ := hl
  split
  · have hnext := Heap.nextSpan_mem hs
    obtain ⟨c, hc⟩ := hp.first hnext
    exact ⟨c, hnext, hc⟩
  · rename_i hlt
    rcases hpos with he | ⟨c, hc⟩
    · exact absurd (Nat.le_of_eq he.symm) hlt
    · exact ⟨c, hs, hc⟩

def Lap.visit (lap : Lap) (n : Nat) (status : Status) : Lap :=
  { lap.note status with visited := lap.visited + 1, pos := lap.pos + n }

theorem Lap.note_span (lap : Lap) (st : Status) : (lap.note st).span = lap.span := by
  rw [Lap.note]
  split <;> rfl

theorem Heap.Sound.run_scrubStep (hS : h.Sound P L) (hset : h.Settled L)
    (hc : h.CellIn L lap.span lap.pos c) :
    scrubStep P lap h = (lap.visit c.size (h.verdict P lap.pos c), h) := by
  obtain ⟨u, -, hh⟩ := hS.tiled.cell hc
  rw [scrubStep, Prog.bind_run_of_eq (hS.run_scrubBlock hset hc),
    Prog.bind_run_of_eq hh.run_blockSize]
  rfl

/-- What the patrol has to report so far: nothing, or a payload. -/
def Lap.Mild (lap : Lap) : Prop :=
  lap.found = .ok ∧ lap.hits = 0 ∨ lap.found = .corruptPayload ∧ 0 < lap.hits

theorem Lap.Mild.visit (hm : lap.Mild) (n : Nat) (h : Heap) (b : Nat) (c : Cell) :
    (lap.visit n (h.verdict P b c)).Mild := by
  rw [Heap.verdict]
  split
  · refine .inr ⟨?_, Nat.succ_pos _⟩
    change (if lap.found = .ok then Status.corruptPayload else lap.found) = _
    rcases hm with ⟨hf, -⟩ | ⟨hf, -⟩
    · rw [if_pos hf]
    · rw [hf, if_neg (by decide)]
  · exact hm

def Heap.turn (P : Profile) (h : Heap) (lap : Lap) : Lap :=
  let lap := (lapSpan lap h).1
  lap.visit (wordSize (h.word lap.pos)) (scrubBlock P lap.pos h).1

theorem Heap.Sound.turn_spec (hS : h.Sound P L) (hset : h.Settled L) (hl : lap.Placed h L) :
    ∃ c, h.CellIn L (lapSpan lap h).1.span (lapSpan lap h).1.pos c ∧
      h.turn P lap = (lapSpan lap h).1.visit c.size (h.verdict P (lapSpan lap h).1.pos c) ∧
      (h.turn P lap).Placed h L := by
  obtain ⟨c, hc⟩ := hl.lapSpan hS.tiled.plan
  obtain ⟨u, -, hh⟩ := hS.tiled.cell hc
  have hturn : h.turn P lap =
      (lapSpan lap h).1.visit c.size (h.verdict P (lapSpan lap h).1.pos c) := by
    rw [Heap.turn, hS.run_scrubBlock hset hc]
    dsimp only
    rw [hh.word_eq, Cell.wordSize_word hh.fits]
  refine ⟨c, hc, hturn, ?_⟩
  rw [hturn]
  refine ⟨?_, ?_⟩
  · change (Lap.note _ _).span ∈ h.spans
    rw [Lap.note_span]
    exact hc.1
  · have hafter := hS.tiled.plan.after hc
    rw [Lap.visit]
    dsimp only
    rw [Lap.note_span]
    exact hafter

theorem run_scrubLoop (hS : h.Sound P L) (hset : h.Settled L) (budget : Nat) :
    ∀ guard lap, lap.Placed h L → scrubLoop P budget (guard + 1) lap h =
      if lap.visited < budget then scrubLoop P budget guard (h.turn P lap) h else (lap, h) := by
  intro guard lap hl
  obtain ⟨c, hc, hturn, -⟩ := hS.turn_spec hset hl
  obtain ⟨u, -, hh⟩ := hS.tiled.cell hc
  have hspan : lapSpan lap h = ((lapSpan lap h).1, h) := by
    rw [run_lapSpan]
  rw [scrubLoop, Prog.ite_run]
  split
  · rw [Prog.bind_run_of_eq hspan, Prog.bind_run_of_eq hh.run_headerOk, if_pos rfl,
      Prog.bind_run_of_eq (hS.run_scrubStep hset hc), hturn]
  · rfl

theorem Heap.Sound.run_scrubLoop (hS : h.Sound P L) (hset : h.Settled L) (budget : Nat) :
    ∀ guard lap, lap.Placed h L → lap.Mild → ∃ lap', scrubLoop P budget guard lap h = (lap', h) ∧
      lap'.Placed h L ∧ lap'.Mild ∧
      (h.Matching P L → lap.found = .ok → lap'.found = .ok) := by
  intro guard
  induction guard with
  | zero => exact fun lap hl hm => ⟨lap, rfl, hl, hm, fun _ h' => h'⟩
  | succ guard ih =>
    intro lap hl hm
    rw [Mars.run_scrubLoop hS hset budget guard lap hl]
    split
    swap
    · exact ⟨lap, rfl, hl, hm, fun _ h' => h'⟩
    obtain ⟨c, hc, hturn, hl'⟩ := hS.turn_spec hset hl
    have hm₁ : (lapSpan lap h).1.Mild := by
      rw [run_lapSpan]
      split <;> exact hm
    obtain ⟨lap', hrun, hplaced, hmild, hok⟩ := ih _ hl' (by
      rw [hturn]
      exact hm₁.visit _ _ _ _)
    refine ⟨lap', hrun, hplaced, hmild, fun hmat hf => hok hmat ?_⟩
    have hf₁ : (lapSpan lap h).1.found = .ok := by
      rw [run_lapSpan]
      split <;> exact hf
    rw [hturn, Heap.verdict, if_neg]
    · exact hf₁
    · intro hbad
      rw [Bool.and_eq_true, Bool.not_eq_true'] at hbad
      exact absurd ((hmat _ _ _ hc hbad.1).symm.trans hbad.2) (by decide)

theorem Heap.Cursor.start (hc : h.Cursor L) (hp : h.Plan P L)
    (hs : h.scrubSpan.or h.spans.head? = some s) :
    Lap.Placed h L { span := s, pos := lapStart s h.scrubAt } := by
  have hmem : s ∈ h.spans ∧ (h.scrubSpan = some s ∨ h.scrubAt = 0) := by
    cases hspan : h.scrubSpan with
    | none =>
      rw [hspan, Option.none_or] at hs
      exact ⟨List.mem_of_mem_head? hs, .inr (hc.idle hspan)⟩
    | some s' =>
      rw [hspan, Option.some_or] at hs
      obtain rfl := Option.some.inj hs
      exact ⟨(hc.at_block s' hspan).1, .inl rfl⟩
  refine ⟨hmem.1, .inr ?_⟩
  rw [lapStart]
  dsimp only
  split
  · exact hp.first hmem.1
  · rename_i hin
    rcases hmem.2 with hspan | h0
    · obtain ⟨-, hend | hcell⟩ := hc.at_block s hspan
      · exact absurd (.inr (.inr (Nat.le_of_eq hend.symm))) hin
      · exact hcell
    · exact absurd (.inl h0) hin

/-- What a patrol reports. -/
structure Heap.Lapped (P : Profile) (h : Heap) (L : Span → List Cell) (h' : Heap) : Prop
    extends h.Patrolled h' where
  cursor : h'.Cursor L
  quiet : h.Matching P L → h'.lastError = h.lastError ∧ h'.raised = h.raised
  mild : h'.lastError = h.lastError ∨ h'.lastError = .corruptPayload

theorem run_scrubEnd (h : Heap) (lap : Lap) (hl : lap.Placed h L) (hm : lap.Mild)
    (hok : h.Matching P L → lap.found = .ok) :
    ∃ h', scrubEnd lap h = (lap.found, h') ∧ h.Lapped P L h' := by
  have hcur : ∀ h' : Heap, h'.scrubSpan = some lap.span → h'.scrubAt = lap.pos →
      h'.spans = h.spans → h'.Cursor L := by
    intro h' h₁ h₂ h₃
    refine ⟨fun hn => absurd (h₁.symm.trans hn) nofun, fun s hs => ?_⟩
    obtain rfl := Option.some.inj (h₁.symm.trans hs)
    rw [h₂, h₃]
    exact hl
  rcases hm with ⟨hf, hh⟩ | ⟨hf, hh⟩
  · refine ⟨(statNote .scrub lap.visited (setCursor lap.span lap.pos h).2).2, ?_, ⟨rfl, rfl⟩,
      hcur _ rfl rfl rfl, fun _ => ⟨rfl, rfl⟩, .inl rfl⟩
    · rw [scrubEnd, Prog.bind_run, Prog.bind_run, Prog.bind_run, Prog.when_run,
        if_neg (by rw [hh]; exact Nat.lt_irrefl 0), Prog.bind_run, Prog.when_run,
        if_neg (not_not.mpr hf)]
      rfl
  · refine ⟨(fail lap.found (statNote .scrubHit lap.hits
      (statNote .scrub lap.visited (setCursor lap.span lap.pos h).2).2).2).2, ?_, ⟨rfl, rfl⟩,
      hcur _ rfl rfl rfl, fun hmat => ?_, .inr hf⟩
    · rw [scrubEnd, Prog.bind_run, Prog.bind_run, Prog.bind_run, Prog.when_run, if_pos hh,
        Prog.bind_run, Prog.when_run, if_pos (by rw [hf]; decide)]
      rfl
    · exact absurd ((hok hmat).symm.trans hf) (by decide)

theorem Heap.Sound.run_scrubRun (hS : h.Sound P L) (hset : h.Settled L) (budget : Nat) :
    ∃ st h', scrubRun P budget h = (st, h') ∧ h.Lapped P L h' ∧ (h.Matching P L → st = .ok) := by
  have hstay : h.Lapped P L h := ⟨h.patrolled_refl, hS.cursor, fun _ => ⟨rfl, rfl⟩, .inl rfl⟩
  rw [scrubRun, Prog.ite_run]
  split
  · exact ⟨.ok, h, rfl, hstay, fun _ => rfl⟩
  rw [Prog.bind_run, Prog.read_run]
  cases hs : h.scrubSpan.or h.spans.head? with
  | none => exact ⟨.ok, h, rfl, hstay, fun _ => rfl⟩
  | some s =>
    have hl := hS.cursor.start hS.tiled.plan hs
    obtain ⟨lap', hrun, hplaced, hmild, hok⟩ := hS.run_scrubLoop hset budget
      (h.totalBytes / P.minBlock + 1 + h.spanCount) { span := s, pos := lapStart s h.scrubAt } hl
      (.inl ⟨rfl, rfl⟩)
    have hfound : h.Matching P L → lap'.found = .ok := fun hmat => hok hmat rfl
    obtain ⟨h', hend, hlapped⟩ := run_scrubEnd h lap' hplaced hmild hfound
    refine ⟨lap'.found, h', ?_, hlapped, hfound⟩
    rw [Prog.elim_some, Prog.bind_run, Prog.read_run, maxBlocks, Prog.bind_run, Prog.read_run,
      Prog.bind_run, Prog.read_run, Prog.bind_run_of_eq hrun]
    exact hend

theorem Heap.Sound.run_scrubTick (hS : h.Sound P L) (hset : h.Settled L) :
    ∃ h', scrubTick P h = ((), h') ∧ h.Lapped P L h' := by
  have hcount : h.Counted (countOp h).2 := ⟨rfl⟩
  rw [scrubTick, Prog.bind_run, Prog.bind_run, Prog.read_run, Prog.when_run]
  split
  swap
  · exact ⟨_, rfl, ⟨rfl, rfl⟩, hS.cursor.congr rfl rfl rfl, fun _ => ⟨rfl, rfl⟩, .inl rfl⟩
  rw [Prog.bind_run, Prog.read_run, Prog.bind_run, Prog.bind_run, Prog.read_run, Prog.when_run]
  split
  swap
  · exact ⟨_, rfl, ⟨rfl, rfl⟩, hS.cursor.congr rfl rfl rfl, fun _ => ⟨rfl, rfl⟩, .inl rfl⟩
  rw [Prog.bind_run, Prog.bind_run, Prog.read_run]
  set h₁ := (setOpsSinceScrub 0 _).2 with hh₁
  have hcnt : h.Counted h₁ := ⟨rfl⟩
  obtain ⟨st, h', hrun, hlap, -⟩ := (hS.counted hcnt).run_scrubRun hset h₁.scrubBudget
  rw [Prog.bind_run_of_eq hrun]
  refine ⟨h', rfl, ?_, hlap.cursor, fun hmat => hlap.quiet (hmat.congr rfl rfl), hlap.mild⟩
  exact (⟨rfl, rfl⟩ : h.Patrolled h₁).trans hlap.toPatrolled

end Mars
