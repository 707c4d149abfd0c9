import MarsAllocator.Invariant.Payload

namespace Mars

open ByteMemory StateProgram

variable {P : Profile} {h h' h₀ h₁ : Heap} {s : Span} {a b k n oldSum : Nat} {u : Bool}
  {c c' c₀ d : Cell} {L L' L₀ : Span → List Cell} {pre post : List Cell} {X : Nat → Prop}

def Heap.carried (P : Profile) (h : Heap) (b oldSize oldSum n : Nat) : Nat :=
  if (P.hasCrc && h.mode == .managed) = true ∧ oldSum ≠ 0 ∧ n ≤ oldSize then
    payloadCrcOf (h.mem.load (payloadOf P b) n) n
  else 0

theorem Heap.carried_lt (P : Profile) (h : Heap) (b oldSize oldSum n : Nat) :
    h.carried P b oldSize oldSum n < 2 ^ 32 := by
  rw [Heap.carried]
  split
  · exact payloadCrcOf_lt _ _
  · exact Nat.two_pow_pos 32

theorem run_carryPayloadCrc (hc : h.Covers (b + P.hdrSize) n) (oldSize oldSum : Nat) :
    carryPayloadCrc P b oldSize oldSum n h =
      setPayloadCrc P b (h.carried P b oldSize oldSum n) h := by
  rw [carryPayloadCrc, payloadCrcLive, Prog.bind_run, Prog.read_run, Prog.ite_run, Heap.carried]
  split
  · have hload : loadN (payloadOf P b) n h = (h.mem.load (payloadOf P b) n, h) := run_loadN hc
    change (loadN (payloadOf P b) n >>= fun v => setPayloadCrc P b (payloadCrcOf v n)) h = _
    rw [Prog.bind_run_of_eq hload]
  · rfl

/-- The block `c₀` at `b` has become `c`, for `n` bytes. -/
structure Heap.Resized (P : Profile) (s : Span) (b n : Nat) (c₀ : Cell) (h₀ : Heap)
    (L₀ : Span → List Cell) (c : Cell) (h : Heap) (L : Span → List Cell) : Prop
    extends h₀.Outcome P (· = b) L₀ h L where
  served : h₀.Served h
  cell : h.CellIn L s b c
  live : c.kind = .live
  granted : c.requested P = c.grant P h₀.mode n
  suits : c.Suits P n
  carried : c.crc = h₀.carried P b (c₀.requested P) (if P.hasCrc then c₀.crc else 0) n
  others : ∀ t, t ≠ s → L t = L₀ t
  room : freeBytes (L s) + c.size = freeBytes (L₀ s) + c₀.size
  counts : h.stats.standing =
    h₀.stats.standing - (1, c₀.size, c₀.requested P) + (1, c.size, c.requested P)
  bytes : ∀ a, b + P.hdrSize ≤ a → a < b + P.hdrSize + n → a < b + P.hdrSize + c₀.requested P →
    h.mem.byte a = h₀.mem.byte a

theorem Heap.InHand.carried (hi : h₀.InHand P s b c₀ L₀ c h L)
    (hs : ∀ a, b + P.hdrSize ≤ a → a < b + P.hdrSize + n → h₁.mem.byte a = h.mem.byte a)
    (hm : h₁.mode = h.mode) :
    h₁.carried P b (c₀.requested P) oldSum n = h₀.carried P b (c₀.requested P) oldSum n := by
  rw [Heap.carried, Heap.carried, hm, hi.served.mode]
  by_cases hle : n ≤ c₀.requested P
  · have hload : h₁.mem.load (payloadOf P b) n = h₀.mem.load (payloadOf P b) n :=
      Memory.load_congr fun a h₁ h₂ => by
        rw [payloadOf] at h₁ h₂
        rw [hs a h₁ h₂, hi.bytes a h₁ (by omega)]
    rw [hload]
  · rw [if_neg fun hc => hle hc.2.2, if_neg fun hc => hle hc.2.2]

theorem Heap.Open.run_trimResized (ho : h.Open P L s pre b c u post)
    (hi : h₀.InHand P s b c₀ L₀ c h L) (hset : h₀.Settled L₀) (h0 : sizeFor P n ≠ 0)
    (hle : sizeFor P n ≤ c.size) :
    ∃ h' c' L', trimResized P b (sizeFor P n) (c₀.requested P) (if P.hasCrc then c₀.crc else 0) n h =
        (b + P.hdrSize, h') ∧ h₀.Resized P s b n c₀ L₀ c' h' L' := by
  obtain ⟨h₁, hrun₁, hw₁, hcov₁, hsame₁, hrest⟩ := ho.run_handOut h0 hle
  obtain ⟨h₂, h₃, c', L', hrun₂, hrun₃, hg, hcrc, hroom, hsame₃⟩ := hrest _
    (h₁.carried_lt P b (c₀.requested P) (if P.hasCrc then c₀.crc else 0) n)
  have hout := hg.outcome hset hi.spares
  obtain ⟨u₃, -, hh₃⟩ := hg.sound.tiled.cell hg.cell
  have hrun₄ := run_statAdd hh₃.toWrit hg.live
  obtain ⟨h₄, hh₄⟩ : ∃ h₄, h₄ =
      { h₃ with stats := h₃.stats.blockAdded c'.size (c'.requested P) } := ⟨_, rfl⟩
  rw [← hh₄] at hrun₄
  have hn₄ : h₃.Counted h₄ := hh₄ ▸ ⟨rfl⟩
  have hout₄ := hout.counted hn₄
  obtain ⟨h', hrun', hlap⟩ := hout₄.sound.run_scrubTick hout₄.settled
  refine ⟨h', c', L', ?_, ⟨hout₄.patrolled hlap, ?_, ?_, hg.live, ?_, hg.suits, ?_, fun t ht => ?_,
    ?_, ?_, fun a h₁ h₂ h₃ => ?_⟩⟩
  · rw [trimResized, Prog.bind_run_of_eq hrun₁, Prog.bind_run, run_carryPayloadCrc hcov₁, hrun₂,
      Prog.bind_run_of_eq hrun₃, if_pos rfl, Prog.bind_run_of_eq hrun₄, Prog.bind_run_of_eq hrun']
    rfl
  · exact hi.served.trans (hg.work.served.trans (hn₄.served.trans hlap.toPatrolled.served))
  · rw [Heap.CellIn, hlap.toPatrolled.kin.spans, hn₄.kin.spans]
    exact hg.cell
  · rw [hg.granted, hi.served.mode]
  · rw [hcrc]
    exact hi.carried hsame₁ hw₁.mode
  · rw [hg.others t ht, hi.others t ht]
  · rw [hroom, hi.room]
  · rw [hlap.toPatrolled.standing, hh₄, Stats.standing_blockAdded, hg.work.stats, hi.counts]
  · rw [hlap.toPatrolled.mem, hn₄.mem, hsame₃ a h₁ h₂, hi.bytes a h₁ h₃]

theorem Heap.Open.run_growNeighbour (ho : h.Open P L s pre b c u post) (need : Nat) :
    growNeighbour P s (b + c.size) c.size need h = (none, h) ∨
      ∃ d post', post = d :: post' ∧ d.kind = .free ∧ need ≤ c.size + d.size ∧
        growNeighbour P s (b + c.size) c.size need h = (some d.size, h) := by
  rw [growNeighbour, Prog.ite_run]
  rcases hpost : post with _ | ⟨d, post'⟩
  · rw [if_pos (Nat.le_of_eq (ho.post_nil hpost).symm)]
    exact .inl rfl
  obtain ⟨-, hd⟩ := ho.next hpost
  have hmerge : Prog.and (headerOk P (b + c.size)) (do
      let used ← isUsed (b + c.size)
      return !used) h = (!d.used, h) := by
    rw [Prog.and_run, hd.run_headerOk, if_pos rfl, Prog.bind_run_of_eq hd.run_isUsed]
    rfl
  rw [if_neg (Nat.not_le.mpr (ho.next_lt hpost)), Prog.bind_run_of_eq hmerge, Prog.ite_run]
  by_cases hk : d.kind = .free
  swap
  · rw [Cell.used_of_ne hk, if_neg (by decide)]
    exact .inl rfl
  rw [Cell.not_used_iff.mpr hk, if_pos (by decide), Prog.bind_run_of_eq hd.run_blockSize]
  by_cases hle : need ≤ c.size + d.size
  · refine .inr ⟨d, post', rfl, hk, hle, ?_⟩
    rw [if_pos hle]
    rfl
  · rw [if_neg hle]
    exact .inl rfl

theorem Heap.InHand.run_merge {post' : List Cell} (hi : h₀.InHand P s b c₀ L₀ c h L)
    (ho : h.Open P L s pre b c u post) (hpost : post = d :: post') (hk : d.kind = .free)
    (hreq : c₀.requested P + P.hdrSize ≤ c.size) :
    ∃ h₁ h₂ h₃ h' L', binRemove P (b + c.size) h = ((), h₁) ∧
      unchanged P b c.size true h₁ = (true, h₁) ∧
      unchanged P (b + c.size) d.size false h₁ = (true, h₁) ∧
      setBlockSize b (c.size + d.size) h₁ = ((), h₂) ∧
      blockEnd b h₂ = (b + c.size + d.size, h₂) ∧
      scrubForget b (b + c.size + d.size) h₂ = ((), h₃) ∧ sealHeader P b h₃ = ((), h') ∧
      h'.Open P L' s pre b (c.grown d.size) false post' ∧
      h₀.InHand P s b c₀ L₀ (c.grown d.size) h' L' := by
  obtain ⟨h₁, h₂, h₃, h', hrun₁, hun₁, hun₂, hrun₂, hend, hrun₃, hrun₄, hwork, ho', hsame⟩ :=
    ho.run_mergeNext hpost hk
  have hL : L s = pre ++ [c, d] ++ post' := by
    rw [ho.cells, hpost, List.append_assoc, List.append_assoc]
    rfl
  have hext : extents [c.grown d.size] = extents [c, d] := rfl
  have hstart := ho.gap.start
  have hat : ∀ x e, At (s.lo + extents pre) [c, d] x e → e.used = true → x = b := by
    rintro x e (⟨rfl, rfl⟩ | hx) hu
    · exact hstart.symm
    · obtain ⟨-, rfl⟩ := at_one.mp hx
      exact absurd hk (Cell.used_iff.mp hu)
  have hsp := ho.plan.spares (X := (· = b)) ho.gap.span hL hext hwork.kin.spans hat
    (fun x e hx _ => (at_one.mp hx).1.trans hstart.symm) fun a ha => hsame a (.inl ha)
  refine ⟨h₁, h₂, h₃, h', _, hrun₁, hun₁, hun₂, hrun₂, hend, hrun₃, hrun₄, ho', hi.spares.trans hsp,
    hi.served.trans hwork.served, fun t ht => ?_, ?_, ?_, fun a h₁ h₂ => ?_⟩
  · rw [Function.update_of_ne ht, hi.others t ht]
  · have hroom := hi.room
    have hd : freeBytes [c, d] = d.size := by
      rw [← List.singleton_append, freeBytes_append, freeBytes_one, freeBytes_one, if_pos hk,
        if_neg (by rw [ho.bare]; decide), Nat.zero_add]
    rw [hL, freeBytes_append, freeBytes_append, hd] at hroom
    have hsize : (c.grown d.size).size = c.size + d.size := rfl
    rw [Function.update_self, freeBytes_append, freeBytes_append, freeBytes_one,
      if_neg (show ¬ (c.grown d.size).kind = .free by rw [Cell.grown, ho.bare]; decide), hsize]
    omega
  · rw [hwork.stats, hi.counts]
  · rw [hsame a (.inr ⟨h₁, by omega⟩), hi.bytes a h₁ h₂]

theorem Heap.Idled.resized (hi : h₀.Idled L₀ h) (hS : h₀.Sound P L₀) (hset : h₀.Settled L₀)
    (hr : h.Resized P s b n c₀ L₀ c h' L') : h₀.Resized P s b n c₀ L₀ c h' L' where
  toOutcome := (hi.outcome hS hset).trans hr.toOutcome
  served := hi.served.trans hr.served
  cell := hr.cell
  live := hr.live
  granted := hi.served.mode ▸ hr.granted
  suits := hr.suits
  carried := by
    rw [hr.carried, Heap.carried, Heap.carried, hi.served.mode, hi.mem]
  others := hr.others
  room := hr.room
  counts := hi.counts ▸ hr.counts
  bytes := fun a h₁ h₂ h₃ => by rw [hr.bytes a h₁ h₂ h₃, hi.mem]

theorem Heap.Sound.run_resizeLive (hS : h.Sound P L) (hset : h.Settled L) (hc : h.CellIn L s b c)
    (hk : c.kind = .live) (h0 : sizeFor P n ≠ 0) :
    ∃ r h', resizeLive P b n h = (r, h') ∧
      ((∃ c' L', r = .done (b + P.hdrSize) ∧ h.Resized P s b n c L c' h' L') ∨
        r = .move (c.requested P) (if P.hasCrc then c.crc else 0) ∧ h.Idled L h') := by
  have hu : c.used = true := Cell.used_of_ne (by rw [hk]; decide)
  have hq : c.quarantined = false := by rw [Cell.quarantined, hk]; rfl
  obtain ⟨h₁, hh₁⟩ : ∃ h₁, h₁ = (statNote .realloc n h).2 := ⟨_, rfl⟩
  have hrun₁ : statNote .realloc n h = ((), h₁) := by
    rw [hh₁, statNote, updateStats, Prog.modify_run]
  have hn₁ : h.Counted h₁ := hh₁ ▸ ⟨rfl⟩
  have hi₁ : h.Idled L h₁ := hn₁.idled hS.cursor (by rw [hh₁]; rfl)
  have hS₁ := hS.idled hi₁
  have hset₁ : h₁.Settled L := hset.congr hn₁.kin.spans
  have hc₁ : h₁.CellIn L s b c := ⟨hn₁.kin.spans ▸ hc.1, hc.2⟩
  obtain ⟨v, -, hh⟩ := hS₁.tiled.cell hc₁
  obtain ⟨h₂, pre, post, hrun₂, hL, hn₂, ho, hi⟩ := hS₁.run_take hc₁ hk
  have hfit := hh.fits
  have hslack := hfit.slack_le hk
  have hreq : c.requested P = c.size - P.hdrSize - c.slack := rfl
  have hsz : c.opened.size = c.size := rfl
  rw [resizeLive, Prog.bind_run_of_eq hrun₁, Prog.bind_run_of_eq (hh.run_requestedSize hk),
    Prog.bind_run_of_eq hh.run_payloadCrc, Prog.bind_run_of_eq hh.run_blockSize,
    Prog.ite_run]
  by_cases hle : sizeFor P n ≤ c.size
  · obtain ⟨h', c', L', hrun', hr⟩ := ho.run_trimResized hi hset₁ h0 hle
    rw [if_pos hle, Prog.bind_run_of_eq hrun₂, Prog.bind_run_of_eq hrun']
    exact ⟨_, h', rfl, .inl ⟨c', L', rfl, hi₁.resized hS hset hr⟩⟩
  have hopen := hS₁.open hc₁.1 hL ho.gap.start hu hq
  rw [if_neg hle, Prog.bind_run, Prog.read_run, hh.spanOf, Prog.elim_some]
  have hgrows := hopen.run_growNeighbour (sizeFor P n)
  rw [hsz] at hgrows
  rcases hgrows with hgrow | ⟨d, post', hpost, hdk, hfits, hgrow⟩
  · rw [Prog.bind_run_of_eq hgrow]
    exact ⟨_, h₁, rfl, .inr ⟨rfl, hi₁⟩⟩
  obtain ⟨h₃, h₄, h₅, h₆, L₆, hrun₃, hun₁, hun₂, hrun₄, hend, hrun₅, hrun₆, ho₆, hi₆⟩ :=
    hi.run_merge ho hpost hdk (by omega)
  rw [hsz] at hrun₃ hun₁ hun₂ hrun₄ hend hrun₅
  obtain ⟨h', c', L', hrun', hr⟩ := ho₆.run_trimResized hi₆ hset₁ h0 hfits
  rw [Prog.bind_run_of_eq hgrow, Prog.elim_some]
  have hall : reallocGrow P b c.size d.size (sizeFor P n) (c.requested P)
      (if P.hasCrc then c.crc else 0) n h₁ = (b + P.hdrSize, h') := by
    rw [reallocGrow, Prog.bind_run_of_eq hrun₂, Prog.bind_run_of_eq hrun₃,
      Prog.bind_run_of_eq hun₁, if_pos rfl, Prog.bind_run_of_eq hun₂, if_pos rfl,
      Prog.bind_run_of_eq hrun₄, Prog.bind_run_of_eq hend, Prog.bind_run_of_eq hrun₅,
      Prog.bind_run_of_eq hrun₆]
    exact hrun'
  rw [Prog.bind_run_of_eq hall]
  exact ⟨_, h', rfl, .inl ⟨c', L', rfl, hi₁.resized hS hset hr⟩⟩

end Mars
