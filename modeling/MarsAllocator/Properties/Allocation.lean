import MarsAllocator.Invariant.Wide
import MarsAllocator.Properties.Binning

namespace Mars

open ByteMemory StateProgram Tiling LinkedChain

variable {P : Profile} {h h' : Heap} {s : Span} {b n p : Nat} {c : Cell} {L L' : Span → List Cell}

section Pick

variable {M : Nat → Nat → Prop} {lists : Nat → List Nat} {need : Nat}

theorem Heap.pick_mem (hne : h.pick P lists need ≠ 0) :
    h.pick P lists need ∈ (lists (binOf P need)).take binScanCap ∨
      ∃ j < binCount, binOf P need < j ∧ h.pick P lists need ∈ lists j := by
  rw [Heap.pick] at hne ⊢
  cases hown : h.pickOwn P lists need with
  | some x => exact .inl (List.mem_of_find?_eq_some hown)
  | none =>
    rw [hown, Option.getD_none] at hne
    rw [Option.getD_none]
    cases habove : pickAbove P lists need with
    | none =>
      rw [habove] at hne
      exact absurd rfl hne
    | some j =>
      have hj := List.mem_range.mp (List.mem_of_find?_eq_some habove)
      have hcond := List.find?_some habove
      rw [Bool.and_eq_true, decide_eq_true_eq] at hcond
      rw [habove, Option.map_some, Option.getD_some] at hne
      rw [Option.map_some, Option.getD_some]
      refine .inr ⟨j, hj, hcond.1, ?_⟩
      cases hl : lists j with
      | nil =>
        rw [hl] at hne
        exact absurd rfl hne
      | cons x rest => exact List.mem_cons_self

theorem Heap.Shelves.ne_zero (hS : h.Shelves P M lists) {i : Nat} (hi : i < binCount)
    (hb : b ∈ lists i) : b ≠ 0 := (hS.linked i hi).ne_null hb

theorem Heap.Filed.pick_eq_zero_iff (hF : h.Filed P M) (hS : h.Shelves P M lists) (need : Nat) :
    h.pick P lists need = 0 ↔
      ∀ b n, M b n → need ≤ n → b ∈ (lists (binOf P need)).drop binScanCap := by
  have hlt := binOf_lt P need
  constructor
  · intro h0 b n hb hle
    rw [Heap.pick] at h0
    cases hown : h.pickOwn P lists need with
    | some x =>
      rw [hown, Option.getD_some] at h0
      exact absurd h0 (hS.ne_zero hlt (List.mem_of_mem_take (List.mem_of_find?_eq_some hown)))
    | none =>
      rw [hown, Option.getD_none] at h0
      have hmem := (hS.mem_iff _ (binOf_lt P n) b).mpr ⟨n, hb, rfl⟩
      have hbin : binOf P n = binOf P need := by
        refine le_antisymm (Nat.le_of_not_lt fun habove => ?_) (binOf_mono P hle)
        cases hj : pickAbove P lists need with
        | none =>
          refine List.find?_eq_none.mp hj (binOf P n) (List.mem_range.mpr (binOf_lt P n)) ?_
          rw [Bool.and_eq_true, decide_eq_true_eq, Bool.not_eq_true', List.isEmpty_eq_false_iff]
          exact ⟨habove, List.ne_nil_of_mem hmem⟩
        | some j =>
          have hjlt := List.mem_range.mp (List.mem_of_find?_eq_some hj)
          have hcond := List.find?_some hj
          rw [Bool.and_eq_true, decide_eq_true_eq, Bool.not_eq_true',
            List.isEmpty_eq_false_iff] at hcond
          rw [hj, Option.map_some, Option.getD_some] at h0
          obtain ⟨x, rest, hl⟩ := List.exists_cons_of_ne_nil hcond.2
          rw [hl, List.headD_cons] at h0
          exact hS.ne_zero hjlt (by rw [hl]; exact List.mem_cons_self) h0
      rw [hbin, ← List.take_append_drop binScanCap (lists (binOf P need)), List.mem_append] at hmem
      refine hmem.resolve_left fun htake => ?_
      have hnot := List.find?_eq_none.mp hown b htake
      rw [(hF.node b n hb).extent, decide_eq_true_eq] at hnot
      exact hnot hle
  · intro hall
    by_contra hne
    obtain ⟨n, hb, hle⟩ := hF.pick_fits hS hne
    have hdrop := hall _ n hb hle
    rcases Heap.pick_mem hne with htake | ⟨j, hj, habove, hmem⟩
    · exact List.disjoint_take_drop (hS.linked _ hlt).nodup (le_refl _) htake hdrop
    · obtain ⟨n', hn', hbin'⟩ := (hS.mem_iff j hj _).mp hmem
      obtain ⟨k, hk, hbin⟩ := (hS.mem_iff _ hlt _).mp (List.mem_of_mem_drop hdrop)
      have hsame : n' = k := (hF.node _ n' hn').extent.symm.trans (hF.node _ k hk).extent
      rw [hsame] at hbin'
      omega

theorem Heap.Filed.chain_of (hF : h.Filed P M) (hS : h.Shelves P M lists) {i : Nat}
    (hi : i < binCount) : h.Chain P i (lists i) := by
  refine ⟨hS.linked i hi, fun b hb => ?_⟩
  obtain ⟨n, hn, hbin⟩ := (hS.mem_iff i hi b).mp hb
  exact (hF.node b n hn).member hbin

end Pick

/-- Nothing of the arena has been given up, and the payload checksums there are all match. -/
structure Heap.Undamaged (P : Profile) (h : Heap) : Prop where
  whole : h.lostBytes = 0
  matching : ∀ b ∈ h.tiling P, wordUsed (h.word b) = true → (payloadOk P b h).1 = true

theorem Heap.Sound.wordUsed (hS : h.Sound P L) (hc : h.CellIn L s b c) :
    wordUsed (h.word b) = c.used := by
  obtain ⟨u, -, hh⟩ := hS.tiled.cell hc
  rw [hh.word_eq, Cell.wordUsed_word]

theorem Heap.Undamaged.match (hu : h.Undamaged P) (hS : h.Sound P L) : h.Matching P L :=
  fun s b c hc hused => hu.matching b (hS.mem_tiling.mpr ⟨s, c, hc⟩) ((hS.wordUsed hc).trans hused)

/-- `mm_malloc` finds nothing exactly where every block that would do is behind the sixteen members
of its own bin that the search looks at. -/
theorem malloc_null_iff {σ : Session} (hr : Reached P Action.any σ) (hu : σ.heap.Undamaged P)
    (size : UInt64) (hn : 1 ≤ size.toNat) :
    ∃ nodes, σ.heap.Chain P (binOf P (sizeFor P size.toNat)) nodes ∧
      ((mmMalloc P size.toNat σ.heap).1 = 0 ∧
          (mmMalloc P size.toNat σ.heap).2.lastError = .nomem ↔
        sizeFor P size.toNat = 0 ∨ ∀ x ∈ σ.heap.layout P, x.used = false →
          sizeFor P size.toNat ≤ x.extent → x.start ∈ nodes.drop binScanCap) := by
  obtain ⟨s, L, hU, -⟩ := hr.upright hu.whole
  have hF := hU.sound.filed
  obtain ⟨lists, hS⟩ := hF.shelves
  have hpick := hF.pick_eq_zero_iff hS (sizeFor P size.toNat)
  have hfree : (∀ b n, σ.heap.FreeAt L b n → sizeFor P size.toNat ≤ n →
      b ∈ (lists (binOf P (sizeFor P size.toNat))).drop binScanCap) ↔
      ∀ x ∈ σ.heap.layout P, x.used = false → sizeFor P size.toNat ≤ x.extent →
        x.start ∈ (lists (binOf P (sizeFor P size.toNat))).drop binScanCap := by
    constructor
    · intro hall x hx hfree hle
      obtain ⟨t, b, c, hc, rfl⟩ := hU.sound.mem_layout.mp hx
      exact hall b c.size ⟨t, c, hc, Cell.not_used_iff.mp hfree, rfl⟩ hle
    · rintro hall b n ⟨t, c, hc, hk, rfl⟩ hle
      exact hall _ (hU.sound.mem_layout.mpr ⟨t, b, c, hc, rfl⟩) (Cell.not_used_iff.mpr hk) hle
  refine ⟨_, hF.chain_of hS (binOf_lt P _), ?_⟩
  rw [← hfree, ← hpick]
  obtain ⟨r, h', hrun, hres⟩ :=
    hU.sound.run_mallocUnlocked hU.settled hU.spans_ne hU.brought.fixed hS size.toNat
  have hcall : mmMalloc P size.toNat σ.heap = (r.1, h') := by
    rw [mmMalloc, Prog.bind_run_of_eq hrun]
    rfl
  rw [hcall]
  rcases hres with ⟨hnone, hr, href⟩ | ⟨hsome, hr, t, c, L', ho⟩
  · exact iff_of_true ⟨hr, href.nomem (hu.match hU.sound)⟩ (hnone.resolve_left (by omega))
  · have hp := P.sizes
    refine iff_of_false (fun hnull => ?_) (not_or.mpr ⟨fun hz => ?_, hsome⟩)
    · have h0 : r.1 = 0 := hnull.1
      omega
    · -- a request that has no block size is larger than any block
      have hle := ho.suits.le
      have hlt := (ho.sound.tiled.plan.cell_fits ho.cell).lt
      have hmax : sizeMax = 2 ^ 64 - 1 := rfl
      have hal : alignment = 16 := rfl
      rw [sizeFor] at hz
      split at hz <;> omega

theorem crowd_large : minArena .fast ≤ 18520 := by decide

theorem crowd_fits : 4096 + 18520 < 2 ^ 64 := by decide

/-- Room for seventeen large blocks with a small one behind each. -/
def crowdedBuffer : Buffer .fast :=
  ⟨4096, 18520, page_ne_zero, page_aligned, crowd_large, crowd_fits⟩

/-- One bin gets a block that would do, and then sixteen smaller ones in front of it. -/
def crowd : List Action :=
  [.call (.malloc 1064), .call (.malloc 24)] ++
    (List.replicate 16 [Action.call (.malloc 1048), .call (.malloc 24)]).flatten ++
    .call (.free 4112) :: (List.range 16).map fun i => .call (.free (UInt64.ofNat (5216 + 1088 * i)))

def crowded : Session := (Session.start crowdedBuffer ⟨0⟩ 1).play .fast crowd

theorem crowded_reached : Reached .fast Action.any crowded :=
  Reached.play (.start crowdedBuffer ⟨0⟩ 1) (by decide +kernel)

theorem crowded_undamaged : crowded.heap.Undamaged .fast :=
  ⟨show crowded.heap.lostBytes = 0 by decide +kernel, fun _ _ _ => rfl⟩

/-- `mm_malloc` finds no room although a free block would do. -/
theorem malloc_null_crowded : Reached .fast Action.any crowded ∧ crowded.heap.Undamaged .fast ∧
    (mmMalloc .fast 1064 crowded.heap).1 = 0 ∧
    (mmMalloc .fast 1064 crowded.heap).2.lastError = .nomem ∧ sizeFor .fast 1064 ≠ 0 ∧
    ∃ x ∈ crowded.heap.layout .fast, x.used = false ∧ sizeFor .fast 1064 ≤ x.extent :=
  ⟨crowded_reached, crowded_undamaged, by decide +kernel, by decide +kernel, by decide,
    ⟨4104, 1072, false, false⟩, by decide +kernel, rfl, by decide⟩

theorem malloc_null_iff_crowded :
    ∃ nodes, crowded.heap.Chain .fast (binOf .fast (sizeFor .fast 1064)) nodes ∧
      ((mmMalloc .fast 1064 crowded.heap).1 = 0 ∧
          (mmMalloc .fast 1064 crowded.heap).2.lastError = .nomem ↔
        sizeFor .fast 1064 = 0 ∨ ∀ x ∈ crowded.heap.layout .fast, x.used = false →
          sizeFor .fast 1064 ≤ x.extent → x.start ∈ nodes.drop binScanCap) := by
  have hiff := malloc_null_iff crowded_reached crowded_undamaged 1064 (by decide)
  rwa [show (1064 : UInt64).toNat = 1064 by decide] at hiff

/-- A block for `n` bytes at `p` came out of the free space between `h` and `h'`. -/
structure Heap.Allocated (P : Profile) (n p : Nat) (h h' : Heap) : Prop where
  block : ∃ b extent, p = b + P.hdrSize ∧ ⟨b, extent, true, false⟩ ∈ h'.layout P ∧
    (requestedSize P b h').1 = n ∧ h'.freeSpace P + extent = h.freeSpace P

theorem Heap.HandedOut.allocated (ho : h.HandedOut P s b n c L h' L') (hS : h.Sound P L)
    (hs : h.spans = [s]) (hm : h.mode = .managed) : h.Allocated P n (b + P.hdrSize) h' := by
  have hs' : h'.spans = [s] := ho.served.kin.spans.trans hs
  obtain ⟨u, -, hh⟩ := ho.sound.tiled.cell ho.cell
  have hused : c.used = true := Cell.used_of_ne (by rw [ho.live]; decide)
  have hq : c.quarantined = false := by rw [Cell.quarantined, ho.live]; rfl
  refine ⟨b, c.size, rfl, ho.sound.mem_layout.mpr ⟨s, b, c, ho.cell, by rw [hused, hq]⟩, ?_, ?_⟩
  · rw [hh.run_requestedSize ho.live, ho.granted, Cell.grant, if_neg (by rw [hm]; decide)]
  · have hroom := ho.room
    rw [ho.sound.freeSpace, hS.freeSpace, hs', hs]
    simpa using hroom

/-- What `mm_memalign` does to an undamaged arena that its caller brought. -/
theorem memalign_exact {σ : Session} (hr : Reached P Action.any σ) (hu : σ.heap.Undamaged P)
    (hm : σ.heap.mode = .managed) (align size : UInt64) (ha : align.toNat = 2 ^ Nat.log2 align.toNat)
    (ha' : 16 < align.toNat) :
    ∃ p h', mmMemalign P align.toNat size.toNat σ.heap = (p, h') ∧
      h'.Exact P ∧ (checkHeapUnlocked P h').1 = .ok ∧
      (p = 0 ∧ h'.lastError = .nomem ∧ h'.layout P = σ.heap.layout P ∨
        p % align.toNat = 0 ∧ σ.heap.Allocated P size.toNat p h') ∧
      (2 * align.toNat + P.minBlock < 2 ^ 64 →
        (p = 0 ↔ (mmMalloc P (size.toNat + (2 * align.toNat + P.minBlock)) σ.heap).1 = 0)) ∧
      ∀ raw < 2 ^ 64, P.minBlock ≤ usub (alignedIn P align.toNat raw) raw := by
  obtain ⟨s, L, hU, -⟩ := hr.upright hu.whole
  have hlt := align.toNat_lt
  obtain ⟨p, h', L', hrun, hres, hiff⟩ := hU.sound.run_memalignUnlocked hU.settled hU.spans_ne
    hU.brought.fixed hU.user hU.origin (k := Nat.log2 align.toNat) (by omega) (by omega) size.toNat_lt
  rw [← ha] at hrun hres hiff
  have hU' : h'.Upright P s L' := by
    rcases hres with ⟨-, hd⟩ | ⟨t, b, c, -, -, ho⟩
    · exact hU.step hd.toOutcome hd.served (fun _ _ _ hx => hx.elim) fun _ _ _ hx => hx.elim
    · exact hU.handedOut ho
  refine ⟨p, h', hrun, hU'.exact, hU'.checked, ?_, hiff, fun raw hraw => ?_⟩
  · rcases hres with ⟨rfl, hd⟩ | ⟨t, b, c, rfl, hmod, ho⟩
    · exact .inl ⟨rfl, hd.nomem (hu.match hU.sound),
        hd.spares.layout hU.sound hd.sound hd.served.kin.spans⟩
    · have hs : σ.heap.spans = [t] := by
        rw [hU.brought.spans, hU'.span_eq ho.cell.1]
      exact .inr ⟨hmod, ho.allocated hU.sound hs hm⟩
  · exact (alignedIn_spec P raw ha' (by
      have := Nat.pow_le_pow_right (show 0 < 2 by decide)
        (show Nat.log2 align.toNat ≤ 63 by
          have := (Nat.log2_lt (by omega)).mpr hlt
          omega)
      omega) hraw).2.1

theorem freshHeap_undamaged (P : Profile) : (freshHeap P).Undamaged P := by
  obtain ⟨-, hl, -, hS⟩ := Session.start_sound (Buffer.kilo P) (by cases P <;> decide) ⟨0⟩ 1
  refine ⟨hl, fun b hb hused => ?_⟩
  obtain ⟨s, c, hc⟩ := hS.mem_tiling.mp hb
  rw [(at_one.mp hc.2).2] at hc
  exact absurd ((hS.wordUsed hc).symm.trans hused) Bool.false_ne_true

theorem memalign_freshHeap : ∃ p h', mmMemalign .hardened 64 100 (freshHeap .hardened) = (p, h') ∧
    h'.Exact .hardened ∧ (checkHeapUnlocked .hardened h').1 = .ok ∧
    (p = 0 ∧ h'.lastError = .nomem ∧ h'.layout .hardened = (freshHeap .hardened).layout .hardened ∨
      p % 64 = 0 ∧ (freshHeap .hardened).Allocated .hardened 100 p h') ∧
    (2 * 64 + Profile.hardened.minBlock < 2 ^ 64 →
      (p = 0 ↔ (mmMalloc .hardened (100 + (2 * 64 + Profile.hardened.minBlock))
        (freshHeap .hardened)).1 = 0)) ∧
    ∀ raw < 2 ^ 64, Profile.hardened.minBlock ≤ usub (alignedIn .hardened 64 raw) raw :=
  memalign_exact (.start (Buffer.kilo .hardened) ⟨0⟩ 1) (freshHeap_undamaged .hardened)
    (by decide +kernel) 64 100 (by decide) (by decide)

end Mars
