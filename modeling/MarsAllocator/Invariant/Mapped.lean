import MarsAllocator.Invariant.Adopted
import MarsAllocator.Invariant.Alloc
import MarsAllocator.Model.Growth
import MarsAllocator.Steps.Loops

namespace Mars

open ByteMemory StateProgram

variable {P : Profile} {h h' h₁ : Heap} {s t : Span} {a b n need : Nat} {c : Cell}
  {L L' : Span → List Cell} {X : Nat → Prop}

theorem roundUp_pow {k : Nat} (hn : n + (2 ^ k - 1) < 2 ^ 64) :
    n ≤ roundUp n (2 ^ k) ∧ roundUp n (2 ^ k) ≤ n + (2 ^ k - 1) := by
  rw [roundUp, uadd_of_lt hn, and_not_mask hn]
  have := Nat.and_le_right (n := n + (2 ^ k - 1)) (m := 2 ^ k - 1)
  omega

theorem roundDown_le (x unit : Nat) : roundDown x unit ≤ x := Nat.and_le_left

theorem SpanKind.chunk_ne_user : SpanKind.chunk ≠ .user := by decide

theorem SpanKind.large_ne_user : SpanKind.large ≠ .user := by decide

/-- The platform has been asked, and that is all. -/
def Heap.Asked (h h' : Heap) : Prop := h' = { h with supply := h'.supply }

theorem mapping_fits {raw : Nat} (h₁ : ¬ uadd P.blockOffset need < need)
    (h₂ : ¬ roundUp (uadd P.blockOffset need) chunkSize < uadd P.blockOffset need)
    (h₃ : ¬ mappingFor P need < roundUp (uadd P.blockOffset need) chunkSize)
    (h₄ : raw + mappingFor P need ≤ 2 ^ 56) :
    raw ≤ roundUp raw chunkSize ∧ roundUp raw chunkSize % chunkSize = 0 ∧
      P.blockOffset + need ≤ roundUp (uadd P.blockOffset need) chunkSize ∧
      roundUp raw chunkSize + roundUp (uadd P.blockOffset need) chunkSize ≤
        raw + mappingFor P need := by
  have hc : chunkSize = 2 ^ 21 := rfl
  have hp := P.sizes
  have hoff : P.blockOffset < 2 ^ 16 := by cases P <;> decide
  have hu : uadd P.blockOffset need < 2 ^ 64 := uadd_lt _ _
  have hr : roundUp (uadd P.blockOffset need) chunkSize < 2 ^ 64 :=
    lt_of_le_of_lt Nat.and_le_left (uadd_lt _ _)
  rw [mappingFor] at *
  generalize hbytes : roundUp (uadd P.blockOffset need) chunkSize = bytes at *
  have hsum : uadd bytes chunkSize = bytes + chunkSize := by
    rw [uadd] at h₃ ⊢
    omega
  have hadd : uadd P.blockOffset need = P.blockOffset + need := by
    rw [uadd] at h₁ ⊢
    omega
  rw [hsum] at h₄ ⊢
  rw [hadd] at h₂
  obtain ⟨hraw₁, hraw₂⟩ := roundUp_pow (n := raw) (k := 21) (by omega)
  rw [hc] at *
  exact ⟨hraw₁, roundUp_mod_pow raw, by omega, by omega⟩

theorem Heap.Sound.beyond (hS : h.Sound P L) (hk : h.Kin h') (hbins : h'.bins = h.bins)
    (hbits : h'.binBitmap = h.binBitmap) (hcur : h'.Cursor L)
    (hm : ∀ t ∈ h.spans, ∀ a, t.lo ≤ a → a < t.hi → h'.mem.byte a = h.mem.byte a) :
    h'.Sound P L := by
  have hplan := hS.tiled.plan
  have ht : h'.Tiled P True L := hS.tiled.kin hk fun t ht a ha => by
    have hb := ha.bounds
    have := hplan.ends t ht
    exact hm t ht a hb.1 (by omega)
  refine ⟨ht, ?_, hcur, hS.narrow.of_spans hk.spans⟩
  rw [freeAt_kin hk.spans]
  refine ht.filed (fun x n hx => by rwa [freeAt_kin hk.spans]) hS.filed hk hbins hbits fun a ha => ?_
  obtain ⟨x, n, ⟨t, d, hd, -, rfl⟩, h₁, h₂⟩ := ha
  have hb := hplan.bounds hd
  have := (hplan.cell_fits hd).min_le
  have := P.sizes
  exact hm t hd.1 a (by omega) (by omega)

theorem Heap.Kept.bounds (hp : h.Plan P L) (ha : h.Kept P L X a) :
    ∃ t ∈ h.spans, t.lo ≤ a ∧ a < t.hi := by
  obtain ⟨t, x, d, hd, -, -, h₁, h₂⟩ := ha
  have hb := hp.bounds hd
  have := d.bodyEnd_le P
  exact ⟨t, hd.1, by omega, by omega⟩

/-- The arena has grown by the span `s`, all of it one free block of `need` bytes or more. -/
structure Heap.Grew (P : Profile) (s : Span) (need : Nat) (h : Heap) (L : Span → List Cell)
    (h' : Heap) : Prop where
  eq : h' = { h with
    mem := h'.mem, registry := h'.registry, spans := s :: h.spans, spanCount := h.spanCount + 1,
    totalBytes := h.totalBytes + (s.hi - s.lo), nextIndexBase := h'.nextIndexBase, bins := h'.bins,
    binBitmap := h'.binBitmap, scrubSpan := h'.scrubSpan, scrubAt := h'.scrubAt,
    freshSpans := h'.freshSpans, fresh := h'.fresh, trimAfter := h'.trimAfter, supply := h'.supply }
  sound : h'.Sound P (Function.update L s [Cell.freed (s.hi - s.lo)])
  spares : ∀ X, h.Spares P X L h' (Function.update L s [Cell.freed (s.hi - s.lo)])
  fits : need ≤ s.hi - s.lo
  origin : (s.lo + P.hdrSize) % 16 = 0
  mapped : s.kind ≠ .user
  low : s.hi ≤ 2 ^ 56
  new : s ∉ h.spans

theorem Heap.Grew.spans (hg : h.Grew P s need L h') : h'.spans = s :: h.spans := by rw [hg.eq]

theorem Heap.Grew.cell (hg : h.Grew P s need L h') :
    h'.CellIn (Function.update L s [Cell.freed (s.hi - s.lo)]) s s.lo (Cell.freed (s.hi - s.lo)) := by
  refine ⟨?_, ?_⟩
  · rw [hg.spans]
    exact List.mem_cons_self
  · rw [Function.update_self]
    exact at_one.mpr ⟨rfl, rfl⟩

theorem Heap.Grew.free (hg : h.Grew P s need L h') :
    h'.FreeAt (Function.update L s [Cell.freed (s.hi - s.lo)]) s.lo (s.hi - s.lo) :=
  ⟨s, _, hg.cell, rfl, rfl⟩

theorem Heap.Sound.run_adoptMapped (hS : h.Sound P L) {raw bytes size : Nat} {kind : SpanKind}
    (hk : kind ≠ .user) (hmin : P.minBlock ≤ need) (hd : need % 16 = 0)
    (hraw : 0 < raw) (hlow : raw + size ≤ 2 ^ 56)
    (hap : ∀ t ∈ h.spans, raw + size ≤ t.lo ∨ t.hi ≤ raw) {base : Nat} (hbase : raw ≤ base)
    (hal : base % chunkSize = 0) (hfit : P.blockOffset + need ≤ bytes)
    (hend : base + bytes ≤ raw + size) (rest : List (Option Nat)) :
    ∃ s h', (do
        let s ← Prog.read fun h => mappedSpan P base bytes h.nextIndexBase h.self kind
        setFresh s true
        spanAdopt P s
        countFresh
        pure (some s) : HeapM (Option Span))
          { h with supply := rest, mem := h.mem.store raw size 0 } = (some s, h') ∧
      s.kind = kind ∧ h.Grew P s need L h' := by
  have hc : chunkSize = 2 ^ 21 := rfl
  have ha : alignment = 16 := rfl
  obtain ⟨g, hg⟩ : ∃ g : Heap, g = { h with supply := rest, mem := h.mem.store raw size 0 } :=
    ⟨_, rfl⟩
  obtain ⟨s, hs⟩ : ∃ s, s = mappedSpan P base bytes g.nextIndexBase g.self kind := ⟨_, rfl⟩
  have hlo : s.lo = base + P.blockOffset := by rw [hs]; rfl
  have hhi : s.hi = base + P.blockOffset + (bytes - P.blockOffset - (bytes - P.blockOffset) % 16) := by
    rw [hs]
    rfl
  have hkind : s.kind = kind := by rw [hs]; rfl
  obtain ⟨g₁, hg₁⟩ : ∃ g₁, g₁ = (setFresh s true g).2 := ⟨_, rfl⟩
  have hkin : h.Kin g₁ := hg₁ ▸ hg ▸ ⟨rfl, rfl, rfl⟩
  have hS₁ : g₁.Sound P L := by
    refine hS.beyond hkin (by rw [hg₁, hg]; rfl) (by rw [hg₁, hg]; rfl)
      (hS.cursor.congr hkin.spans (by rw [hg₁, hg]; rfl) (by rw [hg₁, hg]; rfl)) fun t ht a h₁ h₂ => ?_
    have := hap t ht
    rw [hg₁, hg]
    exact Memory.byte_store_of_notMem (by omega)
  have hv : g₁.Vacant P s := by
    refine ⟨by omega, by omega, by omega, by omega, by omega, fun t ht => ?_, fun hu => ?_⟩
    · have := hap t (hkin.spans ▸ ht)
      have := (hS.tiled.ground t (hkin.spans ▸ ht)).lo_lt
      omega
    · exact absurd (hkind.symm.trans hu) hk
  obtain ⟨h₁, hrun, heq, hsound, hspares⟩ := hS₁.run_spanAdopt hv
  have hspares₀ : h.Spares P (fun _ => False) L g₁ L := by
    refine ⟨fun t x d _ _ => by rw [Heap.CellIn, hkin.spans]; rfl, fun a ha => ?_⟩
    obtain ⟨t, ht, h₁, h₂⟩ := ha.bounds hS.tiled.plan
    have := hap t ht
    rw [hg₁, hg]
    exact Memory.byte_store_of_notMem (by omega)
  refine ⟨s, (countFresh h₁).2, ?_, hkind, ⟨?_, ?_, fun X => ?_, by omega, ?_, hkind ▸ hk, by omega,
    fun hin => ?_⟩⟩
  · rw [← hg, Prog.bind_run, Prog.read_run, ← hs, Prog.bind_run, ← hg₁, Prog.bind_run_of_eq hrun]
    rfl
  · have hrest := g₁.listed_rest s
    rw [heq, hrest, hg₁, hg]
    rfl
  · have hk₂ : h₁.Kin (countFresh h₁).2 := ⟨rfl, rfl, rfl⟩
    exact hsound.same hk₂ rfl rfl rfl (hsound.cursor.congr rfl rfl rfl)
  · have := (hspares₀.mono fun _ hx => hx.elim).trans (hspares X)
    exact this.congr rfl rfl
  · have hoff : (P.blockOffset + P.hdrSize) % 16 = 0 := by cases P <;> decide
    rw [hc] at hal
    omega
  · have := hv.apart s (hkin.spans ▸ hin)
    have := hv.min_le
    have := P.sizes
    omega

theorem Heap.Sound.run_mapSpan (hS : h.Sound P L) (ho : h.Offers (mappingFor P need))
    (hmin : P.minBlock ≤ need) (hd : need % 16 = 0) {kind : SpanKind} (hk : kind ≠ .user) :
    ∃ r h', mapSpan P need kind h = (r, h') ∧
      (r = none ∧ h.Asked h' ∨
        ∃ s, r = some s ∧ s.kind = kind ∧ h.Grew P s need L h') := by
  rw [mapSpan, Prog.bind_run, Prog.read_run, Prog.ite_run]
  split
  · exact ⟨none, h, rfl, .inl ⟨rfl, rfl⟩⟩
  rename_i h₁
  obtain ⟨-, h₁⟩ := not_or.mp h₁
  rw [Prog.ite_run]
  split
  · exact ⟨none, h, rfl, .inl ⟨rfl, rfl⟩⟩
  rename_i h₂
  by_cases h₃ : mappingFor P need < roundUp (uadd P.blockOffset need) chunkSize
  · have hrun : mapChunkAligned (roundUp (uadd P.blockOffset need) chunkSize) h = (0, h) := by
      rw [mapChunkAligned]
      exact congrFun (if_pos h₃) h
    rw [Prog.bind_run_of_eq hrun, if_pos rfl]
    exact ⟨none, h, rfl, .inl ⟨rfl, rfl⟩⟩
  have hchunk : mapChunkAligned (roundUp (uadd P.blockOffset need) chunkSize) h =
      (if (sysMap (mappingFor P need) h).1 = 0 then 0
        else roundUp (sysMap (mappingFor P need) h).1 chunkSize, (sysMap (mappingFor P need) h).2) := by
    rw [mapChunkAligned]
    refine (congrFun (if_neg h₃) h).trans ?_
    rfl
  have hnone : ∀ rest, sysMap (mappingFor P need) h = (0, { h with supply := rest }) →
      ∃ r h', (mapChunkAligned (roundUp (uadd P.blockOffset need) chunkSize) >>= fun base =>
        if base = 0 then pure none else do
          let s ← Prog.read fun h => mappedSpan P base (roundUp (uadd P.blockOffset need) chunkSize)
            h.nextIndexBase h.self kind
          setFresh s true
          spanAdopt P s
          countFresh
          pure (some s)) h = (r, h') ∧
        (r = none ∧ h.Asked h' ∨
          ∃ s, r = some s ∧ s.kind = kind ∧ h.Grew P s need L h') := by
    intro rest hr
    rw [hr, if_pos rfl] at hchunk
    rw [Prog.bind_run_of_eq hchunk, if_pos rfl]
    exact ⟨none, _, rfl, .inl ⟨rfl, rfl⟩⟩
  rcases hsup : h.supply with _ | ⟨_ | raw, rest⟩
  · have hrun : sysMap (mappingFor P need) h = (0, h) := by rw [sysMap, hsup]
    exact hnone h.supply hrun
  · exact hnone rest (by rw [sysMap, hsup])
  · obtain ⟨hraw, hlow, hap⟩ := ho raw (by rw [hsup]; rfl)
    obtain ⟨hb₁, hb₂, hb₃, hb₄⟩ := mapping_fits h₁ h₂ h₃ hlow
    have hsys : sysMap (mappingFor P need) h =
        (raw, { h with supply := rest, mem := h.mem.store raw (mappingFor P need) 0 }) := by
      rw [sysMap, hsup]
    have hne : roundUp raw chunkSize ≠ 0 := by omega
    rw [hsys] at hchunk
    replace hchunk := hchunk.trans (congrArg (·, _) (if_neg hraw.ne'))
    obtain ⟨s, h', hrun, hkind, hg⟩ := hS.run_adoptMapped hk hmin hd hraw hlow hap hb₁ hb₂ hb₃ hb₄ rest
    rw [Prog.bind_run_of_eq hchunk, if_neg hne]
    exact ⟨some s, h', hrun, .inr ⟨s, rfl, hkind, hg⟩⟩

end Mars
