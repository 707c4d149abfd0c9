import MarsAllocator.Steps.BinChecks
import Mathlib.Data.List.Perm.Subperm

namespace Mars

open ByteMemory StateProgram Tiling LinkedChain

variable {P : Profile} {h : Heap} {blocks : Span → List Nat}

/-- The books of an arena are in order, whatever its bytes, its bins and `lost_bytes` hold. -/
structure Heap.Shaped (h : Heap) : Prop where
  live : h.spans ≠ []
  distinct : h.spans.Nodup
  proper : ∀ s ∈ h.spans, h.Proper s
  total : h.totalBytes = (h.spans.map fun s => s.hi - s.lo).sum

/-- The blocks tile every span, agree with each other, and account for what is lost. -/
structure Heap.TilingSound (P : Profile) (h : Heap) (blocks : Span → List Nat) : Prop where
  spans : ∀ s ∈ h.spans, h.SpanSound P s (blocks s)
  lost : h.lostBytes = h.lostIn (h.spans.flatMap blocks)

def Heap.BitmapSound (h : Heap) : Prop := ∀ i < binCount, (h.bit i = true ↔ h.bins i ≠ 0)

/-- What `mm_check_heap` is documented to establish. -/
def Heap.Exact (P : Profile) (h : Heap) : Prop :=
  ∃ blocks, h.TilingSound P blocks ∧ h.BitmapSound ∧ ∀ i < binCount, ∃ nodes, h.Chain P i nodes ∧
    nodes.Nodup ∧ ∀ b, b ∈ nodes ↔ b ∈ h.spans.flatMap blocks ∧ h.filedAs P i b = true

/-- Every bin is as long as the tiling says, but one holds a header that is no block of the tiling
in place of a free block that is. -/
def Heap.StandIn (P : Profile) (h : Heap) : Prop :=
  ∃ blocks, h.TilingSound P blocks ∧ h.BitmapSound ∧
    (∀ i < binCount, ∃ nodes, h.Chain P i nodes ∧
      nodes.length = (h.spans.flatMap blocks).countP (h.filedAs P i)) ∧
    ∃ i < binCount, ∃ nodes, h.Chain P i nodes ∧ ∃ b ∈ nodes, b ∉ h.spans.flatMap blocks

theorem Heap.Chain.unique {i : Nat} {nodes nodes' : List Nat} (hc : h.Chain P i nodes)
    (hc' : h.Chain P i nodes') : nodes = nodes' := hc.linked.unique hc'.linked

theorem Heap.Chain.nodup {i : Nat} {nodes : List Nat} (hc : h.Chain P i nodes) : nodes.Nodup :=
  hc.linked.nodup

theorem Heap.TilingSound.unique {blocks' : Span → List Nat} (ht : h.TilingSound P blocks)
    (ht' : h.TilingSound P blocks') :
    h.spans.flatMap blocks = h.spans.flatMap blocks' := by
  have he : ∀ s ∈ h.spans, blocks s = blocks' s := fun s hs =>
    (ht.spans s hs).tiled.unique (ht'.spans s hs).tiled
  rw [List.flatMap_def, List.flatMap_def, List.map_congr_left he]

theorem Heap.TilingSound.nodup (hs : h.Shaped) (ht : h.TilingSound P blocks) :
    (h.spans.flatMap blocks).Nodup := by
  refine List.nodup_flatMap.mpr ⟨fun s hm => (ht.spans s hm).tiled.nodup, ?_⟩
  refine (List.Pairwise.and_mem.mp hs.distinct).imp fun {s s'} hne => ?_
  obtain ⟨hm, hm', hne⟩ := hne
  intro b hb hb'
  have hspan := ((ht.spans s hm).stands b hb).header.span
  have hspan' := ((ht.spans s' hm').stands b hb').header.span
  exact hne (Option.some.inj (hspan.symm.trans hspan'))

theorem Heap.TilingSound.length_le (hs : h.Shaped) (ht : h.TilingSound P blocks) :
    (h.spans.flatMap blocks).length * P.minBlock ≤ h.totalBytes := by
  rw [hs.total]
  exact length_flatMap_mul_le fun s hm => (ht.spans s hm).length_le

theorem checkHeap_value (hs : h.Shaped) : (checkHeapUnlocked P h).1 = .ok ↔
    ∃ t, (checkSpans P h.spans {} h).1 = .ok t ∧ t.lost = h.lostBytes ∧
      ∀ i < binCount, BinChecks P h t.perBin i := by
  have : Observes (Prog.read Heap.spans) := observes_read fun _ _ _ _ _ => rfl
  have : Observes (Prog.read Heap.lostBytes) := observes_read fun _ _ _ _ _ => rfl
  have hlive : (arenaLive h).1 = true := by
    change (!h.spans.isEmpty) = true
    simp [hs.live]
  rw [checkHeapUnlocked, fst_bind, fst_ite, hlive, if_neg (by decide), fst_bind, fst_bind]
  change (Prog.either (checkSpans P h.spans {} h).1 _ _ h).1 = _ ↔ _
  rcases hc : (checkSpans P h.spans {} h).1 with status | t
  · rw [Prog.either_error]
    have hne := checkSpans_error hc
    exact iff_of_false (by simpa [Prog.pure_run] using hne) (by simp)
  · rw [Prog.either_ok, fst_bind, fst_ite]
    change (if t.lost ≠ h.lostBytes then _ else _) = _ ↔ _
    by_cases hl : t.lost = h.lostBytes
    · rw [if_neg (not_not.mpr hl), binsCheck_ok]
      exact ⟨fun hb => ⟨t, rfl, hl, hb⟩, fun ⟨t', ht', _, hb⟩ => Except.ok.inj ht' ▸ hb⟩
    · rw [if_pos hl]
      refine iff_of_false (by simp [failWith, Prog.bind_run, Prog.pure_run]) ?_
      rintro ⟨t', ht', hl', -⟩
      exact hl (Except.ok.inj ht' ▸ hl')

theorem check_of_counts (hs : h.Shaped) (ht : h.TilingSound P blocks) (hbit : h.BitmapSound)
    (hbins : ∀ i < binCount, ∃ nodes, h.Chain P i nodes ∧
      nodes.length = (h.spans.flatMap blocks).countP (h.filedAs P i)) :
    (checkHeapUnlocked P h).1 = .ok := by
  obtain ⟨t, hok, hlost, hper⟩ := checkSpans_complete (t := {}) hs.proper ht.spans
  refine (checkHeap_value hs).mpr ⟨t, hok, ?_, fun i hi => ⟨hbit i hi, ?_⟩⟩
  · rw [hlost, ht.lost]
    exact Nat.zero_add _
  · obtain ⟨nodes, hc, hlen⟩ := hbins i hi
    refine ⟨nodes, hc, ?_, ?_⟩
    · have hle := ht.length_le hs
      have hmin := P.sizes
      have hdiv := (Nat.le_div_iff_mul_le (show 0 < P.minBlock by omega)).mpr hle
      have hcount := List.countP_le_length (p := h.filedAs P i) (l := h.spans.flatMap blocks)
      omega
    · rw [hlen, hper]
      exact (Nat.zero_add _).symm

theorem exact_check (hs : h.Shaped) (he : h.Exact P) : (checkHeapUnlocked P h).1 = .ok := by
  obtain ⟨blocks, ht, hbit, hbins⟩ := he
  refine check_of_counts hs ht hbit fun i hi => ?_
  obtain ⟨nodes, hc, hnd, hmem⟩ := hbins i hi
  have hperm : nodes.Perm ((h.spans.flatMap blocks).filter (h.filedAs P i)) :=
    (List.perm_ext_iff_of_nodup hnd ((ht.nodup hs).filter _)).mpr fun b => by
      rw [hmem, List.mem_filter]
  exact ⟨nodes, hc, by rw [hperm.length_eq, List.countP_eq_length_filter]⟩

theorem check_counts (hs : h.Shaped) (hok : (checkHeapUnlocked P h).1 = .ok) :
    ∃ blocks, h.TilingSound P blocks ∧ h.BitmapSound ∧
      ∀ i < binCount, ∃ nodes, h.Chain P i nodes ∧
        nodes.length = (h.spans.flatMap blocks).countP (h.filedAs P i) := by
  obtain ⟨t, hspans, hlost, hbins⟩ := (checkHeap_value hs).mp hok
  choose! blocks hblocks using checkSpans_sound hs.proper hspans
  obtain ⟨t', hok', hlost', hper⟩ := checkSpans_complete (t := {}) hs.proper hblocks
  obtain rfl : t = t' := Except.ok.inj (hspans.symm.trans hok')
  refine ⟨blocks, ⟨hblocks, ?_⟩, fun i hi => (hbins i hi).bitmap, fun i hi => ?_⟩
  · rw [← hlost, hlost']
    exact Nat.zero_add _
  · obtain ⟨nodes, hc, -, hlen⟩ := (hbins i hi).chain
    refine ⟨nodes, hc, ?_⟩
    rw [hlen, hper]
    exact Nat.zero_add _

theorem Heap.StandIn.not_exact (hi : h.StandIn P) : ¬ h.Exact P := by
  obtain ⟨blocks, ht, -, -, i, hi, nodes, hc, b, hb, hout⟩ := hi
  rintro ⟨blocks', ht', -, hbins⟩
  obtain ⟨nodes', hc', -, hmem⟩ := hbins i hi
  obtain rfl := hc.unique hc'
  exact hout (ht.unique ht' ▸ ((hmem b).mp hb).1)

theorem Heap.StandIn.checked (hs : h.Shaped) (hi : h.StandIn P) :
    (checkHeapUnlocked P h).1 = .ok := by
  obtain ⟨blocks, ht, hbit, hbins, -⟩ := hi
  exact check_of_counts hs ht hbit hbins

theorem exact_of_counts (ht : h.TilingSound P blocks) (hbit : h.BitmapSound)
    (hbins : ∀ i < binCount, ∃ nodes, h.Chain P i nodes ∧
      nodes.length = (h.spans.flatMap blocks).countP (h.filedAs P i))
    (hon : ∀ i < binCount, ∀ nodes, h.Chain P i nodes → ∀ b ∈ nodes, b ∈ h.spans.flatMap blocks) :
    h.Exact P := by
  refine ⟨blocks, ht, hbit, fun i hi => ?_⟩
  obtain ⟨nodes, hc, hlen⟩ := hbins i hi
  have hsub : nodes ⊆ (h.spans.flatMap blocks).filter (h.filedAs P i) := fun b hb =>
    List.mem_filter.mpr ⟨hon i hi nodes hc b hb, (hc.members b hb).filed⟩
  have hperm : nodes.Perm ((h.spans.flatMap blocks).filter (h.filedAs P i)) := by
    refine (List.subperm_of_subset hc.nodup hsub).perm_of_length_le ?_
    rw [hlen, List.countP_eq_length_filter]
  exact ⟨nodes, hc, hc.nodup, fun b => by rw [hperm.mem_iff, List.mem_filter]⟩

/-- `mm_check_heap` says exactly what it is documented to say, unless a header outside the tiling
stands in for a free block. -/
theorem check_heap_exact_iff (hs : h.Shaped) :
    ((checkHeapUnlocked P h).1 = .ok ↔ h.Exact P) ↔ ¬ h.StandIn P := by
  constructor
  · intro hiff hi
    exact hi.not_exact (hiff.mp (hi.checked hs))
  · intro hno
    refine ⟨fun hok => ?_, exact_check hs⟩
    obtain ⟨blocks, ht, hbit, hbins⟩ := check_counts hs hok
    refine exact_of_counts ht hbit hbins fun i hi nodes hc b hb => ?_
    by_contra hout
    exact hno ⟨blocks, ht, hbit, hbins, i, hi, nodes, hc, b, hb, hout⟩

def kilobit : Span := ⟨16, 112, 0, 0, 0, 0, .user⟩

/-- A block in use with a free header of 32 bytes in its payload, and behind it the free block of 32
bytes that ought to be in the bin which holds that header. -/
def standIn : Heap := { Heap.blank ((((Memory.mk 0).store 16 8 (mkWord 64 0 false true true)).store 32 8
    (mkWord 32 0 false true false)).store 80 8 (mkWord 32 0 false true false) |>.store 104 8 32) with
  registry := [kilobit]
  spans := [kilobit]
  spanCount := 1
  totalBytes := 96
  bins := fun i => if i = binOf .fast 32 then 32 else 0
  binBitmap := fun w => if w = 0 then 1#64 <<< binOf .fast 32 else 0 }

theorem standIn_shaped : standIn.Shaped := by
  refine ⟨by decide, by decide, fun s hs => ?_, rfl⟩
  obtain rfl : s = kilobit := List.mem_singleton.mp hs
  refine ⟨fun p hlo hhi => ?_, by decide, by decide⟩
  change [kilobit].find? _ = _
  rw [List.find?_cons]
  simp [hlo, hhi]

theorem standIn_tiled : Tiles standIn.extent 112 16 [16, 80] := by
  have h₁ : standIn.extent 16 = 64 := by decide +kernel
  have h₂ : standIn.extent 80 = 32 := by decide +kernel
  refine .block (h₁ ▸ by decide) ?_
  rw [h₁]
  refine .block (h₂ ▸ by decide) ?_
  rw [h₂]
  exact .done

theorem standIn_stands : ∀ b ∈ [16, 80], standIn.Stands .fast kilobit b := by
  intro b hb
  have hk : ∀ b ∈ [16, 80], (headerOk .fast b standIn).1 = true := by decide +kernel
  have hin : ∀ b ∈ [16, 80], 16 ≤ b ∧ b < 112 := by decide
  have ht : ∀ b ∈ [16, 80], wordUsed (standIn.word b) = false →
      standIn.word (b + standIn.extent b - 8) = standIn.extent b := by decide +kernel
  have hs := (standIn_shaped.proper kilobit (by decide)).found
  exact ⟨(headerOk_found hs (hin b hb).1 (hin b hb).2).mp (hk b hb), rfl, ht b hb⟩

theorem standIn_chain {i : Nat} (hi : i < binCount) :
    standIn.Chain .fast i (if i = binOf .fast 32 then [32] else []) := by
  by_cases he : i = binOf .fast 32
  · subst he
    have hb : standIn.bins (binOf .fast 32) = 32 := by decide +kernel
    have hm : standIn.Member .fast (binOf .fast 32) 32 := ⟨by decide +kernel, by decide +kernel⟩
    have hn : standIn.link .fast .next 32 = 0 := by decide +kernel
    rw [if_pos rfl, Heap.Chain, hb, chainFrom_cons (by decide)]
    refine ⟨hm, by decide +kernel, [], rfl, ?_⟩
    rw [hn]
    exact chainFrom_zero.mpr rfl
  · have hb : standIn.bins i = 0 := if_neg he
    rw [if_neg he, Heap.Chain, hb]
    exact chainFrom_zero.mpr rfl

theorem standIn_standIn : standIn.StandIn .fast := by
  have hbit : ∀ i < binCount, (standIn.bit i = true ↔ standIn.bins i ≠ 0) := by decide +kernel
  refine ⟨fun _ => [16, 80], ⟨fun s hs => ?_, by decide +kernel⟩, hbit,
    fun i hi => ⟨_, standIn_chain hi, ?_⟩, binOf .fast 32, by decide, _,
    standIn_chain (by decide), 32, by decide, by decide⟩
  · obtain rfl : s = kilobit := List.mem_singleton.mp hs
    exact ⟨standIn_tiled, standIn_stands, by decide +kernel,
      .cons_cons ⟨by decide +kernel, by decide +kernel⟩ (.singleton 80)⟩
  · have hall : ∀ i < binCount, (if i = binOf .fast 32 then [32] else []).length =
        [16, 80].countP (standIn.filedAs .fast i) := by decide +kernel
    exact hall i hi

theorem check_heap_not_exact :
    ¬ ∀ (P : Profile) (h : Heap), h.Shaped → ((checkHeapUnlocked P h).1 = .ok ↔ h.Exact P) := by
  intro hall
  have hok := standIn_standIn.checked standIn_shaped
  exact standIn_standIn.not_exact ((hall .fast standIn standIn_shaped).mp hok)

theorem check_heap_exact_iff_standIn :
    ((checkHeapUnlocked .fast standIn).1 = .ok ↔ standIn.Exact .fast) ↔ ¬ standIn.StandIn .fast :=
  check_heap_exact_iff standIn_shaped

end Mars
