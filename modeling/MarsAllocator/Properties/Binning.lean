import MarsAllocator.Invariant.Rebuilt
import MarsAllocator.Invariant.Sessions

namespace Mars

open ByteMemory StateProgram Tiling LinkedChain

variable {P : Profile} {h h' : Heap} {b i : Nat} {mirrors : Prop} {L : Span → List Cell}
  {M : Nat → Nat → Prop} {blocks : Span → List Nat}

/-- The bins agree with a valid tiling: every free block of it is in the one bin its extent asks
for, and nothing else is in any. -/
structure Heap.Agrees (P : Profile) (mirrors : Prop) (h : Heap) (L : Span → List Cell) : Prop where
  tiled : h.Tiled P mirrors L
  filed : h.Filed P (h.FreeAt L)

/-- On bins that agree with the tiling the search finds what it is to find, and changes nothing. -/
theorem bin_find_exact (ha : h.Agrees P mirrors L) (need : Nat) :
    (∃ lists, h.Shelves P (h.FreeAt L) lists ∧ binFind P need h = (h.pick P lists need, h) ∧
      (h.pick P lists need ≠ 0 → ∃ n, h.FreeAt L (h.pick P lists need) n ∧ need ≤ n)) ∧
      (∀ m n, m ≤ n → binOf P m ≤ binOf P n) ∧ ∀ n, binOf P n < binCount := by
  obtain ⟨lists, hS⟩ := ha.filed.shelves
  refine ⟨⟨lists, hS, ha.filed.run_binFind_pick hS need, fun hne => ha.filed.pick_fits hS hne⟩,
    fun m n hmn => ?_, binOf_lt P⟩
  by_contra hlt
  exact absurd (lt_of_binOf_lt (P := P) (Nat.lt_of_not_le hlt)) (Nat.not_lt.mpr hmn)

theorem page_ne_zero : 4096 ≠ 0 := by decide

theorem page_aligned : 4096 % alignment = 0 := by decide

theorem kilo_large (P : Profile) : minArena P ≤ 1024 := by cases P <;> decide

theorem kilo_fits : 4096 + 1024 < 2 ^ 64 := by decide

def Buffer.kilo (P : Profile) : Buffer P :=
  ⟨4096, 1024, page_ne_zero, page_aligned, kilo_large P, kilo_fits⟩

def freshHeap (P : Profile) : Heap := (Session.start (Buffer.kilo P) ⟨0⟩ 1).heap

theorem shelved_large : minArena .fast ≤ 8192 := by decide

theorem shelved_fits : 4096 + 8192 < 2 ^ 64 := by decide

/-- Two free blocks in one bin, the smaller one in front, and the rest of the span in a bin above. -/
def shelved : Session :=
  (Session.start (⟨4096, 8192, page_ne_zero, page_aligned, shelved_large, shelved_fits⟩ : Buffer .fast)
    ⟨0⟩ 1).play .fast [.call (.malloc 1064), .call (.malloc 24), .call (.malloc 1048),
      .call (.malloc 24), .call (.free 4112), .call (.free 5216)]

theorem shelved_agrees : ∃ L, shelved.heap.Agrees .fast True L := by
  have hup : shelved.Upright .fast _ := Session.upright _ (by decide) ⟨0⟩ 1 (by decide +kernel)
  obtain ⟨L, hU, -⟩ := hup
  exact ⟨L, hU.sound.tiled, hU.sound.filed⟩

/-- The block that fits is found behind the smaller one. -/
theorem bin_find_shelved : shelved.heap.bins (binOf .fast 1072) = 5208 ∧
    ∃ L lists, shelved.heap.Shelves .fast (shelved.heap.FreeAt L) lists ∧
      shelved.heap.pick .fast lists 1072 = 4104 ∧ ∃ n, shelved.heap.FreeAt L 4104 n ∧ 1072 ≤ n := by
  obtain ⟨L, ha⟩ := shelved_agrees
  obtain ⟨⟨lists, hS, hrun, hfits⟩, -, -⟩ := bin_find_exact ha 1072
  have hpick : shelved.heap.pick .fast lists 1072 = 4104 := by
    rw [← show (binFind .fast 1072 shelved.heap).1 = 4104 by decide +kernel, hrun]
  rw [hpick] at hfits
  exact ⟨by decide +kernel, L, lists, hS, hpick, hfits (by decide)⟩

theorem Heap.Node.member {n : Nat} (hb : h.Node P b n) (hi : binOf P n = i) : h.Member P i b := by
  have hext := hb.extent
  obtain ⟨s, hn⟩ := hb
  refine ⟨(headerOk_fst h b).mpr ⟨s, hn.header⟩, ?_⟩
  rw [Heap.filedAs, hn.free, hext, hi, beq_self_eq_true]
  rfl

theorem Heap.Filed.chain (hF : h.Filed P M) (hi : i < binCount) :
    ∃ nodes, h.Chain P i nodes ∧ nodes.Nodup ∧ ∀ b, b ∈ nodes ↔ ∃ n, M b n ∧ binOf P n = i := by
  obtain ⟨nodes, hl, hmem⟩ := hF.bins i hi
  refine ⟨nodes, ⟨hl, fun b hb => ?_⟩, hl.nodup, hmem⟩
  obtain ⟨n, hn, hbin⟩ := (hmem b).mp hb
  exact (hF.node b n hn).member hbin

theorem freeOf_iff {bs : List Nat} :
    (∃ n, h.FreeOf bs b n ∧ binOf P n = i) ↔ b ∈ bs ∧ h.filedAs P i b = true := by
  rw [Heap.filedAs, Bool.and_eq_true, Bool.not_eq_true', beq_iff_eq]
  constructor
  · rintro ⟨n, ⟨hm, hu, rfl⟩, hbin⟩
    exact ⟨hm, hu, hbin⟩
  · rintro ⟨hm, hu, hbin⟩
    exact ⟨_, ⟨hm, hu, rfl⟩, hbin⟩

/-- Nothing but the bins, the bitmap and the link words of these free blocks has changed. -/
def Heap.OnlyLinks (P : Profile) (h : Heap) (bs : List Nat) (h' : Heap) : Prop :=
  h' = { h with mem := h'.mem, bins := h'.bins, binBitmap := h'.binBitmap } ∧
    ∀ a, h'.mem.byte a ≠ h.mem.byte a →
      ∃ b ∈ bs, wordUsed (h.word b) = false ∧ b + P.hdrSize ≤ a ∧ a < b + P.hdrSize + 16

theorem Heap.Filed.reset (h : Heap) (hκ : h.secret < 2 ^ 64) :
    (binsReset h).2.Filed P fun _ _ => False := by
  refine ⟨⟨hκ, fun _ _ hf => hf.elim, fun _ _ _ _ hf => hf.elim⟩, fun i _ => ?_, fun i _ => ?_⟩
  · exact ⟨[], .done 0, fun b => ⟨fun hb => absurd hb List.not_mem_nil, fun ⟨_, hf, _⟩ => hf.elim⟩⟩
  · exact iff_of_false (by simp [bitAt, binsReset, Prog.modify]) (not_not.mpr rfl)

/-- Whatever the bins, the bitmap and the links held, a rebuild leaves every free block in its bin,
once, and nothing else there, and changes nothing else. -/
theorem bins_rebuild_restores (hs : h.Shaped) (hκ : h.secret < 2 ^ 64)
    (htop : ∀ s ∈ h.spans, s.hi < 2 ^ 64) (hb : ∀ s ∈ h.spans, h.Paved P s s.lo (blocks s)) :
    ∃ h', binsRebuild P h = ((), h') ∧
      (∀ i < binCount, ∃ nodes, h'.Chain P i nodes ∧ nodes.Nodup ∧
        ∀ b, b ∈ nodes ↔ b ∈ h.spans.flatMap blocks ∧ h.filedAs P i b = true) ∧
      h'.BitmapSound ∧ h.OnlyLinks P (h.spans.flatMap blocks) h' ∧
      (binsCheck P (fun i => (h.spans.flatMap blocks).countP (h.filedAs P i)) h').1 = .ok := by
  have hfound : ∀ s ∈ h.spans, s ∈ (binsReset h).2.spans ∧ (binsReset h).2.Found s ∧ s.hi < 2 ^ 64 :=
    fun s hm => ⟨hm, (hs.proper s hm).found, htop s hm⟩
  have hk : h.Kin (binsReset h).2 := ⟨rfl, rfl, rfl⟩
  have hpaved : ∀ s ∈ h.spans, (binsReset h).2.Paved P s s.lo (blocks s) := fun s hm =>
    ((hb s hm).congr hk fun _ _ _ _ _ _ => rfl).1
  obtain ⟨h', hrun, hF, hr⟩ := (Heap.Filed.reset h hκ).run_rebuildSpans hfound hs.distinct hpaved
    fun _ _ hf => hf.elim
  have hbins : ∀ i < binCount, ∃ nodes, h'.Chain P i nodes ∧ nodes.Nodup ∧
      ∀ b, b ∈ nodes ↔ b ∈ h.spans.flatMap blocks ∧ h.filedAs P i b = true := by
    intro i hi
    obtain ⟨nodes, hc, hnd, hmem⟩ := hF.chain hi
    refine ⟨nodes, hc, hnd, fun b => (hmem b).trans ?_⟩
    rw [← freeOf_iff]
    exact exists_congr fun n => and_congr_left fun _ => ⟨fun hx => hx.resolve_left id, .inr⟩
  refine ⟨h', hrun, hbins, hF.bitmap, ⟨?_, fun a ha => ?_⟩, binsCheck_ok.mpr fun i hi => ⟨hF.bitmap i hi, ?_⟩⟩
  · rw [hr.eq]
    rfl
  · by_contra hno
    refine ha (hr.same a ?_)
    rintro ⟨x, n, hf | ⟨hm, hu, -⟩, h₁, h₂⟩
    · exact hf
    · exact hno ⟨x, hm, hu, h₁, h₂⟩
  · obtain ⟨nodes, hc, hnd, hmem⟩ := hbins i hi
    have hall : (h.spans.flatMap blocks).Nodup := by
      refine List.nodup_flatMap.mpr ⟨fun s hm => (hb s hm).tiled.nodup, ?_⟩
      refine (List.Pairwise.and_mem.mp hs.distinct).imp fun {s s'} hne => ?_
      obtain ⟨hm, hm', hne⟩ := hne
      intro b hb₁ hb₂
      have hspan := ((hb s hm).header b hb₁).span
      exact hne (Option.some.inj (hspan.symm.trans ((hb s' hm').header b hb₂).span))
    have hperm : nodes.Perm ((h.spans.flatMap blocks).filter (h.filedAs P i)) :=
      (List.perm_ext_iff_of_nodup hnd (hall.filter _)).mpr fun b => by
        rw [hmem, List.mem_filter]
    refine ⟨nodes, hc, ?_, ?_⟩
    · have hle : (h.spans.flatMap blocks).length * P.minBlock ≤ (h.spans.map fun s => s.hi - s.lo).sum :=
        length_flatMap_mul_le fun s hm => (hb s hm).tiled.length_mul_le fun b hm' =>
          ((hb s hm).header b hm').min_le
      have hp := P.sizes
      have hdiv := (Nat.le_div_iff_mul_le (show 0 < P.minBlock by omega)).mpr (hs.total ▸ hle)
      have hcount := (List.filter_sublist (p := h.filedAs P i) (l := h.spans.flatMap blocks)).length_le
      have htot : h'.totalBytes = h.totalBytes := by rw [hr.eq]; rfl
      rw [hperm.length_eq, htot]
      omega
    · rw [hperm.length_eq, List.countP_eq_length_filter]

theorem standIn_paved : ∀ s ∈ standIn.spans, standIn.Paved .fast s s.lo [16, 80] := by
  intro s hs
  obtain rfl : s = kilobit := List.mem_singleton.mp hs
  exact ⟨standIn_tiled, fun b hb => (standIn_stands b hb).header, fun b hb => (standIn_stands b hb).tag⟩

theorem bins_rebuild_standIn : ∃ h', binsRebuild .fast standIn = ((), h') ∧
    (∀ i < binCount, ∃ nodes, h'.Chain .fast i nodes ∧ nodes.Nodup ∧
      ∀ b, b ∈ nodes ↔ b ∈ standIn.spans.flatMap (fun _ => [16, 80]) ∧
        standIn.filedAs .fast i b = true) ∧
    h'.BitmapSound ∧ standIn.OnlyLinks .fast (standIn.spans.flatMap fun _ => [16, 80]) h' ∧
    (binsCheck .fast (fun i => (standIn.spans.flatMap fun _ => [16, 80]).countP
      (standIn.filedAs .fast i)) h').1 = .ok :=
  bins_rebuild_restores standIn_shaped (by decide)
    (fun s hs => by rw [List.mem_singleton.mp hs]; decide) standIn_paved

end Mars
