import MarsAllocator.Invariant.Access

namespace Mars

open ByteMemory StateProgram

variable {P : Profile} {h h' h₁ : Heap} {s t : Span} {a b p : Nat} {c d : Cell}
  {L L' : Span → List Cell} {pre post cs : List Cell}

def Cell.unsummed (c : Cell) : Cell := c.summed 0

theorem at_unsummed : At p (cs.map Cell.unsummed) b d ↔ ∃ c, At p cs b c ∧ d = c.unsummed := by
  induction cs generalizing p with
  | nil => simp [At]
  | cons c cs ih =>
    rw [List.map_cons, At, ih]
    constructor
    · rintro (⟨rfl, rfl⟩ | ⟨e, he, rfl⟩)
      · exact ⟨c, .inl ⟨rfl, rfl⟩, rfl⟩
      · exact ⟨e, .inr he, rfl⟩
    · rintro ⟨e, ⟨rfl, rfl⟩ | he, rfl⟩
      · exact .inl ⟨rfl, rfl⟩
      · exact .inr ⟨e, he, rfl⟩

/-- The blocks are the same, those in `D` without their payload checksums, and hold the same. -/
structure Heap.Forgot (P : Profile) (D : List Span) (h : Heap) (L : Span → List Cell) (h' : Heap)
    (L' : Span → List Cell) : Prop where
  work : h.Work h'
  sound : h'.Sound P L'
  cells : ∀ t, L' t = if t ∈ D then (L t).map Cell.unsummed else L t
  bytes : ∀ a, h.Kept P L (fun _ => False) a → h'.mem.byte a = h.mem.byte a

theorem Heap.Sound.run_unsum (hS : h.Sound P L) (hs : s ∈ h.spans) (hL : L s = pre ++ [c] ++ post)
    (hb : b = s.lo + extents pre) :
    ∃ h', Prog.when (c.crc ≠ 0) (do setPayloadCrc P b 0; sealHeader P b) h = ((), h') ∧ h.Work h' ∧
      h'.Sound P (Function.update L s (pre ++ [c.unsummed] ++ post)) ∧
      ∀ a, h.Kept P L (fun _ => False) a → h'.mem.byte a = h.mem.byte a := by
  rw [Prog.when_run]
  by_cases hz : c.crc = 0
  · have hself : c.unsummed = c := by
      rw [Cell.unsummed, Cell.summed, ← hz]
    rw [if_neg (not_not.mpr hz), hself, ← hL, Function.update_eq_self]
    exact ⟨h, rfl, h.work_refl, hS, fun _ _ => rfl⟩
  obtain ⟨h₁, h', hrun₁, hrun₂, hw, hsound, hsame⟩ := hS.run_resum hs hL hb (Nat.two_pow_pos 32)
  rw [if_pos hz, Prog.bind_run_of_eq hrun₁]
  refine ⟨h', hrun₂, hw, hsound, fun a ha => ?_⟩
  -- what the caller may hold is not at the edge of the block
  have hc : h.CellIn L s b c := Heap.cellIn_of_eq hs hL hb
  have hedge := ha.not_edge hS.tiled.plan hc
  rw [EdgeBytes, Cell.tailStart] at hedge
  have := (hS.tiled.plan.cell_fits hc).min_le
  have hp := P.sizes
  cases hu : c.used with
  | true =>
    rw [hu, if_pos rfl] at hedge
    exact hsame a (by omega) (.inr (by omega))
  | false =>
    rw [hu, if_neg (by decide)] at hedge
    exact hsame a (by omega) (.inl hu)

theorem Heap.CellIn.resum (hc : h.CellIn L t b d) (hL : L s = pre ++ [c] ++ post) (v : Nat) :
    ∃ w, h.CellIn (Function.update L s (pre ++ [c.summed v] ++ post)) t b (d.summed w) := by
  by_cases hts : t = s
  · subst hts
    suffices hat : ∃ w, At t.lo (pre ++ [c.summed v] ++ post) b (d.summed w) by
      obtain ⟨w, hw⟩ := hat
      exact ⟨w, hc.1, by rwa [Function.update_self]⟩
    have hat := hc.2
    have hsz : extents [c.summed v] = extents [c] := rfl
    simp only [at_append, extents_append, hsz]
    rw [hL, at_append, at_append, extents_append] at hat
    rcases hat with (hat | hat) | hat
    · exact ⟨d.crc, .inl (.inl hat)⟩
    · obtain ⟨hb, rfl⟩ := at_one.mp hat
      exact ⟨v, .inl (.inr (at_one.mpr ⟨hb, rfl⟩))⟩
    · exact ⟨d.crc, .inr hat⟩
  · refine ⟨d.crc, hc.1, ?_⟩
    rw [Function.update_of_ne hts]
    exact hc.2

theorem Heap.Kept.resum {X : Nat → Prop} (ha : h.Kept P L X a) (hspans : h'.spans = h.spans)
    (hL : L s = pre ++ [c] ++ post) (v : Nat) :
    h'.Kept P (Function.update L s (pre ++ [c.summed v] ++ post)) X a := by
  obtain ⟨t, x, d, hd, hu, hx, ha⟩ := ha
  obtain ⟨w, hw⟩ := hd.resum hL v
  exact ⟨t, x, d.summed w, ⟨hspans ▸ hw.1, hw.2⟩, hu, hx, ha⟩

theorem Heap.Sound.run_forgetPayloadCrcsIn (hcrc : P.hasCrc = true) {budget : Nat}
    (hS : h.Sound P L) (hs : s ∈ h.spans) (hL : L s = pre ++ post) (hlen : post.length ≤ budget) :
    ∃ h', forgetPayloadCrcsIn P s budget (s.lo + extents pre) h = ((), h') ∧ h.Work h' ∧
      h'.Sound P (Function.update L s (pre ++ post.map Cell.unsummed)) ∧
      ∀ a, h.Kept P L (fun _ => False) a → h'.mem.byte a = h.mem.byte a := by
  induction post generalizing pre h L budget with
  | nil =>
    have hends := hS.tiled.plan.ends s hs
    rw [List.append_nil] at hL
    rw [List.map_nil, List.append_nil, ← hL, Function.update_eq_self]
    refine ⟨h, ?_, h.work_refl, hS, fun _ _ => rfl⟩
    cases budget with
    | zero => rfl
    | succ budget =>
      rw [forgetPayloadCrcsIn, if_neg (by omega)]
      rfl
  | cons c cs ih =>
    have hL' : L s = pre ++ [c] ++ cs := by rw [hL, List.append_assoc]; rfl
    have hc : h.CellIn L s (s.lo + extents pre) c := Heap.cellIn_of_eq hs hL' rfl
    obtain ⟨u, -, hh⟩ := hS.tiled.cell hc
    have hlt := (hS.tiled.plan.bounds hc).2
    have hpos := hh.fits.pos
    obtain ⟨h₁, hrun₁, hw₁, hS₁, hsame₁⟩ := hS.run_unsum hs hL' rfl
    obtain ⟨L₁, hL₁⟩ : ∃ L₁, L₁ = Function.update L s (pre ++ [c.unsummed] ++ cs) := ⟨_, rfl⟩
    have hself : L₁ s = pre ++ [c.unsummed] ++ cs := by rw [hL₁, Function.update_self]
    have hs₁ : s ∈ h₁.spans := hw₁.kin.spans ▸ hs
    have hc₁ : h₁.CellIn L₁ s (s.lo + extents pre) c.unsummed := Heap.cellIn_of_eq hs₁ hself rfl
    rw [← hL₁] at hS₁
    obtain ⟨u₁, -, hh₁⟩ := hS₁.tiled.cell hc₁
    cases budget with
    | zero => exact absurd hlen (Nat.not_succ_le_zero _)
    | succ budget =>
      obtain ⟨h', hrun', hw', hS', hsame'⟩ := ih hS₁ hs₁ hself
        (Nat.le_of_succ_le_succ hlen)
      have hnext : s.lo + extents (pre ++ [c.unsummed]) = s.lo + extents pre + c.unsummed.size := by
        rw [extents_append, extents_one, Nat.add_assoc]
      refine ⟨h', ?_, hw₁.trans hw', ?_, fun a ha => ?_⟩
      · rw [hnext] at hrun'
        rw [forgetPayloadCrcsIn, if_pos (by omega), Prog.bind_run_of_eq hh.run_headerOk, if_pos rfl,
          Prog.bind_run_of_eq hh.run_payloadCrc, if_pos hcrc, Prog.bind_run_of_eq hrun₁,
          Prog.bind_run_of_eq hh₁.run_blockSize]
        exact hrun'
      · rw [hL₁, Function.update_idem, List.append_assoc] at hS'
        exact hS'
      · refine (hsame' a ?_).trans (hsame₁ a ha)
        rw [hL₁]
        exact ha.resum hw₁.kin.spans hL' 0

theorem Heap.Kept.forgot {D : List Span} {X : Nat → Prop} (hf : h.Forgot P D L h' L')
    (ha : h.Kept P L X a) : h'.Kept P L' X a := by
  obtain ⟨t, x, d, hd, hu, hx, ha⟩ := ha
  have hspans := hf.work.kin.spans
  by_cases ht : t ∈ D
  · refine ⟨t, x, d.unsummed, ⟨hspans ▸ hd.1, ?_⟩, hu, hx, ha⟩
    rw [hf.cells, if_pos ht]
    exact at_unsummed.mpr ⟨d, hd.2, rfl⟩
  · refine ⟨t, x, d, ⟨hspans ▸ hd.1, ?_⟩, hu, hx, ha⟩
    rw [hf.cells, if_neg ht]
    exact hd.2

theorem length_mul_le (hf : ∀ c ∈ cs, c.Fits P) : cs.length * P.minBlock ≤ extents cs := by
  induction cs with
  | nil => simp
  | cons c cs ih =>
    have := (hf c List.mem_cons_self).min_le
    have := ih fun d hd => hf d (List.mem_cons_of_mem c hd)
    rw [List.length_cons, extents_cons, Nat.add_mul]
    omega

theorem Heap.Sound.length_le (hS : h.Sound P L) (hs : s ∈ h.spans) :
    (L s).length ≤ spanMaxBlocks P s := by
  have hp := P.sizes
  have hends := hS.tiled.plan.ends s hs
  have hle : (L s).length * P.minBlock ≤ s.hi - s.lo := by
    have := length_mul_le (hS.tiled.plan.fits s hs)
    omega
  have := (Nat.le_div_iff_mul_le (by omega)).mpr hle
  rw [spanMaxBlocks]
  omega

theorem Heap.Sound.run_forgetPayloadCrcs (hcrc : P.hasCrc = true) {D : List Span}
    (hS : h.Sound P L) (hD : ∀ s ∈ D, s ∈ h.spans) :
    ∃ h' L', forgetPayloadCrcs P D h = ((), h') ∧ h.Forgot P D L h' L' := by
  induction D generalizing h L with
  | nil => exact ⟨h, L, rfl, h.work_refl, hS, fun t => (if_neg List.not_mem_nil).symm, fun _ _ => rfl⟩
  | cons s rest ih =>
    have hs := hD s List.mem_cons_self
    obtain ⟨h₁, hrun₁, hw₁, hS₁, hsame₁⟩ := hS.run_forgetPayloadCrcsIn hcrc hs (List.nil_append _).symm
      (hS.length_le hs)
    rw [extents_nil, Nat.add_zero] at hrun₁
    have hf₁ : h.Forgot P [s] L h₁ (Function.update L s ([] ++ (L s).map Cell.unsummed)) := by
      refine ⟨hw₁, hS₁, fun t => ?_, hsame₁⟩
      by_cases ht : t = s
      · rw [ht, Function.update_self, if_pos (List.mem_singleton.mpr rfl)]
        rfl
      · rw [Function.update_of_ne ht, if_neg fun hm => ht (List.mem_singleton.mp hm)]
    obtain ⟨h', L', hrun', hf'⟩ := ih hS₁ fun t ht =>
      hw₁.kin.spans ▸ hD t (List.mem_cons_of_mem s ht)
    refine ⟨h', L', ?_, hw₁.trans hf'.work, hf'.sound, fun t => ?_, fun a ha => ?_⟩
    · rw [forgetPayloadCrcs, Prog.bind_run_of_eq hrun₁]
      exact hrun'
    · have htwice : ∀ cs : List Cell, (cs.map Cell.unsummed).map Cell.unsummed = cs.map Cell.unsummed :=
        fun cs => by
          rw [List.map_map]
          rfl
      rw [hf'.cells, hf₁.cells]
      by_cases ht : t = s
      · subst ht
        rw [if_pos (List.mem_singleton.mpr rfl), if_pos List.mem_cons_self, htwice, ite_self]
      · rw [if_neg fun hm => ht (List.mem_singleton.mp hm)]
        by_cases hm : t ∈ rest
        · rw [if_pos hm, if_pos (List.mem_cons_of_mem s hm)]
        · rw [if_neg hm, if_neg fun h' => (List.mem_cons.mp h').elim ht hm]
    · exact (hf'.bytes a (ha.forgot hf₁)).trans (hsame₁ a ha)

end Mars
