import MarsAllocator.Invariant.Filed
import MarsAllocator.Properties.Exactness

namespace Mars

open ByteMemory StateProgram Tiling LinkedChain

variable {P : Profile} {h h' : Heap} {s : Span} {b n p x k i : Nat} {bs : List Nat}
  {M : Nat → Nat → Prop} {blocks : Span → List Nat}

/-- The headers from `p` on tile the rest of `s` with the blocks `bs`, and every free one is tagged
with its extent. -/
structure Heap.Paved (P : Profile) (h : Heap) (s : Span) (p : Nat) (bs : List Nat) : Prop where
  tiled : Tiles h.extent s.hi p bs
  header : ∀ b ∈ bs, h.HeaderOk P s b
  tag : ∀ b ∈ bs, wordUsed (h.word b) = false → h.word (b + h.extent b - 8) = h.extent b

def Heap.FreeOf (h : Heap) (bs : List Nat) (x n : Nat) : Prop :=
  x ∈ bs ∧ wordUsed (h.word x) = false ∧ h.extent x = n

theorem Heap.Paved.congr (hb : h.Paved P s p bs) (hk : h.Kin h')
    (hm : ∀ b ∈ bs, ∀ a, b ≤ a → a < b + h.extent b →
      a < b + P.hdrSize ∨ wordUsed (h.word b) = false ∧ b + h.extent b - 8 ≤ a →
      h'.mem.byte a = h.mem.byte a) :
    h'.Paved P s p bs ∧ ∀ b ∈ bs, h'.word b = h.word b := by
  have hp := P.sizes
  have hload : ∀ b ∈ bs, ∀ a j, b ≤ a → a + j ≤ b + P.hdrSize → h'.mem.load a j = h.mem.load a j := by
    intro b hbm a j h₁ h₂
    have hmin := (hb.header b hbm).min_le
    change P.minBlock ≤ h.extent b at hmin
    exact Memory.load_congr fun x _ _ => hm b hbm x (by omega) (by omega) (.inl (by omega))
  have hword : ∀ b ∈ bs, h'.word b = h.word b := fun b hbm => hload b hbm b 8 (le_refl b) (by omega)
  have hext : ∀ b ∈ bs, h'.extent b = h.extent b := fun b hbm => by
    rw [Heap.extent, hword b hbm]
    rfl
  refine ⟨⟨hb.tiled.congr hext, fun b hbm => ?_, fun b hbm hu => ?_⟩, hword⟩
  · have hh := hb.header b hbm
    refine ⟨⟨hh.ne_zero, (hk.spanOf b).trans hh.span, hh.start, ?_, ?_⟩, fun hcrc => ?_⟩
    · rw [hword b hbm]
      exact hh.min_le
    · rw [hword b hbm]
      exact hh.le
    · have h16 := Profile.hdrSize_of_crc hcrc
      rw [hword b hbm, hk.secret, hload b hbm _ _ (by omega) (by omega),
        hload b hbm _ _ (by omega) (by omega)]
      exact hh.sealed hcrc
  · have hmin := (hb.header b hbm).min_le
    change P.minBlock ≤ h.extent b at hmin
    rw [hword b hbm] at hu
    rw [hext b hbm]
    refine Eq.trans ?_ (hb.tag b hbm hu)
    exact Memory.load_congr fun x _ _ => hm b hbm x (by omega) (by omega) (.inr ⟨hu, by omega⟩)

theorem Heap.Paved.run_headerOk (hb : h.Paved P s p bs) (hs : s ∈ h.spans) (hx : x ∈ bs) :
    headerOk P x h = (true, h) := by
  have hh := hb.header x hx
  refine Prod.ext ((headerOk_fst h x).mpr ⟨s, hh⟩) (still_headerOk fun s' hs' => ?_)
  rw [hh.span] at hs'
  exact Option.some.inj hs' ▸ hs

theorem Heap.Paved.covers (hb : h.Paved P s p bs) (hs : s ∈ h.spans) (hx : x ∈ bs) :
    h.Covers x (h.extent x) := by
  have hh := hb.header x hx
  obtain ⟨-, hlo, hhi⟩ := spanOf_bounds hh.span
  have hle := hh.le
  change h.extent x ≤ s.hi - x at hle
  exact ⟨s, hs, hlo, by omega⟩

theorem Heap.Paved.run_extentCorroborated (hb : h.Paved P s p bs) (hs : s ∈ h.spans) (hx : x ∈ bs) :
    extentCorroborated P x h = (true, h) := by
  have hp := P.sizes
  have hh := hb.header x hx
  have hmin := hh.min_le
  change P.minBlock ≤ h.extent x at hmin
  have hcov := hb.covers hs hx
  have hc8 : h.Covers x 8 := hcov.sub (le_refl x) (by omega)
  rw [extentCorroborated, Prog.bind_run_of_eq (hb.run_headerOk hs hx), if_pos rfl, Prog.ite_run]
  by_cases hcrc : P.hasCrc = true
  · rw [if_pos hcrc]
    rfl
  have hused : isUsed x h = (wordUsed (h.word x), h) := Prod.ext rfl (still_isUsed hc8)
  rw [if_neg hcrc, Prog.bind_run_of_eq hused, Prog.ite_run]
  cases hu : wordUsed (h.word x) with
  | true => rfl
  | false =>
    have hsize : blockSize x h = (h.extent x, h) := Prod.ext rfl (still_blockSize hc8)
    have htag : load64 (x + h.extent x - 8) h = (h.extent x, h) := by
      refine Prod.ext (hb.tag x hx hu) (still_load64 (hcov.sub (by omega) (by omega)))
    rw [if_neg Bool.false_ne_true, Prog.bind_run_of_eq hsize, Prog.bind_run_of_eq htag]
    change (h.extent x == h.extent x, h) = _
    rw [beq_self_eq_true]

theorem Heap.Paved.tail {bs : List Nat} (hb : h.Paved P s p (p :: bs)) :
    h.Paved P s (p + h.extent p) bs := by
  cases hb.tiled with
  | block _ rest =>
    exact ⟨rest, fun b hm => hb.header b (List.mem_cons_of_mem p hm),
      fun b hm => hb.tag b (List.mem_cons_of_mem p hm)⟩

theorem Heap.Filed.run_rebuildSpan {budget : Nat} (hs : s ∈ h.spans) (htop : s.hi < 2 ^ 64)
    (hF : h.Filed P M) (hb : h.Paved P s p bs) (hlen : bs.length ≤ budget)
    (hM : ∀ x k, M x k → p < s.hi → x + k ≤ p ∨ s.hi ≤ x) :
    ∃ h', rebuildSpan P s budget p h = ((), h') ∧
      h'.Filed P (fun x n => M x n ∨ h.FreeOf bs x n) ∧
      h.Rebinned P (fun x n => M x n ∨ h.FreeOf bs x n) h' := by
  have hp := P.sizes
  induction budget generalizing h p bs M with
  | zero =>
    obtain rfl := List.length_eq_zero_iff.mp (Nat.le_zero.mp hlen)
    refine ⟨h, rfl, hF.of_iff fun x n => ⟨.inl, fun hx => hx.resolve_right fun hx => ?_⟩,
      Heap.rebinned_refl P _ h⟩
    exact List.not_mem_nil hx.1
  | succ budget ih =>
    rw [rebuildSpan, Prog.ite_run]
    cases bs with
    | nil =>
      have hend : p = s.hi := by
        cases hb.tiled
        rfl
      rw [if_neg (by omega)]
      refine ⟨h, rfl, hF.of_iff fun x n => ⟨.inl, fun hx => hx.resolve_right fun hx => ?_⟩,
        Heap.rebinned_refl P _ h⟩
      exact List.not_mem_nil hx.1
    | cons q rest =>
      obtain ⟨rfl, hpos⟩ : q = p ∧ 0 < h.extent q := by
        cases hb.tiled with
        | block hpos _ => exact ⟨rfl, hpos⟩
      have hq : q ∈ q :: rest := List.mem_cons_self
      have hcov := hb.covers hs hq
      have hmin := (hb.header q hq).min_le
      change P.minBlock ≤ h.extent q at hmin
      have hle := hb.tail.tiled.le_hi
      have hin : q < s.hi := by omega
      have hc8 : h.Covers q 8 := hcov.sub (le_refl q) (by omega)
      have hsize : blockSize q h = (h.extent q, h) := Prod.ext rfl (still_blockSize hc8)
      have hused : isUsed q h = (wordUsed (h.word q), h) := Prod.ext rfl (still_isUsed hc8)
      rw [if_pos hin, Prog.bind_run_of_eq (hb.run_headerOk hs hq), if_pos rfl,
        Prog.bind_run_of_eq hused]
      cases hu : wordUsed (h.word q) with
      | true =>
        -- a block in use is stepped over
        rw [if_pos rfl, Prog.bind_run_of_eq hsize]
        obtain ⟨h', hrun, hF', hr⟩ := ih hs hF hb.tail (by simpa using hlen) fun x k hx _ => by
          have := hM x k hx hin
          omega
        have hiff : ∀ x n, (M x n ∨ h.FreeOf rest x n) ↔ (M x n ∨ h.FreeOf (q :: rest) x n) := by
          intro x n
          refine or_congr Iff.rfl ⟨fun hx => ⟨List.mem_cons_of_mem q hx.1, hx.2⟩, fun hx => ⟨?_, hx.2⟩⟩
          rcases List.mem_cons.mp hx.1 with rfl | hm
          · exact absurd (hu.symm.trans hx.2.1) (by decide)
          · exact hm
        exact ⟨h', hrun, hF'.of_iff hiff, hr.mono fun x n => (hiff x n).mp⟩
      | false =>
        have hnode : h.Node P q (h.extent q) := ⟨s, hs, htop, hb.header q hq, hu, rfl⟩
        have hap : ∀ x k, M x k → x + k ≤ q ∨ q + h.extent q ≤ x := fun x k hx => by
          have := hM x k hx hin
          omega
        have hbin := binOf_lt P (h.extent q)
        obtain ⟨hr₁, -⟩ := hF.pushed_spec hnode hap hbin
        have hF₁ := hF.pushed hnode hap
        rw [if_neg Bool.false_ne_true, Prog.bind_run_of_eq (hb.run_extentCorroborated hs hq), if_pos rfl,
          Prog.bind_run_of_eq hsize, Prog.bind_run_of_eq (hF.run_binPush hnode hbin)]
        generalize h.pushed P q (binOf P (h.extent q)) = h₁ at hr₁ hF₁ ⊢
        -- what is still to be walked is as it was
        obtain ⟨hb₁, hword₁⟩ := hb.congr hr₁.kin fun b hm a h₁ h₂ h₃ => hr₁.same a (by
          rintro ⟨x, k, hx | ⟨rfl, rfl⟩, h₄, h₅⟩
          · have := hM x k hx hin
            have := (hF.node x k hx).min_le
            have := hb.tiled.bounds hm
            omega
          · have hlt := hb.tiled.bounds hm
            have htl := hb.tail.tiled.bounds (b := b)
            rcases List.mem_cons.mp hm with rfl | hm
            · omega
            · have := htl hm
              omega)
        have hext₁ : ∀ b ∈ q :: rest, h₁.extent b = h.extent b := fun b hm => by
          rw [Heap.extent, hword₁ b hm]
          rfl
        have hsize₁ : blockSize q h₁ = (h.extent q, h₁) := by
          have hcov₁ : h₁.Covers q 8 := by
            obtain ⟨s', hs', h₂, h₃⟩ := hc8
            exact ⟨s', hr₁.kin.spans ▸ hs', h₂, h₃⟩
          exact Prod.ext (hext₁ q hq) (still_blockSize hcov₁)
        rw [Prog.bind_run_of_eq hsize₁]
        have htail := hb₁.tail
        rw [hext₁ q hq] at htail
        obtain ⟨h', hrun, hF', hr⟩ := ih (hr₁.kin.spans ▸ hs) hF₁ htail (by simpa using hlen)
          fun x k hx _ => by
            rcases hx with hx | ⟨rfl, rfl⟩
            · have := hM x k hx hin
              omega
            · exact .inl (le_refl _)
        have hiff : ∀ x n, (AddTo M q (h.extent q) x n ∨ h₁.FreeOf rest x n) ↔
            (M x n ∨ h.FreeOf (q :: rest) x n) := by
          intro x n
          rw [AddTo, or_assoc]
          refine or_congr Iff.rfl ⟨?_, ?_⟩
          · rintro (⟨rfl, rfl⟩ | ⟨hm, hx⟩)
            · exact ⟨hq, hu, rfl⟩
            · have hm' := List.mem_cons_of_mem q hm
              rw [hword₁ x hm', hext₁ x hm'] at hx
              exact ⟨hm', hx⟩
          · rintro ⟨hm, hx⟩
            rcases List.mem_cons.mp hm with rfl | hm'
            · exact .inl ⟨rfl, hx.2.symm⟩
            · refine .inr ⟨hm', ?_⟩
              rw [hword₁ x hm, hext₁ x hm]
              exact hx
        refine ⟨h', hrun, hF'.of_iff hiff, ?_⟩
        exact (hr₁.mono fun x n hx => (hiff x n).mp (.inl hx)).trans
          (hr.mono fun x n => (hiff x n).mp)

theorem Heap.Paved.bounds (hb : h.Paved P s p bs) (hx : x ∈ bs) :
    p ≤ x ∧ x + h.extent x ≤ s.hi ∧ P.minBlock ≤ h.extent x :=
  ⟨(hb.tiled.bounds hx).1, (hb.tiled.bounds hx).2, (hb.header x hx).min_le⟩

theorem Heap.Filed.run_rebuildSpans {spans : List Span} (hfound : ∀ s ∈ spans, s ∈ h.spans ∧ h.Found s ∧
    s.hi < 2 ^ 64) (hnd : spans.Nodup) (hF : h.Filed P M)
    (hb : ∀ s ∈ spans, h.Paved P s s.lo (blocks s))
    (hM : ∀ x k, M x k → ∀ s ∈ spans, s.lo < s.hi → x + k ≤ s.lo ∨ s.hi ≤ x) :
    ∃ h', rebuildSpans P spans h = ((), h') ∧
      h'.Filed P (fun x n => M x n ∨ h.FreeOf (spans.flatMap blocks) x n) ∧
      h.Rebinned P (fun x n => M x n ∨ h.FreeOf (spans.flatMap blocks) x n) h' := by
  have hp := P.sizes
  induction spans generalizing h M with
  | nil =>
    refine ⟨h, rfl, hF.of_iff fun x n => ⟨.inl, fun hx => hx.resolve_right fun hx => ?_⟩,
      Heap.rebinned_refl P _ h⟩
    exact List.not_mem_nil hx.1
  | cons s rest ih =>
    obtain ⟨hs, hfs, htop⟩ := hfound s List.mem_cons_self
    have hbs := hb s List.mem_cons_self
    have hlen : (blocks s).length ≤ spanMaxBlocks P s := by
      have hle := hbs.tiled.length_mul_le fun b hm => (hbs.bounds hm).2.2
      rw [spanMaxBlocks]
      have := (Nat.le_div_iff_mul_le (by omega)).mpr (show (blocks s).length * P.minBlock ≤
        s.hi - s.lo by omega)
      omega
    obtain ⟨h₁, hrun₁, hF₁, hr₁⟩ := hF.run_rebuildSpan hs htop hbs hlen fun x k hx =>
      hM x k hx s List.mem_cons_self
    have hk := hr₁.kin
    obtain ⟨hnot, hnd'⟩ := List.nodup_cons.mp hnd
    -- what has been filed so far is apart from the spans to come
    have hM₁ : ∀ x k, (M x k ∨ h.FreeOf (blocks s) x k) →
        ∀ t ∈ rest, t.lo < t.hi → x + k ≤ t.lo ∨ t.hi ≤ x := by
      intro x k hx t ht hlt
      rcases hx with hx | ⟨hm, -, rfl⟩
      · exact hM x k hx t (List.mem_cons_of_mem s ht) hlt
      · obtain ⟨h₁, h₂, h₃⟩ := hbs.bounds hm
        by_contra hno
        have he := Option.some.inj ((hfs (max x t.lo) (by omega) (by omega)).symm.trans
          ((hfound t (List.mem_cons_of_mem s ht)).2.1 (max x t.lo) (by omega) (by omega)))
        exact hnot (he ▸ ht)
    have hkeep : ∀ t ∈ rest, h₁.Paved P t t.lo (blocks t) ∧ ∀ b ∈ blocks t, h₁.word b = h.word b := by
      intro t ht
      have hbt := hb t (List.mem_cons_of_mem s ht)
      refine hbt.congr hk fun b hm a h₂ h₃ _ => hr₁.same a ?_
      rintro ⟨x, k, hx, h₄, h₅⟩
      obtain ⟨h₆, h₇, -⟩ := hbt.bounds hm
      have hmin := (hF₁.node x k hx).min_le
      have := hM₁ x k hx t ht (by omega)
      omega
    obtain ⟨h₂, hrun₂, hF₂, hr₂⟩ := ih (fun t ht => by
        obtain ⟨h₁, h₂, h₃⟩ := hfound t (List.mem_cons_of_mem s ht)
        exact ⟨hk.spans ▸ h₁, hk.found h₂, h₃⟩) hnd' hF₁ (fun t ht => (hkeep t ht).1) hM₁
    have hiff : ∀ x n, ((M x n ∨ h.FreeOf (blocks s) x n) ∨ h₁.FreeOf (rest.flatMap blocks) x n) ↔
        (M x n ∨ h.FreeOf ((s :: rest).flatMap blocks) x n) := by
      intro x n
      rw [or_assoc]
      refine or_congr Iff.rfl ?_
      have hmem : x ∈ (s :: rest).flatMap blocks ↔ x ∈ blocks s ∨ x ∈ rest.flatMap blocks := by
        rw [List.flatMap_cons, List.mem_append]
      have hsame : x ∈ rest.flatMap blocks → h₁.word x = h.word x := fun hx => by
        obtain ⟨t, ht, hxt⟩ := List.mem_flatMap.mp hx
        exact (hkeep t ht).2 x hxt
      rw [Heap.FreeOf, Heap.FreeOf, Heap.FreeOf, hmem]
      constructor
      · rintro (⟨hm, hx⟩ | ⟨hm, hx⟩)
        · exact ⟨.inl hm, hx⟩
        · rw [Heap.extent, hsame hm] at hx
          exact ⟨.inr hm, hx⟩
      · rintro ⟨hm | hm, hx⟩
        · exact .inl ⟨hm, hx⟩
        · refine .inr ⟨hm, ?_⟩
          rw [Heap.extent, hsame hm]
          exact hx
    refine ⟨h₂, ?_, hF₂.of_iff hiff, ?_⟩
    · rw [rebuildSpans, Prog.bind_run_of_eq hrun₁, hrun₂]
    · exact (hr₁.mono fun x n hx => (hiff x n).mp (.inl hx)).trans
        (hr₂.mono fun x n => (hiff x n).mp)

end Mars
