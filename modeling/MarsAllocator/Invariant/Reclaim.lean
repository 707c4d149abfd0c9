import MarsAllocator.Invariant.Growing

namespace Mars

open ByteMemory StateProgram

variable {P : Profile} {h h' h₁ : Heap} {s t : Span} {a b k n : Nat} {c d : Cell} {u : Bool}
  {L L' L₁ : Span → List Cell} {X : Nat → Prop} {m : Memory} {pre post : List Cell}

theorem Heap.Sound.hollow (hS : h.Sound P L) (hc : h.CellIn L s b d) (hk : d.kind = .free)
    (hkin : h.Kin h') (hbins : h'.bins = h.bins) (hbits : h'.binBitmap = h.binBitmap)
    (hcur : h'.Cursor L)
    (hm : ∀ a, a < b + P.hdrSize + 16 ∨ b + d.size - 8 ≤ a → h'.mem.byte a = h.mem.byte a) :
    h'.Sound P L ∧ h.Spares P X L h' L := by
  have hp := P.sizes
  have hplan := hS.tiled.plan
  have hmin := (hplan.cell_fits hc).min_le
  have hbody : d.bodyEnd P = d.size - 8 := by rw [Cell.bodyEnd, hk]
  have ht : h'.Tiled P True L := hS.tiled.kin hkin fun t ht a ha => hm a ?_
  · refine ⟨⟨ht, ?_, hcur, hS.narrow.of_spans hkin.spans⟩, fun t x e _ _ => ?_, fun a ha => hm a ?_⟩
    · rw [freeAt_kin hkin.spans]
      refine ht.filed (fun x n hx => by rwa [freeAt_kin hkin.spans]) hS.filed hkin hbins hbits
        fun a ha => hm a ?_
      obtain ⟨x, n, ⟨t, e, he, -, rfl⟩, h₁, h₂⟩ := ha
      have := (hplan.cell_fits he).min_le
      rcases hplan.apart he hc with ⟨-, rfl, -⟩ | hap <;> omega
    · rw [Heap.CellIn, hkin.spans]
      rfl
    · obtain ⟨t, x, e, he, hu, -, h₁, h₂⟩ := ha
      have := e.bodyEnd_le P
      rcases hplan.apart he hc with ⟨-, -, rfl⟩ | hap
      · exact absurd hk (Cell.used_iff.mp hu)
      · omega
  · obtain ⟨x, e, he, h₁, h₂, h₃⟩ := ha
    have he' : h.CellIn L t x e := ⟨ht, he⟩
    rcases hplan.apart he' hc with ⟨-, rfl, rfl⟩ | hap <;> omega

theorem arenaReleasePages_same (hlo : a + (h.pageSize - 1) < 2 ^ 64) {k : Nat}
    (hpage : h.pageSize = 2 ^ k) (n : Nat) (hcov : h.Covers a (n - a)) :
    ∃ m, arenaReleasePages a n h = ((), h.withMem m) ∧
      ∀ x, x < a ∨ n ≤ x → m.byte x = h.mem.byte x := by
  have hread : Prog.read Heap.pageSize h = (h.pageSize, h) := rfl
  rw [arenaReleasePages, Prog.bind_run_of_eq hread, Prog.when_run]
  split
  swap
  · exact ⟨h.mem, rfl, fun _ _ => rfl⟩
  rename_i hcond
  have hup := (roundUp_pow (hpage ▸ hlo)).1
  have hdown := roundDown_le n h.pageSize
  rw [hpage] at hcond hdown ⊢
  exact ⟨_, run_storeN (hcov.sub hup (by omega)), fun x hx => Memory.byte_store_of_notMem (by omega)⟩

theorem find_erase_of_not {α : Type} [DecidableEq α] {p : α → Bool} {x : α} (hx : p x = false)
    (l : List α) : (l.erase x).find? p = l.find? p := by
  induction l with
  | nil => rfl
  | cons y l ih =>
    by_cases he : y = x
    · rw [he, List.erase_cons_head, List.find?_cons_of_neg (by rw [hx]; decide)]
    · rw [List.erase_cons_tail (by simpa using he), List.find?_cons, List.find?_cons, ih]

def Heap.without (h : Heap) (s : Span) : Heap := { h with
  registry := h.registry.erase s
  spans := h.spans.erase s
  spanCount := h.spanCount - 1
  totalBytes := h.totalBytes - (s.hi - s.lo)
  scrubSpan := if h.scrubSpan = some s then none else h.scrubSpan
  scrubAt := if h.scrubSpan = some s then 0 else h.scrubAt }

theorem run_arenaReleaseSpan (h : Heap) (hk : s.kind ≠ .user) :
    ∃ fresh freshSpans, arenaReleaseSpan s h =
      ((), { h.without s with fresh := fresh, freshSpans := freshSpans }) := by
  have hrest : ∀ g : Heap, (do scrubLeave s; spanUnregister s; dropSpan s) g = ((), g.without s) := by
    intro g
    by_cases hc : g.scrubSpan = some s
    · have hleave : scrubLeave s g = ((), { g with scrubSpan := none, scrubAt := 0 }) := by
        rw [scrubLeave, Prog.modify_run, if_pos hc]
      rw [Prog.bind_run_of_eq hleave, Heap.without, if_pos hc, if_pos hc]
      rfl
    · have hleave : scrubLeave s g = ((), g) := by rw [scrubLeave, Prog.modify_run, if_neg hc]
      rw [Prog.bind_run_of_eq hleave, Heap.without, if_neg hc, if_neg hc]
      rfl
  have hread : Prog.read (fun h : Heap => h.fresh s.lo) h = (h.fresh s.lo, h) := rfl
  rw [arenaReleaseSpan, Prog.when_run, if_pos hk, Prog.bind_run_of_eq hread, Prog.bind_run, Prog.when_run]
  split
  · exact ⟨_, _, hrest _⟩
  · exact ⟨h.fresh, h.freshSpans, hrest h⟩

theorem Heap.Clear.without (hc : h.Clear P L s [] s.lo c u []) (hd : h.spans.Nodup)
    (hL : ∀ t, t ≠ s → L₁ t = L t) (fresh : Nat → Bool) (freshSpans : Nat) :
    { h.without s with fresh := fresh, freshSpans := freshSpans }.Sound P L₁ := by
  obtain ⟨g, hg⟩ : ∃ g : Heap, g = { h.without s with fresh := fresh, freshSpans := freshSpans } :=
    ⟨_, rfl⟩
  rw [← hg]
  have hsec : g.secret = h.secret := by rw [hg]; rfl
  have hmem : g.mem = h.mem := by rw [hg]; rfl
  have hspans : ∀ t, t ∈ g.spans ↔ t ≠ s ∧ t ∈ h.spans := fun t => by
    rw [hg]
    exact hd.mem_erase_iff
  have hcell : ∀ t x e, g.CellIn L₁ t x e ↔ t ≠ s ∧ h.CellIn L t x e := by
    intro t x e
    rw [Heap.CellIn, Heap.CellIn, hspans]
    constructor
    · rintro ⟨⟨hne, ht⟩, hat⟩
      exact ⟨hne, ht, hL t hne ▸ hat⟩
    · rintro ⟨hne, ht, hat⟩
      exact ⟨⟨hne, ht⟩, (hL t hne).symm ▸ hat⟩
  have hground : ∀ t ∈ g.spans, g.Ground t := by
    intro t ht
    obtain ⟨hne, hts⟩ := (hspans t).mp ht
    have hgt := hc.gap.ground t hts
    have hgs := hc.gap.ground s hc.gap.span
    refine ⟨ht, fun p h₁ h₂ => ?_, hgt.lo_pos, hgt.lo_lt, hgt.top⟩
    -- the span that goes does not cover `p`
    have hout : (decide (s.lo ≤ p) && decide (p < s.hi)) = false := by
      by_contra hin
      rw [Bool.not_eq_false, Bool.and_eq_true, decide_eq_true_eq, decide_eq_true_eq] at hin
      exact hne (hgt.unique hgs h₁ h₂ hin.1 hin.2)
    have hreg : g.registry = h.registry.erase s := by rw [hg]; rfl
    rw [Heap.spanOf, hreg, find_erase_of_not (p := fun t : Span => decide (t.lo ≤ p) && decide (p < t.hi)) hout]
    exact hgt.found p h₁ h₂
  have ht : g.Tiled P True L₁ := by
    refine ⟨hground, hsec ▸ hc.gap.secret_lt, fun t ht => ?_⟩
    obtain ⟨hne, hts⟩ := (hspans t).mp ht
    rw [hsec, hmem, hL t hne]
    exact hc.gap.others t hts hne
  have hiff : ∀ x n, h.FreeAt L x n ↔ g.FreeAt L₁ x n := by
    intro x n
    constructor
    · rintro ⟨t, e, he, hk, hn⟩
      refine ⟨t, e, (hcell t x e).mpr ⟨?_, he⟩, hk, hn⟩
      rintro rfl
      have hat := he.2
      rw [hc.cells] at hat
      rw [(at_one.mp hat).2, hc.bare] at hk
      exact absurd hk (by decide)
    · rintro ⟨t, e, he, hk, hn⟩
      exact ⟨t, e, ((hcell t x e).mp he).2, hk, hn⟩
  refine ⟨ht, ?_, ?_, fun t ht => hc.narrow t ((hspans t).mp ht).2⟩
  · refine (hc.filed.of_iff hiff).frame hsec (by rw [hg]; rfl) (by rw [hg]; rfl)
      (ht.stock fun _ _ hx => hx).node fun a _ => by rw [hmem]
  · have hspan : g.scrubSpan = if h.scrubSpan = some s then none else h.scrubSpan := by rw [hg]; rfl
    have hat : g.scrubAt = if h.scrubSpan = some s then 0 else h.scrubAt := by rw [hg]; rfl
    by_cases hs : h.scrubSpan = some s
    · rw [if_pos hs] at hspan hat
      exact ⟨fun _ => hat, fun t ht => absurd (ht.symm.trans hspan) (Option.some_ne_none t)⟩
    · rw [if_neg hs] at hspan hat
      refine ⟨fun hn => hat.trans (hc.cursor.idle (hspan.symm.trans hn)), fun t ht => ?_⟩
      rw [hspan] at ht
      obtain ⟨hts, hcur⟩ := hc.cursor.at_block t ht
      have hne : t ≠ s := fun he => hs (he ▸ ht)
      rw [hat, hL t hne]
      exact ⟨(hspans t).mpr ⟨hne, hts⟩, hcur⟩

theorem extents_pos (hf : ∀ c ∈ pre, c.Fits P) (hne : pre ≠ []) : 0 < extents pre := by
  cases pre with
  | nil => exact absurd rfl hne
  | cons c cs =>
    have := (hf c List.mem_cons_self).pos
    rw [extents_cons]
    omega

theorem Heap.Sound.beside (hS : h.Sound P L) (hc : h.CellIn L s b d) (hk : d.kind = .free)
    (hpart : ¬ (b = s.lo ∧ b + d.size = s.hi)) : ∃ x e, At s.lo (L s) x e ∧ e.used = true := by
  obtain ⟨pre, post, hL, hb⟩ := hc.split
  obtain ⟨-, -, -, -, -, -, hpre, hpost⟩ := hS.run_unfile hc.1 hL hb hk
  have hends := hS.tiled.plan.ends s hc.1
  have hfits := hS.tiled.plan.fits s hc.1
  rw [hL, extents_append, extents_append, extents_one] at hends
  have hin : ∀ e ∈ pre ++ [d] ++ post, ∃ x, At s.lo (pre ++ [d] ++ post) x e := fun e he => by
    obtain ⟨l, r, hlr⟩ := List.append_of_mem he
    exact ⟨_, at_iff.mpr ⟨l, r, hlr, rfl⟩⟩
  rw [hL]
  rcases List.eq_nil_or_concat pre with rfl | ⟨front, e, rfl⟩
  · cases post with
    | nil =>
      rw [extents_nil] at hb hends
      exact absurd ⟨by omega, by omega⟩ hpart
    | cons e post =>
      obtain ⟨x, hx⟩ := hin e (by simp)
      exact ⟨x, e, hx, hpost e rfl⟩
  · obtain ⟨x, hx⟩ := hin e (by simp)
    rw [List.concat_eq_append, lastUsed_append] at hpre
    exact ⟨x, e, hx, hpre⟩

theorem Heap.Thriving.run_release (hT : h.Thriving P L) (hB : h.Busy L (· = s))
    (hc : h.CellIn L s b d) (hk : d.kind = .free) (hlarge : s.kind = .large) (hlo : b = s.lo)
    (hhi : b + d.size = s.hi) :
    ∃ h', (do binRemove P b; arenaReleaseSpan s) h = ((), h') ∧ h.Stayed P L h' L := by
  have hplan := hT.sound.tiled.plan
  obtain ⟨pre, post, hL, hb⟩ := hc.split
  have hends := hplan.ends s hc.1
  have hfits := hplan.fits s hc.1
  rw [hL] at hfits
  rw [hL, extents_append, extents_append, extents_one] at hends
  obtain rfl : pre = [] := by
    by_contra hne
    have := extents_pos (fun c hc => hfits c (by simp [hc])) hne
    omega
  obtain rfl : post = [] := by
    by_contra hne
    have := extents_pos (fun c hc => hfits c (by simp [hc])) hne
    omega
  obtain ⟨h₁, hrun₁, -, hr, -, hclear, -, -⟩ := hT.sound.run_unfile hc.1 hL hb hk
  have hnot : s.kind ≠ .user := by rw [hlarge]; decide
  obtain ⟨fresh, freshSpans, hrun₂⟩ := run_arenaReleaseSpan h₁ hnot
  obtain ⟨h', hh'⟩ : ∃ h', h' = { h₁.without s with fresh := fresh, freshSpans := freshSpans } :=
    ⟨_, rfl⟩
  have hdist : h₁.spans.Nodup := hr.kin.spans ▸ hT.distinct
  rw [hlo] at hclear
  have hsound : { h₁.without s with fresh := fresh, freshSpans := freshSpans }.Sound P L :=
    hclear.without hdist (fun t ht => (Function.update_of_ne ht ..).symm) fresh freshSpans
  rw [← hh'] at hrun₂ hsound
  have hspans : h'.spans = h.spans.erase s := by
    rw [hh', ← hr.kin.spans]
    rfl
  have hmem : ∀ t ∈ h'.spans, t ≠ s ∧ t ∈ h.spans := fun t ht => by
    rw [hspans] at ht
    exact hT.distinct.mem_erase_iff.mp ht
  have hperm : h.spans.Perm (s :: h'.spans) := by
    rw [hspans]
    exact List.perm_cons_erase hc.1
  have htend : h.Tended h' := by
    refine ⟨?_⟩
    rw [hh', hr.eq]
    rfl
  have hall : L s = [d] := hL
  have hsp : h.Spares P (fun _ => False) L h' L := by
    refine ⟨fun t x e hu _ => ?_, fun a ha => ?_⟩
    · rw [Heap.CellIn, Heap.CellIn, hspans, hT.distinct.mem_erase_iff]
      refine ⟨fun h' => ⟨h'.1.2, h'.2⟩, fun h' => ⟨⟨?_, h'.1⟩, h'.2⟩⟩
      rintro rfl
      have hat := h'.2
      rw [hall] at hat
      exact Cell.used_iff.mp hu ((at_one.mp hat).2 ▸ hk)
    · have hsame := hr.same a (ha.not_link hplan fun _ _ h' => h')
      rw [hh']
      exact hsame
  refine ⟨h', ?_, ⟨⟨⟨hsound, fun t x e he => ?_, ?_, ?_, ?_, ?_, ?_, ?_, ?_, ?_⟩, ?_, htend, hsp⟩, ?_⟩⟩
  · rw [Prog.bind_run_of_eq hrun₁, hrun₂]
  · exact hT.settled t x e ⟨(hmem t he.1).2, he.2⟩
  · rw [hspans]
    exact hT.distinct.erase s
  · obtain ⟨t, ht, hkt⟩ := hT.root
    refine ⟨t, ?_, hkt⟩
    rw [hspans, hT.distinct.mem_erase_iff]
    exact ⟨fun he => hkt (he ▸ hlarge), ht⟩
  · exact fun t ht => hT.origin t (hmem t ht).2
  · exact fun t ht => hT.low t (hmem t ht).2
  · rw [htend.growable]
    exact fun t ht => hT.fixed t (hmem t ht).2
  · have hsum := (hperm.map fun t : Span => t.hi - t.lo).sum_nat
    have htot : h'.totalBytes = h.totalBytes - (s.hi - s.lo) := by
      rw [hh', hr.eq]
      rfl
    rw [List.map_cons, List.sum_cons] at hsum
    rw [htot, hT.total]
    omega
  · have hsum := (hperm.map fun t : Span => Mars.lostBytes (L t)).sum_nat
    have hzero : Mars.lostBytes (L s) = 0 := by
      rw [hall, lostBytes_cons, hk]
      rfl
    rw [List.map_cons, List.sum_cons, hzero, Nat.zero_add] at hsum
    rw [htend.lostBytes, hT.lost, hsum]
  · rw [htend.pageSize]
    exact hT.paged
  · intro t ht hkt
    exact .inr ((hB t (hmem t ht).2 hkt).resolve_left (hmem t ht).1)
  · rw [hh', hr.eq]
    rfl

/-- Every other free block stays, and at most whole pages of it are given back. -/
theorem Heap.Thriving.run_trim (hT : h.Thriving P L) (hB : h.Busy L (· = s))
    (hc : h.CellIn L s b d) (hk : d.kind = .free) (hmapped : s.kind ≠ .user)
    (hpart : ¬ (s.kind = .large ∧ b = s.lo ∧ b + d.size = s.hi)) :
    ∃ h', (do
        let n ← blockSize b
        let due ← Prog.read fun h => decide (h.trimAfter s.lo ≤ h.ops)
        Prog.when (dontneedMin ≤ n ∧ due) do
          let e ← blockEnd b
          arenaReleasePages (payloadOf P b + 2 * 8) (e - 8)
          setTrimAfter s) h = ((), h') ∧ h.Stayed P L h' L := by
  have hp := P.sizes
  have hplan := hT.sound.tiled.plan
  have hbusy : h.Busy L fun _ => False := fun t ht hkt => by
    refine .inr ((hB t ht hkt).elim (fun he => ?_) id)
    subst he
    exact hT.sound.beside hc hk fun hw => hpart ⟨hkt, hw⟩
  obtain ⟨u, -, hh⟩ := hT.sound.tiled.cell hc
  have hread : Prog.read (fun h : Heap => decide (h.trimAfter s.lo ≤ h.ops)) h =
      (decide (h.trimAfter s.lo ≤ h.ops), h) := rfl
  rw [Prog.bind_run_of_eq hh.run_blockSize, Prog.bind_run_of_eq hread, Prog.when_run]
  split
  swap
  · exact ⟨h, rfl, ⟨⟨hT, hbusy, h.tended_refl, .refl P _ h L⟩, rfl⟩⟩
  have hmin := hh.fits.min_le
  have hbounds := hplan.bounds hc
  have hlow := hT.low s hc.1 hmapped
  obtain ⟨k, hk56, hpage⟩ := hT.paged
  have hpow : 2 ^ k ≤ 2 ^ 56 := Nat.pow_le_pow_right (by decide) hk56.le
  obtain ⟨m, hrun, hsame⟩ := arenaReleasePages_same (h := h) (a := payloadOf P b + 2 * 8)
    (by rw [payloadOf, hpage]; omega) hpage (b + d.size - 8)
    (hh.room.covers.sub (by rw [payloadOf]; omega) (by rw [payloadOf]; omega))
  obtain ⟨h', hh'⟩ : ∃ h', h' = (setTrimAfter s (h.withMem m)).2 := ⟨_, rfl⟩
  have hkin : h.Kin h' := hh' ▸ ⟨rfl, rfl, rfl⟩
  have hserved : h.Served h' := by
    refine ⟨?_⟩
    rw [hh']
    rfl
  obtain ⟨hsound, hsp⟩ : h'.Sound P L ∧ h.Spares P (fun _ => False) L h' L :=
    hT.sound.hollow hc hk hkin (by rw [hh']; rfl) (by rw [hh']; rfl)
      (hT.sound.cursor.congr hkin.spans (by rw [hh']; rfl) (by rw [hh']; rfl)) fun a ha => by
        rw [hh']
        exact hsame a (by rw [payloadOf]; omega)
  refine ⟨h', ?_, ⟨⟨?_, hbusy.spares hsp (fun t ht => hkin.spans ▸ ht) (fun _ _ _ hx => hx.elim)
    fun _ ht => ht.elim, hserved.tended, hsp⟩, ?_⟩⟩
  · rw [Prog.bind_run_of_eq hh.run_blockEnd, Prog.bind_run_of_eq hrun, hh']
  · exact hT.step ⟨hsound, hT.settled.congr hkin.spans, hsp⟩ hserved (fun _ _ _ hx => hx.elim)
      fun _ _ _ hx => hx.elim
  · rw [hh']
    rfl

/-- `reclaim` leaves every block in use alone, and no mapping that holds none. -/
theorem Heap.Thriving.run_reclaim (hT : h.Thriving P L) (hB : h.Busy L (· = s))
    (hc : h.CellIn L s b d) (hk : d.kind = .free) :
    ∃ h', reclaim P b h = ((), h') ∧ h.Stayed P L h' L := by
  obtain ⟨u, -, hh⟩ := hT.sound.tiled.cell hc
  have hread : Prog.read (fun h : Heap => h.spanOf b) h = (some s, h) := by
    rw [← hT.sound.spanOf hc]
    rfl
  rw [reclaim, withSpanOf, Prog.bind_run_of_eq hread, Prog.elim_some, Prog.ite_run]
  split
  · rename_i huser
    refine ⟨h, rfl, ⟨⟨hT, fun t ht hkt => ?_, h.tended_refl, .refl P _ h L⟩, rfl⟩⟩
    refine (hB t ht hkt).imp_left fun he => ?_
    rw [he, huser] at hkt
    exact absurd hkt (by decide)
  rename_i huser
  have hused : isUsed b h = (false, h) := by rw [hh.run_isUsed, Cell.not_used_iff.mpr hk]
  rw [Prog.bind_run_of_eq hused, Bool.not_false, Prog.when_run, if_pos rfl, reclaimIn,
    Prog.bind_run_of_eq hh.run_blockEnd, Prog.ite_run]
  split
  · rename_i hwhole
    exact hT.run_release hB hc hk hwhole.1 hwhole.2.1 hwhole.2.2
  · rename_i hpart
    exact hT.run_trim hB hc hk huser hpart

end Mars
