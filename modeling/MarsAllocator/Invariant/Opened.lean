import MarsAllocator.Invariant.Gap

namespace Mars

open ByteMemory StateProgram

variable {P : Profile} {h h' h₁ h₂ h₃ : Heap} {s s' : Span} {a b b' e n x y : Nat} {u u' : Bool}
  {c c' d : Cell} {L L' : Span → List Cell} {M : Nat → Nat → Prop} {pre mid mid' post cs : List Cell}
  {X : Nat → Prop}

/-- Only memory, the bins and the patrol's position have changed. -/
structure Heap.Work (h h' : Heap) : Prop where
  eq : h' = { h with
    mem := h'.mem, bins := h'.bins, binBitmap := h'.binBitmap, scrubAt := h'.scrubAt }

/-- Only what is counted and reported has changed. -/
structure Heap.Counted (h h' : Heap) : Prop where
  eq : h' = { h with
    stats := h'.stats, ops := h'.ops, opsSinceScrub := h'.opsSinceScrub,
    trimAfter := h'.trimAfter, fresh := h'.fresh, freshSpans := h'.freshSpans,
    lastError := h'.lastError, raised := h'.raised }

theorem Heap.work_refl (h : Heap) : h.Work h := ⟨rfl⟩

theorem Heap.work_withMem (h : Heap) (m : Memory) : h.Work (h.withMem m) := ⟨rfl⟩

theorem Heap.Work.trans (hw : h₁.Work h₂) (hw' : h₂.Work h₃) : h₁.Work h₃ := by
  refine ⟨?_⟩
  rw [hw'.eq, hw.eq]

theorem Heap.Work.kin (hw : h.Work h') : h.Kin h' := by
  rw [hw.eq]
  exact ⟨rfl, rfl, rfl⟩

theorem Heap.Rebinned.work (hr : h.Rebinned P M h') : h.Work h' := by
  refine ⟨?_⟩
  rw [hr.eq]

theorem Heap.Counted.trans (hc : h₁.Counted h₂) (hc' : h₂.Counted h₃) : h₁.Counted h₃ := by
  refine ⟨?_⟩
  rw [hc'.eq, hc.eq]

theorem Heap.Counted.kin (hc : h.Counted h') : h.Kin h' := by
  rw [hc.eq]
  exact ⟨rfl, rfl, rfl⟩

theorem Heap.Counted.mem (hc : h.Counted h') : h'.mem = h.mem := by rw [hc.eq]

theorem Heap.Counted.bins (hc : h.Counted h') : h'.bins = h.bins := by rw [hc.eq]

theorem Heap.Counted.binBitmap (hc : h.Counted h') : h'.binBitmap = h.binBitmap := by rw [hc.eq]

/-- The patrol stands at a block of the tiling, or at the end of its span. -/
structure Heap.Cursor (h : Heap) (L : Span → List Cell) : Prop where
  idle : h.scrubSpan = none → h.scrubAt = 0
  at_block : ∀ s, h.scrubSpan = some s →
    s ∈ h.spans ∧ (h.scrubAt = s.hi ∨ ∃ c, At s.lo (L s) h.scrubAt c)

theorem Heap.Cursor.congr (hc : h.Cursor L) (hs : h'.spans = h.spans)
    (hspan : h'.scrubSpan = h.scrubSpan) (hat : h'.scrubAt = h.scrubAt) : h'.Cursor L := by
  refine ⟨fun hn => hat.trans (hc.idle (hspan.symm.trans hn)), fun s h' => ?_⟩
  rw [hs, hat]
  exact hc.at_block s (hspan.symm.trans h')

theorem Heap.Cursor.update (hc : h.Cursor L)
    (hL : L s = pre ++ mid ++ post) (he : extents mid' = extents mid)
    (hkeep : ∀ d, At (s.lo + extents pre) mid h.scrubAt d →
      ∃ d', At (s.lo + extents pre) mid' h.scrubAt d') :
    h.Cursor (Function.update L s (pre ++ mid' ++ post)) := by
  refine ⟨hc.idle, fun s' h' => ⟨(hc.at_block s' h').1, ?_⟩⟩
  obtain ⟨hs', hend | ⟨d, hd⟩⟩ := hc.at_block s' h'
  · exact .inl hend
  · refine .inr ?_
    by_cases hne : s' = s
    · subst hne
      rw [Function.update_self]
      rw [hL, at_append, at_append, extents_append, ← Nat.add_assoc] at hd
      rcases hd with (hd | hd) | hd
      · exact ⟨d, at_append.mpr (.inl (at_append.mpr (.inl hd)))⟩
      · obtain ⟨d', hd'⟩ := hkeep d hd
        exact ⟨d', at_append.mpr (.inl (at_append.mpr (.inr hd')))⟩
      · refine ⟨d, at_append.mpr (.inr ?_)⟩
        rw [extents_append, he, ← Nat.add_assoc]
        exact hd
    · rw [Function.update_of_ne hne]
      exact ⟨d, hd⟩

theorem run_scrubForget (h : Heap) (lo hi : Nat) :
    scrubForget lo hi h = ((), { h with
      scrubAt := if lo < h.scrubAt ∧ h.scrubAt < hi then lo else h.scrubAt }) := by
  rw [scrubForget, Prog.modify_run]
  split <;> rfl

theorem Heap.Cursor.forget (hc : h.Cursor L) (hp : h.Plan P L) (hs : s ∈ h.spans)
    (hL : L s = pre ++ mid ++ post) (hb : b = s.lo + extents pre) (he : e = b + extents mid)
    (hsize : c.size = extents mid) :
    (scrubForget b e h).2.Cursor (Function.update L s (pre ++ [c] ++ post)) := by
  have hext : extents [c] = extents mid := (Nat.add_zero _).trans hsize
  have hends := hp.ends s hs
  rw [hL, extents_append, extents_append] at hends
  rw [run_scrubForget]
  by_cases hin : b < h.scrubAt ∧ h.scrubAt < e
  · rw [if_pos hin]
    have hspan : ∀ s', h.scrubSpan = some s' → s' = s := by
      intro s' h'
      obtain ⟨hs', hend | ⟨d, hd⟩⟩ := hc.at_block s' h'
      · have := (hp.ground s' hs').lo_lt
        exact (hp.ground s' hs').unique (hp.ground s hs) (a := h.scrubAt - 1) (by omega) (by omega)
          (by omega) (by omega)
      · have hcell : h.CellIn L s' h.scrubAt d := ⟨hs', hd⟩
        exact (hp.unique hcell hs (by omega) (by omega)).symm
    refine ⟨fun hn => ?_, fun s' h' => ?_⟩
    · have := hc.idle hn
      omega
    · obtain rfl := hspan s' h'
      refine ⟨hs, .inr ⟨c, ?_⟩⟩
      rw [Function.update_self, at_append, at_append]
      exact .inl (.inr (.inl ⟨hb, rfl⟩))
  · rw [if_neg hin]
    refine (hc.update hL hext fun d hd => ?_).congr rfl rfl rfl
    have := hd.bounds
    have hpos := hd.pos_of_fits fun c' hc' => hp.fits s hs c' (by
      rw [hL]
      exact List.mem_append_left _ (List.mem_append_right _ hc'))
    exact ⟨c, .inl ⟨by omega, rfl⟩⟩

namespace Cell

/-- The cell while the block is being worked on: in use, with nothing promised of what is in it. -/
def opened (c : Cell) : Cell := { c with kind := .bare }

theorem Fits.opened (hf : c.Fits P) : c.opened.Fits P :=
  ⟨hf.dvd, hf.min_le, hf.lt, hf.slack_lt, nofun, nofun⟩

theorem used_of_bare (hk : c.kind = .bare) : c.used = true := Cell.used_of_ne (by rw [hk]; decide)

end Cell

theorem extents_one (c : Cell) : extents [c] = c.size := Nat.add_zero _

/-- The bytes `[b, b + c.size)` of the span `s` are in no block that stands; `L` has the bare cell
`c` in their place. The rest is tiled and filed, and the block after may be out of date. -/
structure Heap.Clear (P : Profile) (h : Heap) (L : Span → List Cell) (s : Span) (pre : List Cell)
    (b : Nat) (c : Cell) (u : Bool) (post : List Cell) : Prop where
  cells : L s = pre ++ [c] ++ post
  plan : h.Plan P L
  gap : h.Gap P True L s pre b (b + c.size) u post
  bare : c.kind = .bare
  filed : h.Filed P (h.FreeAt L)
  cursor : h.Cursor L
  narrow : h.Narrow

/-- The same with the header of `c` in place. -/
structure Heap.Open (P : Profile) (h : Heap) (L : Span → List Cell) (s : Span) (pre : List Cell)
    (b : Nat) (c : Cell) (u : Bool) (post : List Cell) : Prop
    extends h.Clear P L s pre b c u post where
  head : HeadAt P h.secret s h.mem b (lastUsed true pre) c

/-- The spans are tiled by the cells that `L` says, and every free block is in its bin. -/
structure Heap.Sound (P : Profile) (h : Heap) (L : Span → List Cell) : Prop where
  tiled : h.Tiled P True L
  filed : h.Filed P (h.FreeAt L)
  cursor : h.Cursor L
  narrow : h.Narrow

theorem freeAt_kin (hs : h'.spans = h.spans) : h'.FreeAt L = h.FreeAt L := by
  funext b n
  simp only [Heap.FreeAt, Heap.CellIn, hs]

theorem Heap.Sound.same (hS : h.Sound P L) (hk : h.Kin h') (hm : h'.mem = h.mem)
    (hbins : h'.bins = h.bins) (hbits : h'.binBitmap = h.binBitmap) (hc : h'.Cursor L) :
    h'.Sound P L := by
  have ht : h'.Tiled P True L := hS.tiled.kin hk fun _ _ a _ => by rw [hm]
  refine ⟨ht, ?_, hc, hS.narrow.of_spans hk.spans⟩
  rw [freeAt_kin hk.spans]
  refine ht.filed (fun x n hx => ?_) hS.filed hk hbins hbits fun a _ => by rw [hm]
  rwa [freeAt_kin hk.spans]

theorem Heap.Sound.counted (hS : h.Sound P L) (hc : h.Counted h') : h'.Sound P L :=
  hS.same hc.kin hc.mem hc.bins hc.binBitmap
    (hS.cursor.congr hc.kin.spans (by rw [hc.eq]) (by rw [hc.eq]))

theorem Cell.not_free_of_bare (hbare : c'.kind = .bare) :
    ¬ ∃ d, At b [c'] x d ∧ d.kind = .free ∧ d.size = n := by
  rintro ⟨d, hd, hk, -⟩
  rcases hd with ⟨-, rfl⟩ | hd
  · exact absurd (hbare.symm.trans hk) (by decide)
  · exact hd

namespace Heap.Clear

variable (hc : h.Clear P L s pre b c u post)
include hc

theorem mem : h.CellIn L s b c := by
  refine ⟨hc.gap.span, at_iff.mpr ⟨pre, post, ?_, hc.gap.start⟩⟩
  rw [hc.cells, List.append_assoc]
  rfl

theorem fits : c.Fits P := hc.plan.cell_fits hc.mem

theorem room : h.Room s b c.size := hc.plan.room hc.mem

theorem mid_iff : s.lo + extents pre ≤ x ∧ x < s.lo + extents pre + extents [c] ↔
    b ≤ x ∧ x < b + c.size := by rw [← hc.gap.start, extents_one]

theorem free_outside (hx : h.FreeAt L x n) : x + n ≤ b ∨ b + c.size ≤ x := by
  obtain ⟨s', d, hd, hk, rfl⟩ := hx
  rcases hc.plan.apart hd hc.mem with ⟨-, -, rfl⟩ | hap
  · exact absurd (hc.bare.symm.trans hk) (by decide)
  · exact hap

theorem link_outside (ha : LinkBytes P (h.FreeAt L) a) : a < b ∨ b + c.size ≤ a := by
  obtain ⟨x, n, hx, h₁, h₂⟩ := ha
  have hs := P.sizes
  have := (hc.filed.node x n hx).min_le
  have := hc.free_outside hx
  omega

theorem kept_outside (ha : h.Kept P L X a) (hX : X b) : a < b ∨ b + c.size ≤ a :=
  ha.outside hc.plan hc.mem fun _ => hX

theorem freeAt_update (he : extents mid' = c.size) :
    h.FreeAt (Function.update L s (pre ++ mid' ++ post)) x n ↔
      h.FreeAt L x n ∨ ∃ d, At b mid' x d ∧ d.kind = .free ∧ d.size = n := by
  rw [hc.plan.freeAt_update hc.gap.span hc.cells (he.trans (extents_one c).symm), hc.mid_iff,
    ← hc.gap.start]
  refine or_congr (and_iff_left_of_imp fun hx => ?_) Iff.rfl
  have hout := hc.free_outside hx
  have hpos := (hc.filed.node x n hx).min_le
  have hs := P.sizes
  omega

theorem inside {m : Memory} (hm : ∀ a, a < b ∨ b + c.size ≤ a → m.byte a = h.mem.byte a) :
    (h.withMem m).Clear P L s pre b c u post := by
  have hk := h.kin_withMem m
  have hgap := hc.gap.kin hk hm
  have hplan := hc.plan.kin hk
  refine ⟨hc.cells, hplan, hgap, hc.bare, ?_, hc.cursor.congr rfl rfl rfl, hc.narrow⟩
  refine hc.filed.frame rfl rfl rfl (fun x n hx => ?_) fun a ha => hm a (hc.link_outside ha)
  obtain ⟨s', d, hd, hkd, rfl⟩ := hx
  have hout := hc.free_outside ⟨s', d, hd, hkd, rfl⟩
  have := (hc.plan.cell_fits hd).pos
  have he : b + c.size = b + extents [c] := by rw [extents_one]
  obtain ⟨u', -, hh⟩ := hgap.cell hplan hc.cells he hd (by omega)
  exact hh.node hkd

theorem recell (hsize : c'.size = c.size) (hfit : c'.Fits P) (hbare : c'.kind = .bare) :
    h.Clear P (Function.update L s (pre ++ [c'] ++ post)) s pre b c' u post := by
  have he : extents [c'] = c.size := (extents_one c').trans hsize
  have he' : extents [c'] = extents [c] := he.trans (extents_one c).symm
  refine ⟨Function.update_self .., ?_, ?_, hbare, ?_, ?_, hc.narrow⟩
  · exact hc.plan.update hc.gap.span hc.cells he' fun d hd => List.mem_singleton.mp hd ▸ hfit
  · rw [hsize]
    exact hc.gap.update _
  · refine hc.filed.of_iff fun x n => ?_
    rw [hc.freeAt_update he]
    exact ⟨.inl, fun hx => hx.resolve_right (Cell.not_free_of_bare hbare)⟩
  · refine hc.cursor.update hc.cells he' fun d hd => ?_
    rcases hd with ⟨hat, -⟩ | hd
    · exact ⟨c', .inl ⟨hat, rfl⟩⟩
    · exact hd.elim

theorem counted (hn : h.Counted h') : h'.Clear P L s pre b c u post := by
  have hk := hn.kin
  have hgap := hc.gap.kin hk fun a _ => by rw [hn.mem]
  have hplan := hc.plan.kin hk
  refine ⟨hc.cells, hplan, hgap, hc.bare, ?_, hc.cursor.congr hk.spans (by rw [hn.eq])
    (by rw [hn.eq]), hc.narrow.of_spans hk.spans⟩
  rw [freeAt_kin hk.spans]
  refine hc.filed.frame hk.secret hn.bins hn.binBitmap (fun x n hx => ?_) fun a _ => by rw [hn.mem]
  exact (hc.filed.node x n hx).congr hk fun a _ _ => by rw [hn.mem]

end Heap.Clear

/-- The same with the word and the checksum of `c` in place, but not sealed. -/
structure Heap.Loose (P : Profile) (h : Heap) (L : Span → List Cell) (s : Span) (pre : List Cell)
    (b : Nat) (c : Cell) (u : Bool) (post : List Cell) : Prop
    extends h.Clear P L s pre b c u post where
  word : h.mem.load b 8 = c.word (lastUsed true pre)
  crc : P.hasCrc = true → h.mem.load (b + 12) 4 = c.crc

theorem Heap.Loose.writ (hl : h.Loose P L s pre b c u post) :
    h.Writ P s b (lastUsed true pre) c := ⟨hl.room, hl.fits, hl.word⟩

theorem Heap.Open.loose (ho : h.Open P L s pre b c u post) : h.Loose P L s pre b c u post :=
  ⟨ho.toClear, ho.head.word, ho.head.crc⟩

theorem Heap.Open.writ (ho : h.Open P L s pre b c u post) : h.Writ P s b (lastUsed true pre) c :=
  ⟨ho.room, ho.fits, ho.head.word⟩

end Mars
