import MarsAllocator.Invariant.Filed

namespace Mars

open ByteMemory StateProgram

variable {P : Profile} {h h' : Heap} {s s' : Span} {a b b' e n x y : Nat} {u u' : Bool} {c c' d : Cell}
  {mirrors : Prop} {L L' : Span → List Cell} {M : Nat → Nat → Prop} {pre mid mid' post cs : List Cell}
  {X : Nat → Prop}

/-- The tiling is sound but for `[b, e)` in the span `s`; the block at `e` may still say that one
before it is in use, or not, as `u` has it. -/
structure Heap.Gap (P : Profile) (mirrors : Prop) (h : Heap) (L : Span → List Cell) (s : Span)
    (pre : List Cell) (b e : Nat) (u : Bool) (post : List Cell) : Prop where
  ground : ∀ s ∈ h.spans, h.Ground s
  secret_lt : h.secret < 2 ^ 64
  span : s ∈ h.spans
  others : ∀ s' ∈ h.spans, s' ≠ s → Rest P h.secret mirrors s' h.mem s'.lo true (L s')
  before : Laid P h.secret mirrors s h.mem s.lo true pre
  start : b = s.lo + extents pre
  le : b ≤ e
  after : Rest P h.secret mirrors s h.mem e u post

theorem Heap.Tiled.gap (ht : h.Tiled P mirrors L) (hs : s ∈ h.spans) (hL : L s = pre ++ mid ++ post) :
    h.Gap P mirrors L s pre (s.lo + extents pre) (s.lo + extents pre + extents mid)
        (lastUsed (lastUsed true pre) mid) post ∧
      Laid P h.secret mirrors s h.mem (s.lo + extents pre) (lastUsed true pre) mid := by
  have hr := ht.rest s hs
  rw [hL] at hr
  obtain ⟨hpm, hpost⟩ := laid_append.mp hr.laid
  obtain ⟨hpre, hmid⟩ := laid_append.mp hpm
  have hends := hr.ends
  rw [extents_append, extents_append] at hends
  rw [extents_append, lastUsed_append, ← Nat.add_assoc] at hpost
  exact ⟨⟨ht.ground, ht.secret_lt, hs, fun s' hs' _ => ht.rest s' hs', hpre, rfl,
    Nat.le_add_right _ _, hpost, by omega⟩, hmid⟩

theorem Heap.Gap.close (hg : h.Gap P mirrors L s pre b e u post)
    (hmid : Laid P h.secret mirrors s h.mem b (lastUsed true pre) mid) (he : e = b + extents mid)
    (hu : Rest P h.secret mirrors s h.mem e (lastUsed (lastUsed true pre) mid) post) :
    h.Tiled P mirrors (Function.update L s (pre ++ mid ++ post)) := by
  refine ⟨hg.ground, hg.secret_lt, fun s' hs' => ?_⟩
  by_cases hne : s' = s
  · subst hne
    rw [Function.update_self]
    have hstart := hg.start
    have hends := hu.ends
    subst hstart
    refine ⟨laid_append.mpr ⟨laid_append.mpr ⟨hg.before, hmid⟩, ?_⟩, ?_⟩
    · rw [extents_append, lastUsed_append, ← Nat.add_assoc, ← he]
      exact hu.laid
    · rw [extents_append, extents_append]
      omega
  · rw [Function.update_of_ne hne]
    exact hg.others s' hs' hne

namespace Heap.Gap

theorem end_le (hg : h.Gap P mirrors L s pre b e u post) : e ≤ s.hi := by
  have := hg.after.ends
  omega

theorem kin (hg : h.Gap P mirrors L s pre b e u post) (hk : h.Kin h')
    (hm : ∀ a, a < b ∨ e ≤ a → h'.mem.byte a = h.mem.byte a) :
    h'.Gap P mirrors L s pre b e u post := by
  have hpos := hg.end_le
  have hstart := hg.start
  refine ⟨fun s' hs' => (hg.ground s' (hk.spans ▸ hs')).kin hk, hk.secret ▸ hg.secret_lt,
    hk.spans ▸ hg.span, fun s' hs' hne => ?_, ?_, hg.start, hg.le, ?_⟩
  · have hs₁ := hk.spans ▸ hs'
    have hr := hg.others s' hs₁ hne
    rw [hk.secret]
    refine hr.congr fun a h₁ h₂ => hm a ?_
    by_contra hin
    refine hne (Option.some.inj (((hg.ground s' hs₁).found a h₁ h₂).symm.trans
      ((hg.ground s hg.span).found a ?_ ?_)))
    all_goals omega
  · rw [hk.secret]
    exact hg.before.congr_range fun a h₁ h₂ => hm a (by omega)
  · rw [hk.secret]
    exact hg.after.congr fun a h₁ _ => hm a (.inr h₁)

theorem relinked (hg : h.Gap P mirrors L s pre b e u post) (hk : h.Kin h')
    (hm : ∀ a, a < b ∨ e ≤ a → (¬ ∃ d ∈ post.head?, EdgeBytes P e d a) →
      h'.mem.byte a = h.mem.byte a)
    (hr : Rest P h.secret mirrors s h'.mem e u' post) : h'.Gap P mirrors L s pre b e u' post := by
  have hends := hg.after.ends
  have hstart := hg.start
  have hle := hg.le
  have hin : ∀ a, (∃ d ∈ post.head?, EdgeBytes P e d a) → e ≤ a ∧ a < s.hi := by
    rintro a ⟨d, hd, ha⟩
    obtain ⟨rest, rfl⟩ : ∃ rest, post = d :: rest := by
      cases post with
      | nil => exact absurd hd nofun
      | cons d' rest => exact ⟨rest, by rw [Option.mem_some.mp hd]⟩
    have hp := P.sizes
    have hmin := hg.after.laid.2.1.min_le
    rw [extents_cons] at hends
    rw [EdgeBytes, Cell.tailStart] at ha
    split at ha <;> omega
  refine ⟨fun s' hs' => (hg.ground s' (hk.spans ▸ hs')).kin hk, hk.secret ▸ hg.secret_lt,
    hk.spans ▸ hg.span, fun s' hs' hne => ?_, ?_, hg.start, hg.le, hk.secret ▸ hr⟩
  · have hs₁ := hk.spans ▸ hs'
    rw [hk.secret]
    refine (hg.others s' hs₁ hne).congr fun a h₁ h₂ => ?_
    have hout : a < s.lo ∨ s.hi ≤ a := by
      by_contra hin'
      exact hne (Option.some.inj (((hg.ground s' hs₁).found a h₁ h₂).symm.trans
        ((hg.ground s hg.span).found a (by omega) (by omega))))
    refine hm a (by omega) fun hd => ?_
    have := hin a hd
    omega
  · rw [hk.secret]
    refine hg.before.congr_range fun a h₁ h₂ => hm a (by omega) fun hd => ?_
    have := hin a hd
    omega

end Heap.Gap

theorem Heap.Plan.not_link (hp : h.Plan P L) (hc : h.CellIn L s b c) (h₁ : b ≤ a)
    (h₂ : a < b + c.size) (h₃ : c.kind = .free → a < b + P.hdrSize ∨ b + c.size - 8 ≤ a)
    (hM : ∀ b n, M b n → h.FreeAt L b n) : ¬ LinkBytes P M a := by
  have hs := P.sizes
  rintro ⟨x, n, hx, h₄, h₅⟩
  obtain ⟨s', d, hd, hk, rfl⟩ := hM x n hx
  have hmin := (hp.cell_fits hd).min_le
  rcases hp.apart hc hd with ⟨-, rfl, rfl⟩ | hap
  · have := h₃ hk
    omega
  · omega

theorem Heap.Plan.held_not_link (hp : h.Plan P L) (hs : s ∈ h.spans)
    (hin : ∀ b c, At x cs b c → At s.lo (L s) b c) (ha : Held P x cs a)
    (hM : ∀ b n, M b n → h.FreeAt L b n) : ¬ LinkBytes P M a := by
  obtain ⟨b, c, hb, h₁, h₂, h₃⟩ := ha
  refine hp.not_link (s := s) (c := c) ⟨hs, hin b c hb⟩ h₁ h₂ (fun hk => ?_) hM
  rwa [Cell.bodyEnd, hk, show b + (c.size - 8) = b + c.size - 8 by
    have := (hp.cell_fits (s := s) ⟨hs, hin b c hb⟩).min_le
    have := P.sizes
    omega] at h₃

theorem Heap.Kept.not_link (hp : h.Plan P L) (ha : h.Kept P L X a)
    (hM : ∀ b n, M b n → h.FreeAt L b n) : ¬ LinkBytes P M a := by
  obtain ⟨s, b, c, hc, hu, -, h₁, h₂⟩ := ha
  have := c.bodyEnd_le P
  exact hp.not_link hc (by omega) (by omega) (fun hk => absurd hk (Cell.used_iff.mp hu)) hM

theorem Heap.Tiled.rebinned (ht : h.Tiled P mirrors L) (hM : ∀ b n, M b n → h.FreeAt L b n)
    (hr : h.Rebinned P M h') : h'.Tiled P mirrors L :=
  ht.kin hr.kin fun _ hs a ha => hr.same a (ht.plan.held_not_link hs (fun _ _ h' => h') ha hM)

theorem Heap.Tiled.stock (ht : h.Tiled P mirrors L) (hM : ∀ b n, M b n → h.FreeAt L b n) :
    h.Stock P M := by
  refine ⟨ht.secret_lt, fun b n hb => ?_, fun b n b' n' hb hb' hne => ?_⟩
  · obtain ⟨s, c, hc, hk, hn⟩ := hM b n hb
    obtain ⟨u, -, hh⟩ := ht.cell hc
    exact hn ▸ hh.node hk
  · obtain ⟨s, c, hc, -, rfl⟩ := hM b n hb
    obtain ⟨s', c', hc', -, rfl⟩ := hM b' n' hb'
    exact (ht.plan.apart hc hc').resolve_left fun he => hne he.2.1

theorem Heap.Tiled.filed (ht : h'.Tiled P mirrors L) (hM : ∀ b n, M b n → h'.FreeAt L b n)
    (hF : h.Filed P M) (hk : h.Kin h') (hbins : h'.bins = h.bins)
    (hbits : h'.binBitmap = h.binBitmap)
    (hm : ∀ a, LinkBytes P M a → h'.mem.byte a = h.mem.byte a) : h'.Filed P M :=
  hF.frame hk.secret hbins hbits (ht.stock hM).node hm

namespace Heap.Gap

theorem cell (hp : h.Plan P L) (hg : h.Gap P mirrors L s pre b e u post)
    (hL : L s = pre ++ mid ++ post) (he : e = b + extents mid) (hc : h.CellIn L s' x d)
    (hout : ¬ (b ≤ x ∧ x < e)) :
    ∃ u, CellAt P h.secret mirrors s' h.mem x u d ∧ h.Holds P s' x u d := by
  have hroom := hp.room hc
  have hfit := hp.cell_fits hc
  have hfind : ∃ u, CellAt P h.secret mirrors s' h.mem x u d ∧ d.Fits P := by
    by_cases hne : s' = s
    · subst hne
      have hat := hc.2
      rw [hL, at_append, at_append, extents_append, ← Nat.add_assoc, ← hg.start, ← he] at hat
      rcases hat with (hat | hat) | hat
      · exact hg.before.at hat
      · have := hat.bounds
        have := hfit.pos
        omega
      · exact hg.after.laid.at hat
    · exact (hg.others s' hc.1 hne).laid.at hc.2
  obtain ⟨u', hcell, -⟩ := hfind
  exact ⟨u', hcell, hcell.holds hroom hfit⟩

theorem rebinned (hp : h.Plan P L) (hg : h.Gap P mirrors L s pre b e u post)
    (hL : L s = pre ++ mid ++ post) (he : e = b + extents mid)
    (hM : ∀ b n, M b n → h.FreeAt L b n) (hr : h.Rebinned P M h') :
    h'.Gap P mirrors L s pre b e u post := by
  have hk := hr.kin
  refine ⟨fun s' hs' => (hg.ground s' (hk.spans ▸ hs')).kin hk, hk.secret ▸ hg.secret_lt,
    hk.spans ▸ hg.span, fun s' hs' hne => ?_, ?_, hg.start, hg.le, ?_⟩
  · have hs₁ := hk.spans ▸ hs'
    have hr' := hg.others s' hs₁ hne
    rw [hk.secret]
    exact ⟨hr'.laid.congr fun a ha => hr.same a (hp.held_not_link hs₁ (fun _ _ h' => h') ha hM),
      hr'.ends⟩
  · rw [hk.secret]
    refine hg.before.congr fun a ha => hr.same a (hp.held_not_link hg.span (fun x c hx => ?_) ha hM)
    rw [hL, at_append, at_append]
    exact .inl (.inl hx)
  · rw [hk.secret]
    refine ⟨hg.after.laid.congr fun a ha => hr.same a
      (hp.held_not_link hg.span (fun x c hx => ?_) ha hM), hg.after.ends⟩
    rw [hL, at_append, extents_append, ← Nat.add_assoc, ← hg.start, ← he]
    exact .inr hx

theorem take (hg : h.Gap P mirrors L s pre b e u (d :: post)) :
    h.Gap P mirrors L s pre b (e + d.size) d.used post := by
  have hends := hg.after.ends
  rw [extents_cons] at hends
  exact ⟨hg.ground, hg.secret_lt, hg.span, hg.others, hg.before, hg.start,
    Nat.le_trans hg.le (Nat.le_add_right _ _), hg.after.laid.2.2.2, by omega⟩

theorem takeBefore (hg : h.Gap P mirrors L s (pre ++ [d]) b e u post) :
    h.Gap P mirrors L s pre (b - d.size) e u post := by
  have hstart := hg.start
  have hle := hg.le
  rw [extents_append, extents_cons, extents_nil] at hstart
  exact ⟨hg.ground, hg.secret_lt, hg.span, hg.others, (laid_append.mp hg.before).1, by omega,
    by omega, hg.after⟩

theorem update (hg : h.Gap P mirrors L s pre b e u post) (cs : List Cell) :
    h.Gap P mirrors (Function.update L s cs) s pre b e u post := by
  refine ⟨hg.ground, hg.secret_lt, hg.span, fun s' hs' hne => ?_, hg.before, hg.start, hg.le, hg.after⟩
  rw [Function.update_of_ne hne]
  exact hg.others s' hs' hne

end Heap.Gap

end Mars
