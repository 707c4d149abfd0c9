import MarsAllocator.Invariant.Publish

namespace Mars

open ByteMemory StateProgram

variable {P : Profile} {h h' : Heap} {s s' : Span} {a b b' p n x k : Nat} {u : Bool} {c c' d : Cell}
  {κ : Nat} {mirrors : Prop} {m m' : Memory} {cs pre mid mid' post : List Cell}
  {L L' : Span → List Cell} {X Y : Nat → Prop}

/-- A span of the arena that the registry finds. -/
structure Heap.Ground (h : Heap) (s : Span) : Prop where
  span : s ∈ h.spans
  found : h.Found s
  lo_pos : 0 < s.lo
  lo_lt : s.lo < s.hi
  top : s.hi < 2 ^ 64

/-- No span outgrows the extent field of a header. -/
def Heap.Narrow (h : Heap) : Prop := ∀ s ∈ h.spans, s.hi - s.lo < 2 ^ 58

theorem Heap.Narrow.of_spans (hn : h.Narrow) (hs : h'.spans = h.spans) : h'.Narrow := fun s h' =>
  hn s (hs ▸ h')

/-- Nothing that the spans and their blocks depend on has changed but memory. -/
structure Heap.Kin (h h' : Heap) : Prop where
  spans : h'.spans = h.spans
  registry : h'.registry = h.registry
  secret : h'.secret = h.secret

theorem Heap.Kin.spanOf (hk : h.Kin h') (p : Nat) : h'.spanOf p = h.spanOf p := by
  rw [Heap.spanOf, hk.registry]
  rfl

theorem Heap.kin_withMem (h : Heap) (m : Memory) : h.Kin (h.withMem m) := ⟨rfl, rfl, rfl⟩

theorem Heap.Kin.found (hk : h.Kin h') (hf : h.Found s) : h'.Found s := fun p h₁ h₂ =>
  (hk.spanOf p).trans (hf p h₁ h₂)

theorem Heap.Ground.kin (hg : h.Ground s) (hk : h.Kin h') : h'.Ground s :=
  ⟨hk.spans ▸ hg.span, hk.found hg.found, hg.lo_pos, hg.lo_lt, hg.top⟩

theorem Heap.Ground.room (hg : h.Ground s) (hlo : s.lo ≤ b) (hend : b + n ≤ s.hi)
    (hd : (b - s.lo) % 16 = 0) : h.Room s b n :=
  ⟨hg.span, hg.found, hg.lo_pos, hg.top, hlo, hend, hd⟩

theorem Heap.Room.kin (hr : h.Room s b n) (hk : h.Kin h') : h'.Room s b n :=
  ⟨hk.spans ▸ hr.span, hk.found hr.found, hr.lo_pos, hr.top, hr.lo_le, hr.end_le, hr.dvd⟩

theorem Heap.Ground.unique (hg : h.Ground s) (hg' : h.Ground s') (h₁ : s.lo ≤ a) (h₂ : a < s.hi)
    (h₃ : s'.lo ≤ a) (h₄ : a < s'.hi) : s = s' :=
  Option.some.inj ((hg.found a h₁ h₂).symm.trans (hg'.found a h₃ h₄))

def Heap.CellIn (h : Heap) (L : Span → List Cell) (s : Span) (b : Nat) (c : Cell) : Prop :=
  s ∈ h.spans ∧ At s.lo (L s) b c

def Heap.FreeAt (h : Heap) (L : Span → List Cell) (b n : Nat) : Prop :=
  ∃ s c, h.CellIn L s b c ∧ c.kind = .free ∧ c.size = n

/-- The cells that `L` says fill the spans, whatever memory holds. -/
structure Heap.Plan (P : Profile) (h : Heap) (L : Span → List Cell) : Prop where
  ground : ∀ s ∈ h.spans, h.Ground s
  ends : ∀ s ∈ h.spans, s.lo + extents (L s) = s.hi
  fits : ∀ s ∈ h.spans, ∀ c ∈ L s, c.Fits P

theorem At.pos_of_fits (hb : At p cs b c) (hf : ∀ c ∈ cs, c.Fits P) : 0 < c.size :=
  (hf c hb.mem).pos

theorem extents_dvd (hf : ∀ c ∈ cs, c.Fits P) : extents cs % 16 = 0 := by
  induction cs with
  | nil => rfl
  | cons c cs ih =>
    have := (hf c List.mem_cons_self).dvd
    have := ih fun d hd => hf d (List.mem_cons_of_mem c hd)
    rw [extents_cons]
    omega

theorem Laid.all_fit (hl : Laid P κ mirrors s m p u cs) : ∀ c ∈ cs, c.Fits P := fun _ hc =>
  hl.fits hc

namespace Heap.Plan

variable (hp : h.Plan P L)
include hp

theorem bounds (hb : h.CellIn L s b c) : s.lo ≤ b ∧ b + c.size ≤ s.hi := by
  have := hb.2.bounds
  rw [hp.ends s hb.1] at this
  exact this

theorem cell_fits (hb : h.CellIn L s b c) : c.Fits P := hp.fits s hb.1 c hb.2.mem

theorem room (hb : h.CellIn L s b c) : h.Room s b c.size := by
  obtain ⟨h₁, h₂⟩ := hp.bounds hb
  obtain ⟨hs, hat⟩ := hb
  obtain ⟨pre, post, he, rfl⟩ := at_iff.mp hat
  have hd : extents pre % 16 = 0 := extents_dvd (P := P) fun d hd =>
    hp.fits s hs d (he ▸ List.mem_append_left _ hd)
  exact (hp.ground s hs).room h₁ h₂ (by omega)

theorem unique (hb : h.CellIn L s b c) (hs' : s' ∈ h.spans) (h₁ : s'.lo ≤ b) (h₂ : b < s'.hi) :
    s' = s := by
  have := hp.bounds hb
  have := (hp.cell_fits hb).pos
  exact (hp.ground s' hs').unique (hp.ground s hb.1) h₁ h₂ (by omega) (by omega)

theorem apart (hb : h.CellIn L s b c) (hb' : h.CellIn L s' b' c') :
    s = s' ∧ b = b' ∧ c = c' ∨ b + c.size ≤ b' ∨ b' + c'.size ≤ b := by
  by_cases he : s = s'
  · subst he
    exact (hb.2.apart hb'.2).imp_left fun h' => ⟨rfl, h'⟩
  · have h₁ := hp.bounds hb
    have h₂ := hp.bounds hb'
    have := (hp.cell_fits hb).pos
    have := (hp.cell_fits hb').pos
    refine .inr ?_
    by_contra hno
    -- an address in both blocks would be found in both spans
    exact he ((hp.ground s hb.1).unique (hp.ground s' hb'.1) (a := max b b') (by omega) (by omega)
      (by omega) (by omega))

theorem cell_unique (hb : h.CellIn L s b c) (hb' : h.CellIn L s' b c') : s = s' ∧ c = c' := by
  rcases hp.apart hb hb' with ⟨hs, -, hc⟩ | hap
  · exact ⟨hs, hc⟩
  · have := At.pos_of_fits hb.2 (hp.fits s hb.1)
    have := At.pos_of_fits hb'.2 (hp.fits s' hb'.1)
    omega

theorem kin (hk : h.Kin h') : h'.Plan P L :=
  ⟨fun s hs => (hp.ground s (hk.spans ▸ hs)).kin hk, fun s hs => hp.ends s (hk.spans ▸ hs),
    fun s hs => hp.fits s (hk.spans ▸ hs)⟩

theorem cellIn_update (hs : s ∈ h.spans) (hL : L s = pre ++ mid ++ post)
    (he : extents mid' = extents mid) (s' : Span) (x : Nat) (d : Cell) :
    h.CellIn (Function.update L s (pre ++ mid' ++ post)) s' x d ↔
      h.CellIn L s' x d ∧ ¬ (s.lo + extents pre ≤ x ∧ x < s.lo + extents pre + extents mid) ∨
        s' = s ∧ At (s.lo + extents pre) mid' x d := by
  have hends := hp.ends s hs
  rw [hL, extents_append, extents_append] at hends
  by_cases hne : s' = s
  · subst hne
    rw [Heap.CellIn, Function.update_self, Heap.CellIn, hL, at_append, at_append, at_append,
      at_append, extents_append, extents_append, he, ← Nat.add_assoc]
    have hfit : ∀ e ∈ pre ++ mid ++ post, e.Fits P := hL ▸ hp.fits s' hs
    have hpre : At s'.lo pre x d → x < s'.lo + extents pre := fun hx => by
      have := hx.bounds
      have := hx.pos_of_fits fun e h' => hfit e (List.mem_append_left _ (List.mem_append_left _ h'))
      omega
    have hmid : At (s'.lo + extents pre) mid x d →
        s'.lo + extents pre ≤ x ∧ x < s'.lo + extents pre + extents mid := fun hx => by
      have := hx.bounds
      have := hx.pos_of_fits fun e h' => hfit e (List.mem_append_left _ (List.mem_append_right _ h'))
      omega
    have hpost : At (s'.lo + extents pre + extents mid) post x d →
        s'.lo + extents pre + extents mid ≤ x := fun hx => hx.bounds.1
    constructor
    · rintro ⟨-, (hx | hx) | hx⟩
      · have := hpre hx
        exact .inl ⟨⟨hs, .inl (.inl hx)⟩, by omega⟩
      · exact .inr ⟨rfl, hx⟩
      · have := hpost hx
        exact .inl ⟨⟨hs, .inr hx⟩, by omega⟩
    · rintro (⟨⟨-, (hx | hx) | hx⟩, hout⟩ | ⟨-, hx⟩)
      · exact ⟨hs, .inl (.inl hx)⟩
      · exact absurd (hmid hx) hout
      · exact ⟨hs, .inr hx⟩
      · exact ⟨hs, .inl (.inr hx)⟩
  · rw [Heap.CellIn, Function.update_of_ne hne]
    constructor
    · intro hx
      refine .inl ⟨hx, fun hin => hne ?_⟩
      exact (hp.unique hx hs (by omega) (by omega)).symm
    · rintro (⟨hx, -⟩ | ⟨he, -⟩)
      · exact hx
      · exact absurd he hne

theorem freeAt_update (hs : s ∈ h.spans) (hL : L s = pre ++ mid ++ post)
    (he : extents mid' = extents mid) :
    h.FreeAt (Function.update L s (pre ++ mid' ++ post)) x n ↔
      h.FreeAt L x n ∧ ¬ (s.lo + extents pre ≤ x ∧ x < s.lo + extents pre + extents mid) ∨
        ∃ d, At (s.lo + extents pre) mid' x d ∧ d.kind = .free ∧ d.size = n := by
  have hiff := fun s' d => hp.cellIn_update hs hL he s' x d
  constructor
  · rintro ⟨s', d, hd, hk, hn⟩
    rcases (hiff s' d).mp hd with ⟨hd, hout⟩ | ⟨-, hd⟩
    · exact .inl ⟨⟨s', d, hd, hk, hn⟩, hout⟩
    · exact .inr ⟨d, hd, hk, hn⟩
  · rintro (⟨⟨s', d, hd, hk, hn⟩, hout⟩ | ⟨d, hd, hk, hn⟩)
    · exact ⟨s', d, (hiff s' d).mpr (.inl ⟨hd, hout⟩), hk, hn⟩
    · exact ⟨s, d, (hiff s d).mpr (.inr ⟨rfl, hd⟩), hk, hn⟩

theorem at_of_mem (hs : s ∈ h.spans) (hL : L s = pre ++ mid ++ post) (hc : h.CellIn L s' x d)
    (h₁ : s.lo + extents pre ≤ x) (h₂ : x < s.lo + extents pre + extents mid) :
    s' = s ∧ At (s.lo + extents pre) mid x d := by
  have hends := hp.ends s hs
  rw [hL, extents_append, extents_append] at hends
  obtain rfl := hp.unique hc hs (by omega) (by omega)
  have hat := hc.2
  have hpos := (hp.cell_fits hc).pos
  rw [hL, at_append, at_append, extents_append, ← Nat.add_assoc] at hat
  rcases hat with (hat | hat) | hat
  · have := hat.bounds
    omega
  · exact ⟨rfl, hat⟩
  · have := hat.bounds
    omega

theorem update (hs : s ∈ h.spans) (hL : L s = pre ++ mid ++ post) (he : extents mid' = extents mid)
    (hf : ∀ c ∈ mid', c.Fits P) : h.Plan P (Function.update L s (pre ++ mid' ++ post)) := by
  have hends := hp.ends s hs
  rw [hL, extents_append, extents_append] at hends
  refine ⟨hp.ground, fun s' hs' => ?_, fun s' hs' c hc => ?_⟩
  · by_cases hne : s' = s
    · subst hne
      rw [Function.update_self, extents_append, extents_append]
      omega
    · rw [Function.update_of_ne hne]
      exact hp.ends s' hs'
  · by_cases hne : s' = s
    · subst hne
      rw [Function.update_self] at hc
      have hfit : ∀ e ∈ pre ++ mid ++ post, e.Fits P := hL ▸ hp.fits s' hs
      rcases List.mem_append.mp hc with hc | hc
      · rcases List.mem_append.mp hc with hc | hc
        · exact hfit c (List.mem_append_left _ (List.mem_append_left _ hc))
        · exact hf c hc
      · exact hfit c (List.mem_append_right _ hc)
    · rw [Function.update_of_ne hne] at hc
      exact hp.fits s' hs' c hc

end Heap.Plan

/-- A byte that the caller may hold, in a block in use that does not start in `X`. -/
def Heap.Kept (P : Profile) (h : Heap) (L : Span → List Cell) (X : Nat → Prop) (a : Nat) : Prop :=
  ∃ s b c, h.CellIn L s b c ∧ c.used = true ∧ ¬ X b ∧ b + P.hdrSize ≤ a ∧ a < b + c.bodyEnd P

/-- The blocks in use that do not start in `X` are the same, with the same bytes in them. -/
structure Heap.Spares (P : Profile) (X : Nat → Prop) (h : Heap) (L : Span → List Cell) (h' : Heap)
    (L' : Span → List Cell) : Prop where
  cells : ∀ s b c, c.used = true → ¬ X b → (h'.CellIn L' s b c ↔ h.CellIn L s b c)
  bytes : ∀ a, h.Kept P L X a → h'.mem.byte a = h.mem.byte a

theorem Heap.Spares.refl (P : Profile) (X : Nat → Prop) (h : Heap) (L : Span → List Cell) :
    h.Spares P X L h L := ⟨fun _ _ _ _ _ => Iff.rfl, fun _ _ => rfl⟩

theorem Heap.Spares.trans {h₁ h₂ h₃ : Heap} {L₁ L₂ L₃ : Span → List Cell}
    (hs : h₁.Spares P X L₁ h₂ L₂) (hs' : h₂.Spares P X L₂ h₃ L₃) : h₁.Spares P X L₁ h₃ L₃ := by
  refine ⟨fun s b c hu hx => (hs'.cells s b c hu hx).trans (hs.cells s b c hu hx), fun a ha => ?_⟩
  obtain ⟨s, b, c, hc, hu, hx, ha'⟩ := ha
  refine (hs'.bytes a ⟨s, b, c, (hs.cells s b c hu hx).mpr hc, hu, hx, ha'⟩).trans ?_
  exact hs.bytes a ⟨s, b, c, hc, hu, hx, ha'⟩

theorem Heap.Kept.mono (ha : h.Kept P L Y a) (hXY : ∀ b, X b → Y b) : h.Kept P L X a := by
  obtain ⟨s, b, c, hc, hu, hx, ha⟩ := ha
  exact ⟨s, b, c, hc, hu, fun h' => hx (hXY b h'), ha⟩

theorem Heap.Spares.mono (hs : h.Spares P X L h' L') (hXY : ∀ b, X b → Y b) :
    h.Spares P Y L h' L' :=
  ⟨fun s b c hu hx => hs.cells s b c hu fun h' => hx (hXY b h'),
    fun a ha => hs.bytes a (ha.mono hXY)⟩

theorem Heap.Plan.spares (hp : h.Plan P L) (hs : s ∈ h.spans) (hL : L s = pre ++ mid ++ post)
    (he : extents mid' = extents mid) (hspans : h'.spans = h.spans)
    (hX : ∀ x d, At (s.lo + extents pre) mid x d → d.used = true → X x)
    (hX' : ∀ x d, At (s.lo + extents pre) mid' x d → d.used = true → X x)
    (hm : ∀ a, h.Kept P L X a → h'.mem.byte a = h.mem.byte a) :
    h.Spares P X L h' (Function.update L s (pre ++ mid' ++ post)) := by
  refine ⟨fun s' x d hu hx => ?_, hm⟩
  have hcell : h'.CellIn (Function.update L s (pre ++ mid' ++ post)) s' x d ↔
      h.CellIn (Function.update L s (pre ++ mid' ++ post)) s' x d := by
    rw [Heap.CellIn, hspans]
    rfl
  rw [hcell, hp.cellIn_update hs hL he]
  constructor
  · rintro (h' | ⟨-, h'⟩)
    · exact h'.1
    · exact absurd (hX' x d h' hu) hx
  · intro hc
    exact .inl ⟨hc, fun hin => hx (hX x d (hp.at_of_mem hs hL hc hin.1 hin.2).2 hu)⟩

theorem Heap.Kept.transport (ha : h.Kept P L X a) (hp : h.Plan P L) (hs : s ∈ h.spans)
    (hL : L s = pre ++ mid ++ post) (he : extents mid' = extents mid) (hspans : h'.spans = h.spans)
    (hX : ∀ x d, At (s.lo + extents pre) mid x d → d.used = true → X x) :
    h'.Kept P (Function.update L s (pre ++ mid' ++ post))
      (fun x => s.lo + extents pre ≤ x ∧ x < s.lo + extents pre + extents mid) a := by
  obtain ⟨s', x, d, hc, hu, hx, ha⟩ := ha
  have hout : ¬ (s.lo + extents pre ≤ x ∧ x < s.lo + extents pre + extents mid) := fun hin =>
    hx (hX x d (hp.at_of_mem hs hL hc hin.1 hin.2).2 hu)
  have hc' := (hp.cellIn_update hs hL he s' x d).mpr (.inl ⟨hc, hout⟩)
  exact ⟨s', x, d, ⟨hspans ▸ hc'.1, hc'.2⟩, hu, hout, ha⟩

theorem Cell.bodyEnd_le_tailStart (hf : c.Fits P) (hu : c.used = true) :
    c.bodyEnd P ≤ c.tailStart P := by
  have ht : P.trail = P.canarySize + P.mirrorSize := rfl
  rw [Cell.bodyEnd, Cell.tailStart, if_pos hu]
  cases hk : c.kind with
  | free => exact absurd (Cell.used_iff.mp hu) (not_not.mpr hk)
  | live =>
    have := hf.trail_le hk
    dsimp only
    omega
  | bare | lost => exact le_refl _

theorem Cell.bodyEnd_le (c : Cell) (P : Profile) : c.bodyEnd P ≤ c.size := by
  rw [Cell.bodyEnd]
  split <;> omega

theorem EdgeBytes.bounds (hf : c.Fits P) (ha : EdgeBytes P b c a) : b ≤ a ∧ a < b + c.size := by
  have hp := P.sizes
  have hmin := hf.min_le
  rw [EdgeBytes, Cell.tailStart] at ha
  split at ha <;> omega

namespace Heap.Kept

variable (hp : h.Plan P L) (ha : h.Kept P L X a)
include hp ha

theorem not_edge (hd : h.CellIn L s b d) : ¬ EdgeBytes P b d a := by
  obtain ⟨s', b', c, hc, hu, -, h₁, h₂⟩ := ha
  have hle := c.bodyEnd_le P
  intro he
  rcases hp.apart hc hd with ⟨-, rfl, rfl⟩ | hap
  · have := Cell.bodyEnd_le_tailStart (hp.cell_fits hc) hu
    rw [EdgeBytes] at he
    omega
  · have := he.bounds (hp.cell_fits hd)
    omega

theorem outside (hd : h.CellIn L s b d) (hX : d.used = true → X b) : a < b ∨ b + d.size ≤ a := by
  obtain ⟨s', b', c, hc, hu, hx, h₁, h₂⟩ := ha
  have hle := c.bodyEnd_le P
  rcases hp.apart hc hd with ⟨-, rfl, rfl⟩ | hap
  · exact absurd (hX hu) hx
  · omega

end Heap.Kept

/-- Every span of the arena is tiled by the cells that `L` says. -/
structure Heap.Tiled (P : Profile) (mirrors : Prop) (h : Heap) (L : Span → List Cell) : Prop where
  ground : ∀ s ∈ h.spans, h.Ground s
  secret_lt : h.secret < 2 ^ 64
  rest : ∀ s ∈ h.spans, Rest P h.secret mirrors s h.mem s.lo true (L s)

theorem Rest.split (hr : Rest P κ mirrors s m p u (pre ++ c :: post)) :
    Laid P κ mirrors s m p u pre ∧ CellAt P κ mirrors s m (p + extents pre) (lastUsed u pre) c ∧
      c.Fits P ∧ (lastUsed u pre = true ∨ c.used = true) ∧
      Rest P κ mirrors s m (p + extents pre + c.size) c.used post := by
  obtain ⟨hpre, hc, hf, hside, hpost⟩ := laid_append.mp hr.laid
  have hends := hr.ends
  rw [extents_append, extents_cons] at hends
  exact ⟨hpre, hc, hf, hside, hpost, by omega⟩

namespace Heap.Tiled

variable (ht : h.Tiled P mirrors L)
include ht

theorem plan : h.Plan P L :=
  ⟨ht.ground, fun s hs => (ht.rest s hs).ends, fun s hs => (ht.rest s hs).laid.all_fit⟩

theorem cell (hb : h.CellIn L s b c) :
    ∃ u, CellAt P h.secret mirrors s h.mem b u c ∧ h.Holds P s b u c := by
  have hr := ht.rest s hb.1
  obtain ⟨pre, post, he, hat⟩ := at_iff.mp hb.2
  rw [he] at hr
  obtain ⟨-, hc, hf, -, -⟩ := hr.split
  rw [← hat] at hc
  exact ⟨_, hc, hc.holds (ht.plan.room hb) hf⟩

theorem kin (hk : h.Kin h')
    (hm : ∀ s ∈ h.spans, ∀ a, Held P s.lo (L s) a → h'.mem.byte a = h.mem.byte a) :
    h'.Tiled P mirrors L := by
  refine ⟨fun s hs => (ht.ground s (hk.spans ▸ hs)).kin hk, hk.secret ▸ ht.secret_lt, fun s hs => ?_⟩
  have hr := ht.rest s (hk.spans ▸ hs)
  rw [hk.secret]
  exact ⟨hr.laid.congr (hm s (hk.spans ▸ hs)), hr.ends⟩

end Heap.Tiled

end Mars
