import MarsAllocator.Invariant.Coalesce
import MarsAllocator.Model.Session

namespace Mars

open ByteMemory StateProgram

variable {P : Profile} {h h' : Heap} {s t : Span} {a b n p x : Nat} {c d : Cell}
  {L L' : Span → List Cell} {X : Nat → Prop}

/-- Where a span not yet of the arena may be. -/
structure Heap.Vacant (P : Profile) (h : Heap) (s : Span) : Prop where
  lo_pos : 0 < s.lo
  min_le : s.lo + P.minBlock ≤ s.hi
  dvd : (s.hi - s.lo) % 16 = 0
  top : s.hi < 2 ^ 64
  narrow : s.hi - s.lo < 2 ^ 58
  apart : ∀ t ∈ h.spans, t.hi ≤ s.lo ∨ s.hi ≤ t.lo
  alone : s.kind = .user → h.spans = []

def Heap.listed (h : Heap) (s : Span) : Heap := (addSpan s (spanRegister s h).2).2

/-- All of a span as one block, not yet there. -/
def Span.whole (s : Span) : Cell := ⟨s.hi - s.lo, 0, 0, .bare⟩

theorem Heap.listed_spanOf (h : Heap) (s : Span) (p : Nat) : (h.listed s).spanOf p =
    if s.lo ≤ p ∧ p < s.hi then some s
    else if s.kind = .user then
      (h.registry.filter (·.kind ≠ .user)).find? fun t => t.lo ≤ p && p < t.hi
    else h.spanOf p := by
  have hreg : (h.listed s).registry = if s.kind = .user then
      s :: h.registry.filter (·.kind ≠ .user) else s :: h.registry := by
    change (if s.kind = .user then _ else _ : Heap).registry = _
    split <;> rfl
  rw [Heap.spanOf, hreg]
  by_cases hin : s.lo ≤ p ∧ p < s.hi
  · have hd : (decide (s.lo ≤ p) && decide (p < s.hi)) = true := by simpa using hin
    rw [if_pos hin]
    split <;> exact List.find?_cons_of_pos hd
  · have hd : ¬ (decide (s.lo ≤ p) && decide (p < s.hi)) = true := by simpa using hin
    rw [if_neg hin]
    split <;> exact List.find?_cons_of_neg hd

theorem Heap.listed_spans (h : Heap) (s : Span) : (h.listed s).spans = s :: h.spans := by
  change s :: (if s.kind = .user then _ else _ : Heap).spans = _
  split <;> rfl

theorem Heap.listed_rest (h : Heap) (s : Span) : h.listed s = { h with
    registry := (h.listed s).registry
    spans := s :: h.spans
    spanCount := h.spanCount + 1
    totalBytes := h.totalBytes + (s.hi - s.lo)
    nextIndexBase := h.nextIndexBase + (s.hi - s.lo) / alignment } := by
  unfold Heap.listed addSpan spanRegister
  rw [Prog.modify_run, Prog.modify_run]
  dsimp only
  split <;> rfl

namespace Heap.Vacant

variable (hv : h.Vacant P s)
include hv

theorem fits : s.whole.Fits P := by
  have hp := P.sizes
  have h₁ := hv.min_le
  have h₂ := hv.dvd
  have h₃ := hv.narrow
  exact ⟨h₂, show P.minBlock ≤ s.hi - s.lo by omega, h₃, Nat.zero_lt_succ _, nofun, nofun⟩

theorem not_mem (hp : h.Plan P L) (ht : t ∈ h.spans) : t ≠ s := by
  rintro rfl
  have := (hp.ground t ht).lo_lt
  have := hv.apart t ht
  omega

theorem ground (hg : ∀ t ∈ h.spans, h.Ground t) : ∀ t ∈ (h.listed s).spans, (h.listed s).Ground t := by
  intro t ht
  rw [Heap.listed_spans] at ht
  have hp := P.sizes
  have h₁ := hv.min_le
  have hmem : t ∈ (h.listed s).spans := by rwa [Heap.listed_spans]
  rcases List.mem_cons.mp ht with rfl | ht
  · refine ⟨hmem, fun p h₁ h₂ => ?_, hv.lo_pos, by omega, hv.top⟩
    rw [Heap.listed_spanOf, if_pos ⟨h₁, h₂⟩]
  · have hgt := hg t ht
    have hap := hv.apart t ht
    refine ⟨hmem, fun p h₁ h₂ => ?_, hgt.lo_pos, hgt.lo_lt, hgt.top⟩
    have hne : s.kind ≠ .user := fun hk => by
      rw [hv.alone hk] at ht
      exact absurd ht List.not_mem_nil
    rw [Heap.listed_spanOf, if_neg (by omega), if_neg hne]
    exact hgt.found p h₁ h₂

theorem cellIn (hp : h.Plan P L) :
    (h.listed s).CellIn (Function.update L s [c]) t x d ↔
      h.CellIn L t x d ∨ t = s ∧ x = s.lo ∧ d = c := by
  rw [Heap.CellIn, Heap.listed_spans, List.mem_cons]
  constructor
  · rintro ⟨rfl | ht, hat⟩
    · rw [Function.update_self] at hat
      exact .inr ⟨rfl, at_one.mp hat⟩
    · rw [Function.update_of_ne (hv.not_mem hp ht)] at hat
      exact .inl ⟨ht, hat⟩
  · rintro (⟨ht, hat⟩ | ⟨rfl, rfl, rfl⟩)
    · refine ⟨.inr ht, ?_⟩
      rwa [Function.update_of_ne (hv.not_mem hp ht)]
    · refine ⟨.inl rfl, ?_⟩
      rw [Function.update_self]
      exact at_one.mpr ⟨rfl, rfl⟩

theorem listed_clear (hS : h.Sound P L) : (h.listed s).Clear P (Function.update L s [s.whole]) s []
    s.lo s.whole true [] := by
  have hp := hS.tiled.plan
  have hsz := P.sizes
  have hmin := hv.min_le
  have hspans := h.listed_spans s
  have hg := hv.ground hS.tiled.ground
  have hsec : (h.listed s).secret = h.secret := by rw [h.listed_rest s]
  have hmem : (h.listed s).mem = h.mem := by rw [h.listed_rest s]
  have hold : ∀ t ∈ h.spans, Function.update L s [s.whole] t = L t := fun t ht =>
    Function.update_of_ne (hv.not_mem hp ht) ..
  have hne : ∀ t ∈ (h.listed s).spans, t ≠ s → t ∈ h.spans := fun t ht hne => by
    rw [hspans] at ht
    exact (List.mem_cons.mp ht).resolve_left hne
  refine ⟨Function.update_self .., ⟨hg, fun t ht => ?_, fun t ht e he => ?_⟩, ⟨hg, ?_, ?_, ?_, trivial,
    rfl, Nat.le_add_right _ _, trivial, ?_⟩, rfl, ?_, ?_, ?_⟩
  · by_cases hts : t = s
    · subst hts
      rw [Function.update_self, extents_one]
      change t.lo + (t.hi - t.lo) = t.hi
      omega
    · rw [hold t (hne t ht hts)]
      exact hp.ends t (hne t ht hts)
  · by_cases hts : t = s
    · subst hts
      rw [Function.update_self] at he
      exact List.mem_singleton.mp he ▸ hv.fits
    · rw [hold t (hne t ht hts)] at he
      exact hp.fits t (hne t ht hts) e he
  · rw [hsec]
    exact hS.tiled.secret_lt
  · rw [hspans]
    exact List.mem_cons_self
  · intro t ht hts
    rw [hold t (hne t ht hts), hsec, hmem]
    exact hS.tiled.rest t (hne t ht hts)
  · change s.lo + (s.hi - s.lo) + 0 = s.hi
    omega
  · have hiff : ∀ x k, h.FreeAt L x k ↔ (h.listed s).FreeAt (Function.update L s [s.whole]) x k := by
      intro x k
      constructor
      · rintro ⟨t, d, hd, hk⟩
        exact ⟨t, d, (hv.cellIn hp).mpr (.inl hd), hk⟩
      · rintro ⟨t, d, hd, hk⟩
        rcases (hv.cellIn hp).mp hd with hd | ⟨-, -, rfl⟩
        · exact ⟨t, d, hd, hk⟩
        · exact absurd hk.1 (show Kind.bare ≠ .free by decide)
    refine (hS.filed.frame hsec (by rw [h.listed_rest s]) (by rw [h.listed_rest s]) (fun x k hx => ?_)
      fun a _ => by rw [hmem]).of_iff hiff
    obtain ⟨t, d, hd, hk, rfl⟩ := hx
    obtain ⟨u, -, hh⟩ := hS.tiled.cell hd
    have hgt := hg t (by rw [hspans]; exact List.mem_cons_of_mem s hd.1)
    have hh' : (h.listed s).Holds P t x u d := by
      refine ⟨⟨hgt.room hh.room.lo_le hh.room.end_le hh.room.dvd, hh.fits, ?_⟩, ?_⟩
      · rw [hmem]
        exact hh.word
      · rw [hmem, hsec]
        exact hh.head
    exact hh'.node hk
  · have hcur := hS.cursor
    refine ⟨fun hn => ?_, fun t ht => ?_⟩
    · rw [h.listed_rest s] at hn ⊢
      exact hcur.idle hn
    · rw [h.listed_rest s] at ht ⊢
      obtain ⟨hts, hat⟩ := hcur.at_block t ht
      refine ⟨List.mem_cons_of_mem s hts, ?_⟩
      rw [hold t hts]
      exact hat
  · intro t ht
    rw [hspans] at ht
    rcases List.mem_cons.mp ht with rfl | ht
    · exact hv.narrow
    · exact hS.narrow t ht

end Heap.Vacant

theorem Heap.Clear.run_spanFormat (hc : h.Clear P L s [] s.lo s.whole true []) :
    ∃ h', spanFormat P s h = ((), h') ∧ h.Work h' ∧
      h'.Sound P (Function.update L s [Cell.freed (s.hi - s.lo)]) ∧
      (∀ X : Nat → Prop, X s.lo →
        h.Spares P X L h' (Function.update L s [Cell.freed (s.hi - s.lo)])) := by
  have hp := P.sizes
  have hfit := hc.fits.freed
  have hmin := hc.fits.min_le
  obtain ⟨d, hd⟩ : ∃ d, d = Cell.freed s.whole.size := ⟨_, rfl⟩
  have hsz : d.size = s.whole.size := by rw [hd, Cell.freed]
  have hkind : d.kind = .free := by rw [hd, Cell.freed]
  have hcrc : d.crc = 0 := by rw [hd, Cell.freed]
  have hcovers := hc.room.covers
  have hcov8 : ∀ m, (h.withMem m).Covers s.lo 8 := fun m => hcovers.sub (le_refl _) (by omega)
  have hcovh : ∀ m, (h.withMem m).Covers s.lo P.hdrSize := fun m =>
    hcovers.sub (le_refl _) (by omega)
  change ∃ h', _ ∧ _ ∧ h'.Sound P (Function.update L s [Cell.freed s.whole.size]) ∧ ∀ X : Nat → Prop,
    X s.lo → h.Spares P X L h' (Function.update L s [Cell.freed s.whole.size])
  rw [← hd] at hfit ⊢
  -- the word is cleared, then the checksum
  have hrun₁ : store64 s.lo 0 h = ((), h.withMem (h.mem.store s.lo 8 0)) := run_store64 (hcov8 h.mem)
  obtain ⟨m₁, hm₁⟩ : ∃ m₁, m₁ = h.mem.store s.lo 8 0 := ⟨_, rfl⟩
  rw [← hm₁] at hrun₁
  have hsame₁ : ∀ a, a < s.lo ∨ s.lo + P.hdrSize ≤ a → m₁.byte a = h.mem.byte a := fun a ha => by
    rw [hm₁]
    exact Memory.byte_store_of_notMem (by omega)
  have hzero₁ : m₁.load s.lo 8 = 0 := by rw [hm₁, Memory.load_store_self, Nat.zero_mod]
  obtain ⟨m₂, hrun₂, hset₂⟩ := run_setPayloadCrc (hcovh m₁) (v := 0) (Nat.two_pow_pos 32)
  have hzero₂ : (h.withMem m₂).word s.lo = 0 := hset₂.word.trans hzero₁
  -- the word of a free block after one in use
  have hset₃ : setWord s.lo (s.hi - s.lo) 0 false false (h.withMem m₂) =
      ((), h.withMem (m₂.store s.lo 8 (d.word false))) := by
    have hrun := run_setWord_cell (hcov8 m₂) (u := false) (by rw [hzero₂]; rfl) hfit
    rw [hsz, Cell.not_used_iff.mpr hkind] at hrun
    change setWord s.lo s.whole.size 0 false false _ = _
    rw [show (0 : Nat) = d.slack by rw [hd]; rfl,
      show false = d.quarantined by rw [Cell.quarantined, hkind]; rfl]
    rw [show d.quarantined = false by rw [Cell.quarantined, hkind]; rfl] at hrun ⊢
    exact hrun
  obtain ⟨m₃, hm₃⟩ : ∃ m₃, m₃ = m₂.store s.lo 8 (d.word false) := ⟨_, rfl⟩
  rw [← hm₃] at hset₃
  have hword₃ : (h.withMem m₃).word s.lo = d.word false := by
    change m₃.load s.lo 8 = _
    rw [hm₃, load_word hfit]
  have hset₄ : setPrevInUse s.lo true (h.withMem m₃) =
      ((), h.withMem (m₃.store s.lo 8 (d.word true))) := by
    rw [run_setPrevInUse (hcov8 m₃), hword₃]
    have : wordSetPrevInUse (d.word false) true = d.word true :=
      wordSetPrevInUse_mkWord hfit.lt hfit.slack_lt
    rw [this]
    rfl
  obtain ⟨m₄, hm₄⟩ : ∃ m₄, m₄ = m₃.store s.lo 8 (d.word true) := ⟨_, rfl⟩
  rw [← hm₄] at hset₄
  have hsame₃ : ∀ a, a < s.lo ∨ s.lo + 8 ≤ a → m₄.byte a = m₂.byte a := fun a ha => by
    rw [hm₄, hm₃, Memory.byte_store_of_notMem (by omega), Memory.byte_store_of_notMem (by omega)]
  have hsame : ∀ a, a < s.lo ∨ s.lo + s.whole.size ≤ a → m₄.byte a = h.mem.byte a := fun a ha =>
    (hsame₃ a (by omega)).trans ((hset₂.same a (by omega)).trans (hsame₁ a (by omega)))
  have hc₄ : (h.withMem m₄).Clear P L s [] s.lo s.whole true [] := hc.inside hsame
  have hroom : (h.withMem m₄).Room s s.lo d.size := hsz ▸ hc₄.room
  have hw₄ : (h.withMem m₄).Writ P s s.lo (lastUsed true []) d := by
    refine ⟨hroom, hfit, ?_⟩
    change m₄.load s.lo 8 = d.word true
    rw [hm₄, load_word hfit]
  have hcrc₄ : P.hasCrc = true → (h.withMem m₄).mem.load (s.lo + 12) 4 = d.crc := fun hc => by
    have h16 := Profile.hdrSize_of_crc hc
    refine Eq.trans (Memory.load_congr fun x _ _ => hsame₃ x (by omega)) ?_
    exact (hset₂.crc hc).trans hcrc.symm
  obtain ⟨h₅, h₆, hrun₅, hrun₆, hwork, hsound, hspares⟩ :=
    hc₄.run_shelve hw₄ hsz hkind hcrc₄ rfl fun c hc => absurd hc.symm (Option.some_ne_none c)
  refine ⟨h₆, ?_, (h.work_withMem m₄).trans hwork, hsound, fun X hX =>
    (hc.spares_inside (h.kin_withMem m₄).spans hsame hX).trans (hspares X hX)⟩
  rw [spanFormat, Prog.bind_run_of_eq hrun₁, Prog.bind_run_of_eq hrun₂]
  change (setWord s.lo (s.hi - s.lo) 0 false false >>= _) (h.withMem m₂) = _
  rw [Prog.bind_run_of_eq hset₃, Prog.bind_run_of_eq hset₄, Prog.bind_run_of_eq hrun₅]
  exact hrun₆

theorem Heap.Vacant.spares (hv : h.Vacant P s) (hp : h.Plan P L) (hw : (h.listed s).Work h')
    (hs : (h.listed s).Spares P (· = s.lo) (Function.update L s [s.whole]) h'
      (Function.update L s [Cell.freed (s.hi - s.lo)])) (X : Nat → Prop) :
    h.Spares P X L h' (Function.update L s [Cell.freed (s.hi - s.lo)]) := by
  have hsz := P.sizes
  have hmin := hv.min_le
  refine ⟨fun t x d hu _ => ?_, fun a ha => ?_⟩
  · have hcell := hv.cellIn hp (c := Cell.freed (s.hi - s.lo)) (t := t) (x := x) (d := d)
    rw [Heap.CellIn, hw.kin.spans]
    refine hcell.trans ⟨fun h' => h'.resolve_right ?_, .inl⟩
    rintro ⟨-, -, rfl⟩
    exact absurd (Cell.used_iff.mp hu) (not_not.mpr rfl)
  · obtain ⟨t, x, d, hd, hu, -, ha⟩ := ha
    have hlt : x ≠ s.lo := by
      rintro rfl
      have := hp.bounds hd
      have := (hp.cell_fits hd).pos
      have := hv.apart t hd.1
      omega
    refine (hs.bytes a ⟨t, x, d, (hv.cellIn hp).mpr (.inl hd), hu, hlt, ha⟩).trans ?_
    rw [h.listed_rest s]

theorem run_scrubEnter (h : Heap) (s : Span) : scrubEnter s h = ((), { h with
    scrubSpan := if h.scrubSpan = none then some s else h.scrubSpan
    scrubAt := if h.scrubSpan = none then s.lo else h.scrubAt }) := by
  rw [scrubEnter, Prog.modify_run]
  split <;> rfl

theorem Heap.Sound.run_scrubEnter (hS : h.Sound P L) (hc : h.CellIn L s s.lo c) :
    (scrubEnter s h).2.Sound P L := by
  rw [Mars.run_scrubEnter]
  have hk : h.Kin { h with
    scrubSpan := if h.scrubSpan = none then some s else h.scrubSpan
    scrubAt := if h.scrubSpan = none then s.lo else h.scrubAt } := ⟨rfl, rfl, rfl⟩
  refine ⟨hS.tiled.kin hk fun _ _ _ _ => rfl, ?_, ?_, hS.narrow⟩
  · exact hS.filed.frame rfl rfl rfl (fun x n hx => (hS.filed.node x n hx).congr hk fun _ _ _ => rfl)
      fun _ _ => rfl
  · by_cases hn : h.scrubSpan = none
    · refine ⟨fun h' => ?_, fun t ht => ?_⟩
      · dsimp only at h'
        rw [if_pos hn] at h'
        exact absurd h' nofun
      · dsimp only at ht ⊢
        rw [if_pos hn] at ht
        rw [if_pos hn, ← Option.some.inj ht]
        exact ⟨hc.1, .inr ⟨c, hc.2⟩⟩
    · refine hS.cursor.congr rfl ?_ ?_
      · exact if_neg hn
      · exact if_neg hn

theorem Heap.Sound.run_spanAdopt (hS : h.Sound P L) (hv : h.Vacant P s) :
    ∃ h', spanAdopt P s h = ((), h') ∧
      h' = { h.listed s with
        mem := h'.mem
        bins := h'.bins
        binBitmap := h'.binBitmap
        scrubSpan := h'.scrubSpan
        scrubAt := h'.scrubAt } ∧
      h'.Sound P (Function.update L s [Cell.freed (s.hi - s.lo)]) ∧
      ∀ X, h.Spares P X L h' (Function.update L s [Cell.freed (s.hi - s.lo)]) := by
  obtain ⟨h₁, hrun, hwork, hsound, hspares⟩ := (hv.listed_clear hS).run_spanFormat
  rw [Function.update_idem] at hsound hspares
  have hcell : h₁.CellIn (Function.update L s [Cell.freed (s.hi - s.lo)]) s s.lo
      (Cell.freed (s.hi - s.lo)) := by
    refine ⟨?_, ?_⟩
    · rw [hwork.kin.spans, Heap.listed_spans]
      exact List.mem_cons_self
    · rw [Function.update_self]
      exact at_one.mpr ⟨rfl, rfl⟩
  have hs₂ := hsound.run_scrubEnter hcell
  have hspare := hv.spares hS.tiled.plan hwork (hspares (· = s.lo) rfl)
  rw [Mars.run_scrubEnter] at hs₂
  refine ⟨_, ?_, ?_, hs₂, fun X => ⟨(hspare X).cells, (hspare X).bytes⟩⟩
  · rw [spanAdopt, Prog.bind_run, Prog.bind_run]
    exact (Prog.bind_run_of_eq hrun).trans (Mars.run_scrubEnter h₁ s)
  · rw [hwork.eq]

theorem Heap.sound_of_empty (hκ : h.secret < 2 ^ 64) (hs : h.spans = []) (hb : h.bins = fun _ => 0)
    (hbits : h.binBitmap = fun _ => 0) (hspan : h.scrubSpan = none) (hat : h.scrubAt = 0)
    (L : Span → List Cell) : h.Sound P L := by
  have hno : ∀ t, t ∉ h.spans := fun t ht => by
    rw [hs] at ht
    exact List.not_mem_nil ht
  have hfree : ∀ x n, ¬ h.FreeAt L x n := by
    rintro x n ⟨t, d, hd, -⟩
    exact hno t hd.1
  refine ⟨⟨fun t ht => absurd ht (hno t), hκ, fun t ht => absurd ht (hno t)⟩,
    ⟨⟨hκ, fun x n hx => absurd hx (hfree x n), fun x n _ _ hx => absurd hx (hfree x n)⟩,
      fun i _ => ?_, fun i _ => ?_⟩, ⟨fun _ => hat, fun t ht => ?_⟩, fun t ht => absurd ht (hno t)⟩
  · rw [hb]
    refine ⟨[], .done 0, fun b => ⟨fun hb => absurd hb List.not_mem_nil, ?_⟩⟩
    rintro ⟨n, hn, -⟩
    exact absurd hn (hfree b n)
  · rw [hb, hbits]
    exact iff_of_false (by simp [bitAt]) (not_not.mpr rfl)
  · rw [hspan] at ht
    exact absurd ht.symm (Option.some_ne_none t)

theorem usableOf_dvd (P : Profile) (n : Nat) : usableOf P n % 16 = 0 := by
  rw [usableOf, alignment]
  omega

/-- The arena is the one span `s` that the caller brought. -/
structure Heap.Brought (P : Profile) (s : Span) (h : Heap) : Prop where
  spans : h.spans = [s]
  kind : s.kind = .user
  origin : (s.lo + P.hdrSize) % 16 = 0
  fixed : h.growable = false
  total : h.totalBytes = s.hi - s.lo

theorem Session.start_sound (buf : Buffer P) (hsmall : usableOf P buf.size < 2 ^ 58) (mem : Memory)
    (secret : UInt64) : (Session.start buf mem secret).heap.Brought P buf.span ∧
      (Session.start buf mem secret).heap.lostBytes = 0 ∧
      ((Session.start buf mem secret).heap.pageSize = 4096 ∧
        (Session.start buf mem secret).heap.stats = {}) ∧
      (Session.start buf mem secret).heap.Sound P fun _ => [Cell.freed (buf.span.hi - buf.span.lo)] := by
  have hsz := P.sizes
  have hal : alignment = 16 := rfl
  have hlarge := buf.large
  have hfits := buf.fits
  have hbase := buf.ne_null
  have hdvd := usableOf_dvd P buf.size
  have hoff : P.blockOffset + usableOf P buf.size ≤ buf.size ∧ P.minBlock ≤ usableOf P buf.size := by
    rw [minArena] at hlarge
    rw [usableOf, hal]
    have : P.minBlock % 16 = 0 := P.layout_asserts.2.2.1
    omega
  obtain ⟨s, hs⟩ : ∃ s, s = buf.span := ⟨_, rfl⟩
  rw [← hs]
  have hlo : s.lo = buf.base + P.blockOffset := by rw [hs]; rfl
  have hhi : s.hi = buf.base + P.blockOffset + usableOf P buf.size := by rw [hs]; rfl
  obtain ⟨g, hg⟩ : ∃ g, g = (setFresh s false { (Heap.blank mem) with
    secret := secret.toNat, mem := mem.store buf.base buf.size 0 }).2 := ⟨_, rfl⟩
  have hempty : g.Sound P fun _ => [Cell.freed (s.hi - s.lo)] := by
    rw [hg]
    exact Heap.sound_of_empty secret.toNat_lt rfl rfl rfl rfl rfl _
  have hv : g.Vacant P s := by
    refine ⟨by omega, by omega, by omega, by omega, by omega, fun t ht => ?_, fun _ => ?_⟩
    · rw [hg] at ht
      exact absurd ht List.not_mem_nil
    · rw [hg]
      rfl
  obtain ⟨h', hrun, heq, hsound, -⟩ := hempty.run_spanAdopt hv
  rw [Function.update_eq_self_iff.mpr rfl] at hsound
  have hheap : (Session.start buf mem secret).heap = h' := by
    have hcond : ¬ (buf.base = 0 ∨ buf.size < minArena P ∨ buf.base % alignment ≠ 0) := by
      have := buf.aligned
      omega
    change (mmInit P buf.base buf.size secret.toNat (Heap.blank mem)).2 = h'
    rw [mmInit, Prog.bind_run, Prog.ite_run, if_neg hcond]
    subst hs hg
    exact congrArg Prod.snd hrun
  rw [hheap]
  refine ⟨⟨?_, hs ▸ rfl, ?_, ?_, ?_⟩, ?_, ⟨?_, ?_⟩, hsound⟩
  · rw [heq]
    change (g.listed s).spans = [s]
    rw [Heap.listed_spans, hg]
    rfl
  · have hba := buf.aligned
    rw [hal] at hba
    have hh : (P.blockOffset + P.hdrSize) % 16 = 0 := by cases P <;> decide
    omega
  · rw [heq]
    change (g.listed s).growable = false
    rw [g.listed_rest s, hg]
    rfl
  · rw [heq]
    change (g.listed s).totalBytes = _
    rw [g.listed_rest s, hg]
    exact Nat.zero_add _
  · rw [heq]
    change (g.listed s).lostBytes = 0
    rw [g.listed_rest s, hg]
    rfl
  · rw [heq]
    change (g.listed s).pageSize = _
    rw [g.listed_rest s, hg]
    rfl
  · rw [heq]
    change (g.listed s).stats = _
    rw [g.listed_rest s, hg]
    rfl

end Mars
