import MarsAllocator.Invariant.Adopted
import MarsAllocator.Invariant.Aligned
import MarsAllocator.Invariant.Outline
import MarsAllocator.Properties.Pointers

namespace Mars

open ByteMemory StateProgram

set_option synthInstance.maxSize 100000

variable {P : Profile} {h h' : Heap} {s t : Span} {b p n : Nat} {c d : Cell}
  {L L' : Span → List Cell} {cs ds : List Cell} {X : Nat → Prop} {σ : Session}

theorem Alike.spans (ha : Alike h h') : h'.spans = h.spans := by
  obtain ⟨e, r, st, w⟩ := ha
  rfl

theorem Heap.Brought.served (hb : h.Brought P s) (hs : h.Served h') : h'.Brought P s := by
  rw [hs.eq]
  exact ⟨hb.spans, hb.kind, hb.origin, hb.fixed, hb.total⟩

/-- The arena a caller brought, between two calls. -/
structure Heap.Upright (P : Profile) (s : Span) (h : Heap) (L : Span → List Cell) : Prop where
  sound : h.Sound P L
  settled : h.Settled L
  brought : h.Brought P s
  lost : h.lostBytes = Mars.lostBytes (L s)

theorem outline_starts_nodup (hf : ∀ c ∈ cs, c.Fits P) : (outline p cs).Nodup := by
  induction cs generalizing p with
  | nil => exact List.nodup_nil
  | cons c cs ih =>
    refine List.nodup_cons.mpr ⟨fun hm => ?_, ih fun d hd => hf d (List.mem_cons_of_mem c hd)⟩
    obtain ⟨b, d, hb, he⟩ := mem_outline.mp hm
    have hp : p = b := congrArg Block.start he
    have := hb.bounds.1
    have := (hf c List.mem_cons_self).pos
    omega

theorem lostBytes_outline : lostBytes cs =
    (((outline p cs).filter fun x => x.used && x.quarantined).map Block.extent).sum := by
  induction cs generalizing p with
  | nil => rfl
  | cons c cs ih =>
    rw [lostBytes_cons, ih (p := p + c.size)]
    change _ = (((⟨p, c.size, c.used, c.quarantined⟩ :: outline (p + c.size) cs).filter _).map _).sum
    rw [List.filter_cons, Cell.used, Cell.quarantined]
    cases c.kind with
    | lost => rfl
    | free | live | bare => exact Nat.zero_add _

theorem lostBytes_congr (hf : ∀ c ∈ cs, c.Fits P) (hf' : ∀ c ∈ ds, c.Fits P)
    (hat : ∀ b c, c.kind = .lost → (At p cs b c ↔ At p ds b c)) : lostBytes cs = lostBytes ds := by
  have hperm : ((outline p cs).filter fun x => x.used && x.quarantined).Perm
      ((outline p ds).filter fun x => x.used && x.quarantined) := by
    refine (List.perm_ext_iff_of_nodup ((outline_starts_nodup hf).filter _)
      ((outline_starts_nodup hf').filter _)).mpr fun x => ?_
    have hlost : ∀ c : Cell, (c.used && c.quarantined) = true → c.kind = .lost := fun c hc => by
      rw [Cell.used, Cell.quarantined] at hc
      cases hk : c.kind with
      | lost => rfl
      | free | live | bare =>
        rw [hk] at hc
        exact absurd hc (by decide)
    rw [List.mem_filter, List.mem_filter, mem_outline, mem_outline]
    constructor
    · rintro ⟨⟨b, c, hb, rfl⟩, hc⟩
      exact ⟨⟨b, c, (hat b c (hlost c hc)).mp hb, rfl⟩, hc⟩
    · rintro ⟨⟨b, c, hb, rfl⟩, hc⟩
      exact ⟨⟨b, c, (hat b c (hlost c hc)).mpr hb, rfl⟩, hc⟩
  rw [lostBytes_outline (p := p), lostBytes_outline (p := p), (hperm.map Block.extent).sum_nat]

namespace Heap.Upright

variable (hU : h.Upright P s L)
include hU

theorem mem : s ∈ h.spans := by
  rw [hU.brought.spans]
  exact List.mem_singleton.mpr rfl

theorem span_eq (ht : t ∈ h.spans) : t = s := by
  rw [hU.brought.spans] at ht
  exact List.mem_singleton.mp ht

theorem spans_ne : h.spans ≠ [] := List.ne_nil_of_mem hU.mem

theorem user : ∀ t ∈ h.spans, t.kind = .user := fun _ ht => hU.span_eq ht ▸ hU.brought.kind

theorem origin : ∀ t ∈ h.spans, (t.lo + P.hdrSize) % 16 = 0 := fun _ ht =>
  hU.span_eq ht ▸ hU.brought.origin

theorem shaped : h.Shaped := by
  have hg := hU.sound.tiled.ground s hU.mem
  refine ⟨hU.spans_ne, ?_, fun t ht => ?_, ?_⟩
  · rw [hU.brought.spans]
    exact List.nodup_singleton s
  · have := hU.span_eq ht
    subst this
    exact ⟨hg.found, hg.lo_pos, hg.lo_lt.le⟩
  · rw [hU.brought.spans, hU.brought.total]
    exact (Nat.add_zero _).symm

theorem exact : h.Exact P := by
  refine hU.sound.exact hU.settled ?_
  rw [hU.brought.spans, hU.lost]
  exact (Nat.add_zero _).symm

theorem checked : (checkHeapUnlocked P h).1 = .ok := exact_check hU.shaped hU.exact

theorem step (ho : h.Outcome P X L h' L') (hs : h.Served h')
    (hX : ∀ t x c, X x → h.CellIn L t x c → c.kind ≠ .lost)
    (hX' : ∀ t x c, X x → h'.CellIn L' t x c → c.kind ≠ .lost) : h'.Upright P s L' := by
  refine ⟨ho.sound, ho.settled, hU.brought.served hs, ?_⟩
  have hmem : s ∈ h'.spans := hs.kin.spans ▸ hU.mem
  rw [hs.lostBytes, hU.lost]
  refine lostBytes_congr (p := s.lo) (hU.sound.tiled.plan.fits s hU.mem)
    (ho.sound.tiled.plan.fits s hmem) fun b c hk => ?_
  have hu : c.used = true := Cell.used_of_ne (by rw [hk]; decide)
  constructor
  · intro hb
    have hc : h.CellIn L s b c := ⟨hU.mem, hb⟩
    exact ((ho.spares.cells s b c hu fun hx => hX s b c hx hc hk).mpr hc).2
  · intro hb
    have hc : h'.CellIn L' s b c := ⟨hmem, hb⟩
    exact ((ho.spares.cells s b c hu fun hx => hX' s b c hx hc hk).mp hc).2

theorem idled (hi : h.Idled L h') : h'.Upright P s L :=
  hU.step (hi.outcome (X := fun _ => False) hU.sound hU.settled) hi.served (fun _ _ _ hx => hx.elim)
    fun _ _ _ hx => hx.elim

theorem alike (ha : Alike h h') : h'.Upright P s L := by
  obtain ⟨e, r, st, w⟩ := ha
  refine ⟨hU.sound.same ⟨rfl, rfl, rfl⟩ rfl rfl rfl (hU.sound.cursor.congr rfl rfl rfl),
    hU.settled.congr rfl, ⟨hU.brought.spans, hU.brought.kind, hU.brought.origin, hU.brought.fixed,
      hU.brought.total⟩, hU.lost⟩

end Heap.Upright

/-- `p` is the payload of a block that is out, or has been given up while it was. -/
def Heap.Backs (P : Profile) (h : Heap) (L : Span → List Cell) (p : Nat) : Prop :=
  ∃ t b c, p = b + P.hdrSize ∧ h.CellIn L t b c ∧ (c.kind = .live ∨ c.kind = .lost)

theorem Heap.Backs.spares (hb : h.Backs P L p) (hs : h.Spares P X L h' L')
    (hX : ∀ x, p = x + P.hdrSize → ¬ X x) : h'.Backs P L' p := by
  obtain ⟨t, b, c, rfl, hc, hk⟩ := hb
  refine ⟨t, b, c, rfl, (hs.cells t b c (Cell.used_of_ne ?_) (hX b rfl)).mpr hc, hk⟩
  rcases hk with hk | hk <;> rw [hk] <;> decide

/-- What an arena and the pointers it has handed out have to do with each other. -/
structure Heap.Backing (P : Profile) (h : Heap) (L : Span → List Cell) (live : List Nat) : Prop where
  nodup : live.Nodup
  backs : ∀ p ∈ live, h.Backs P L p

namespace Heap.Backing

variable {live : List Nat} (hB : h.Backing P L live)
include hB

theorem spares (hs : h.Spares P X L h' L') (hX : ∀ x, X x → x + P.hdrSize ∉ live) :
    h'.Backing P L' live :=
  ⟨hB.nodup, fun p hp => (hB.backs p hp).spares hs fun x he hx => hX x hx (he ▸ hp)⟩

theorem idled (hi : h.Idled L h') (hS : h.Sound P L) (hset : h.Settled L) : h'.Backing P L live :=
  hB.spares (hi.outcome (X := fun _ => False) hS hset).spares fun _ hx => hx.elim

theorem congr (hs : h'.spans = h.spans) : h'.Backing P L live := by
  refine ⟨hB.nodup, fun p hp => ?_⟩
  obtain ⟨t, b, c, he, hc, hk⟩ := hB.backs p hp
  exact ⟨t, b, c, he, ⟨hs ▸ hc.1, hc.2⟩, hk⟩

theorem drop (p : Nat) : h.Backing P L (live.erase p) :=
  ⟨hB.nodup.erase p, fun q hq => hB.backs q (List.mem_of_mem_erase hq)⟩

theorem ne_zero (hp : p ∈ live) : p ≠ 0 := by
  obtain ⟨t, b, c, rfl, -⟩ := hB.backs p hp
  have := P.sizes
  omega

theorem erase (hs : h.Spares P (· = b) L h' L') : h'.Backing P L' (live.erase (b + P.hdrSize)) := by
  refine ⟨hB.nodup.erase _, fun p hp => ?_⟩
  obtain ⟨hne, hp⟩ := (List.Nodup.mem_erase_iff hB.nodup).mp hp
  exact (hB.backs p hp).spares hs fun x he hx => hne (by rw [he, hx])

theorem not_mem (hv : ∀ t d, h.CellIn L t b d → d.kind = .free) : b + P.hdrSize ∉ live := by
  intro hp
  obtain ⟨t, b', c, he, hc, hk⟩ := hB.backs _ hp
  obtain rfl : b = b' := by omega
  have hfree := hv t c hc
  rw [hfree] at hk
  rcases hk with hk | hk <;> exact absurd hk (by decide)

theorem handedOut {s : Span} (ho : h.HandedOut P s b n c L h' L') :
    h'.Backing P L' ((b + P.hdrSize) :: live) := by
  have hnot := hB.not_mem ho.vacant
  have hold := hB.spares ho.spares fun x hx => by rwa [hx]
  refine ⟨List.nodup_cons.mpr ⟨hnot, hB.nodup⟩, fun p hp => ?_⟩
  rcases List.mem_cons.mp hp with rfl | hp
  · exact ⟨s, b, c, rfl, ho.cell, .inl ho.live⟩
  · exact hold.backs p hp

theorem keep {s : Span} (hs : h.Spares P (· = b) L h' L') (hc : h'.CellIn L' s b c)
    (hk : c.kind = .live ∨ c.kind = .lost) : h'.Backing P L' live := by
  refine ⟨hB.nodup, fun p hp => ?_⟩
  by_cases hpb : p = b + P.hdrSize
  · exact ⟨s, b, c, hpb, hc, hk⟩
  · exact (hB.backs p hp).spares hs fun x he hx => hpb (by rw [he, hx])

end Heap.Backing

/-- What holds of a session between any two actions. -/
def Session.Upright (P : Profile) (s : Span) (σ : Session) : Prop :=
  ∃ L, σ.heap.Upright P s L ∧ σ.heap.Backing P L σ.live

theorem Heap.Sound.found_lost (hS : h.Sound P L) (hc : h.CellIn L t b c) (hk : c.kind = .lost) :
    Mars.Found P (b + P.hdrSize) h := by
  obtain ⟨u, -, hh⟩ := hS.tiled.cell hc
  have hb : (blockOf P (b + P.hdrSize) h).1 = b := congrArg Prod.fst (hS.run_blockOf hc)
  have hpos : b ≠ 0 := by
    have := hh.room.lo_pos
    have := hh.room.lo_le
    omega
  refine .quarantined (hb.symm ▸ hpos) ?_ ?_
  · rw [hb]
    exact congrArg Prod.fst hh.run_headerOk
  · rw [hb, hh.word_eq, Cell.wordQuarantined_word, Cell.quarantined, hk]
    rfl

theorem Heap.Sound.sizeOfLive (hS : h.Sound P L) (hc : h.CellIn L t b c)
    (hk : c.kind = .live ∨ c.kind = .lost) :
    (sizeOfLive P (b + P.hdrSize) h).1 = if c.kind = .live then c.requested P else 0 := by
  obtain ⟨u, -, hh⟩ := hS.tiled.cell hc
  have hb : b ≠ 0 := by
    have := hh.room.lo_pos
    have := hh.room.lo_le
    omega
  have hu : c.used = true := Cell.used_of_ne (by rcases hk with hk | hk <;> rw [hk] <;> decide)
  rw [Mars.sizeOfLive, Prog.bind_run_of_eq (hS.run_blockOf hc), if_neg hb,
    Prog.bind_run_of_eq hh.run_headerOk, if_neg (by decide), Prog.bind_run_of_eq hh.run_isUsed, hu,
    if_neg (by decide), Prog.bind_run_of_eq hh.run_isQuarantined, Cell.quarantined]
  rcases hk with hk | hk
  · rw [hk, if_neg (by decide), hh.run_requestedSize hk, if_pos rfl]
  · rw [hk]
    rfl

theorem lostBytes_unsummed (cs : List Cell) : lostBytes (cs.map Cell.unsummed) = lostBytes cs := by
  induction cs with
  | nil => rfl
  | cons c cs ih =>
    rw [List.map_cons, lostBytes_cons, lostBytes_cons, ih]
    rfl

theorem Heap.Sound.kind_eq (hS : h.Sound P L) (hc : h.CellIn L s b c) (hd : h.CellIn L t b d) :
    d.kind = c.kind := by rw [(hS.tiled.plan.cell_unique hd hc).2]

namespace Heap.Upright

variable {live : List Nat} (hU : h.Upright P s L)
include hU

theorem handedOut {u : Span} (ho : h.HandedOut P u b n c L h' L') : h'.Upright P s L' := by
  refine hU.step ho.toOutcome ho.served (fun t x d hx hd => ?_) fun t x d hx hd => ?_
  · rw [ho.vacant t d (hx ▸ hd)]
    decide
  · rw [ho.sound.kind_eq ho.cell (hx ▸ hd), ho.live]
    decide

theorem kept {u : Span} {c' : Cell} (ho : h.Outcome P (· = b) L h' L') (hs : h.Served h')
    (hc : h.CellIn L u b c) (hk : c.kind = .live) (hc' : h'.CellIn L' u b c') (hk' : c'.kind = .live) :
    h'.Upright P s L' := by
  refine hU.step ho hs (fun t x d hx hd => ?_) fun t x d hx hd => ?_
  · rw [hU.sound.kind_eq hc (hx ▸ hd), hk]
    decide
  · rw [ho.sound.kind_eq hc' (hx ▸ hd), hk']
    decide

theorem takenBack {u : Span} (ht : h.TakenBack P u b c L h' L') (hc : h.CellIn L u b c)
    (hk : c.kind = .live) : h'.Upright P s L' := by
  refine hU.step ht.toOutcome ht.served (fun t x d hx hd => ?_) fun t x d hx hd => ?_
  · rw [hU.sound.kind_eq hc (hx ▸ hd), hk]
    decide
  · rw [ht.gone t d (hx ▸ hd)]
    decide

theorem moved {u v : Span} {b' : Nat} {c' : Cell} (hm : h.Moved P b c v b' n c' L h' L')
    (hc : h.CellIn L u b c) (hk : c.kind = .live) : h'.Upright P s L' := by
  refine hU.step hm.toOutcome hm.served ?_ ?_
  · rintro t x d (rfl | rfl) hd
    · rw [hU.sound.kind_eq hc hd, hk]
      decide
    · rw [hm.vacant t d hd]
      decide
  · rintro t x d (rfl | rfl) hd
    · rw [hm.gone t d hd]
      decide
    · rw [hm.sound.kind_eq hm.cell hd, hm.live]
      decide

theorem surrendered {u : Span} (hs : h.Surrendered P u b c L h' L') (hc : h.CellIn L u b c) :
    h'.Upright P s L' := by
  have hu := hU.span_eq hc.1
  subst hu
  refine ⟨hs.sound, hs.settled, ?_, ?_⟩
  · have hb : Heap.Brought P u { h with lostBytes := h.lostBytes + c.size } :=
      ⟨hU.brought.spans, hU.brought.kind, hU.brought.origin, hU.brought.fixed, hU.brought.total⟩
    exact hb.served hs.served
  · rw [hs.served.lostBytes, hs.lost, ← hU.lost]

theorem run_scrub (budget : Nat) : ∃ st h', scrub P budget h = (st, h') ∧ h.Idled L h' := by
  obtain ⟨st, h', hrun, hi, -⟩ := hU.sound.run_scrub hU.settled hU.spans_ne budget
  exact ⟨st, h', hrun, hi⟩

variable (hB : h.Backing P L live)
include hB

theorem run_malloc (n : Nat) : ∃ r h' L', mallocUnlocked P n h = (r, h') ∧ h'.Upright P s L' ∧
    h'.Backing P L' (if r.1 = 0 then live else r.1 :: live) := by
  obtain ⟨lists, hl⟩ := hU.sound.filed.shelves
  obtain ⟨r, h', hrun, hres⟩ := hU.sound.run_mallocUnlocked hU.settled hU.spans_ne hU.brought.fixed hl n
  have hp := P.sizes
  rcases hres with ⟨-, hr, href⟩ | ⟨-, hr, u, c, L', ho⟩
  · refine ⟨r, h', L, hrun, hU.idled href.toIdled, ?_⟩
    rw [if_pos hr]
    exact hB.idled href.toIdled hU.sound hU.settled
  · refine ⟨r, h', L', hrun, hU.handedOut ho, ?_⟩
    rw [hr, if_neg (by omega)]
    exact hB.handedOut ho

theorem run_free (hp : p ∈ live) : ∃ h' L', freeUnlocked P p h = ((), h') ∧ h'.Upright P s L' ∧
    h'.Backing P L' (live.erase p) := by
  obtain ⟨u, b, c, rfl, hc, hk | hk⟩ := hB.backs p hp
  · obtain ⟨h', L', hrun, ht⟩ := hU.sound.run_freeUnlocked hU.settled hc hk (hU.user u hc.1)
    exact ⟨h', L', hrun, hU.takenBack ht hc hk, hB.erase ht.spares⟩
  · have ha : Alike h (freeUnlocked P (b + P.hdrSize) h).2 :=
      (free_of_found (refl_of Alike h) (hU.sound.found_lost hc hk)).1
    exact ⟨_, L, rfl, hU.alike ha, (hB.congr ha.spans).drop _⟩

theorem run_realloc {n : Nat} (hp : p = 0 ∨ p ∈ live) : ∃ q h' L', reallocUnlocked P p n h = (q, h') ∧
    h'.Upright P s L' ∧ h'.Backing P L'
      (if q ≠ 0 then q :: live.erase p else if n = 0 then live.erase p else live) := by
  obtain ⟨h₁, hh₁⟩ : ∃ h₁, h₁ = (clearError h).2 := ⟨_, rfl⟩
  have hrun₁ : clearError h = ((), h₁) := by rw [hh₁, clearError, Prog.modify_run]
  have hn₁ : h.Counted h₁ := hh₁ ▸ ⟨rfl⟩
  have hi₁ := hn₁.idled hU.sound.cursor (by rw [hh₁]; rfl)
  have hU₁ := hU.idled hi₁
  have hB₁ := hB.idled hi₁ hU.sound hU.settled
  rcases hp with rfl | hp
  · obtain ⟨r, h', L', hrun, hU', hB'⟩ := hU₁.run_malloc hB₁ n
    have h0 : live.erase 0 = live := List.erase_of_not_mem fun h' => hB.ne_zero h' rfl
    refine ⟨r.1, h', L', ?_, hU', ?_⟩
    · rw [reallocUnlocked, Prog.bind_run_of_eq hrun₁, if_pos rfl, Prog.bind_run_of_eq hrun]
      rfl
    · rw [h0, ite_self]
      by_cases hr : r.1 = 0
      · rw [if_neg (not_not.mpr hr)]
        rwa [if_pos hr] at hB'
      · rw [if_pos hr]
        rwa [if_neg hr] at hB'
  have hp0 := hB.ne_zero hp
  by_cases hn : n = 0
  · obtain ⟨h', L', hrun, hU', hB'⟩ := hU₁.run_free hB₁ hp
    refine ⟨0, h', L', ?_, hU', ?_⟩
    · rw [reallocUnlocked, Prog.bind_run_of_eq hrun₁, if_neg hp0, if_pos hn,
        Prog.bind_run_of_eq hrun]
      rfl
    · rwa [if_neg (not_not.mpr rfl), if_pos hn]
  obtain ⟨u, b, c, rfl, hc, hk | hk⟩ := hB.backs p hp
  · obtain ⟨q, h', hrun, hres⟩ :=
      hU.sound.run_reallocUnlocked hU.settled hc hk hU.brought.fixed hU.user hn
    have hhdr := P.sizes
    rcases hres with ⟨rfl, href⟩ | ⟨c', L', rfl, hr⟩ | ⟨u', b', c', L', rfl, hm⟩
    · refine ⟨0, h', L, hrun, hU.idled href.toIdled, ?_⟩
      rw [if_neg (not_not.mpr rfl), if_neg hn]
      exact hB.idled href.toIdled hU.sound hU.settled
    · refine ⟨_, h', L', hrun, hU.kept hr.toOutcome hr.served hc hk hr.cell hr.live, ?_⟩
      rw [if_pos hp0]
      have hkeep := hB.keep hr.spares hr.cell (.inl hr.live)
      exact ⟨(List.perm_cons_erase hp).nodup_iff.mp hkeep.nodup, fun q hq =>
        hkeep.backs q ((List.perm_cons_erase hp).mem_iff.mpr hq)⟩
    · refine ⟨_, h', L', hrun, hU.moved hm hc hk, ?_⟩
      rw [if_pos (by omega)]
      have hnot := hB.not_mem hm.vacant
      refine ⟨List.nodup_cons.mpr ⟨fun h' => hnot (List.mem_of_mem_erase h'), hB.nodup.erase _⟩,
        fun q hq => ?_⟩
      rcases List.mem_cons.mp hq with rfl | hq
      · exact ⟨u', b', c', rfl, hm.cell, .inl hm.live⟩
      obtain ⟨hne, hq⟩ := (List.Nodup.mem_erase_iff hB.nodup).mp hq
      refine (hB.backs q hq).spares hm.spares fun x he hx => ?_
      rcases hx with hx | hx
      · exact hne (by rw [he, hx])
      · exact hnot (by rwa [← hx, ← he])
  · have hr := realloc_of_found n hp0 (hU.sound.found_lost hc hk)
    obtain ⟨q, h', hrun⟩ : ∃ q h', reallocUnlocked P (b + P.hdrSize) n h = (q, h') := ⟨_, _, rfl⟩
    rw [wp, hrun] at hr
    obtain ⟨rfl, ha, -⟩ := hr
    refine ⟨0, h', L, hrun, hU.alike ha, ?_⟩
    rw [if_neg (not_not.mpr rfl), if_neg hn]
    exact hB.congr ha.spans

theorem run_memalign {align n : Nat} (ha : align = 2 ^ Nat.log2 align) (ha' : align < 2 ^ 64)
    (hn : n < 2 ^ 64) : ∃ q h' L', memalignUnlocked P align n h = (q, h') ∧ h'.Upright P s L' ∧
      h'.Backing P L' (if q = 0 then live else q :: live) := by
  by_cases hle : align ≤ alignment
  · obtain ⟨r, h', L', hrun, hU', hB'⟩ := hU.run_malloc hB n
    refine ⟨r.1, h', L', ?_, hU', hB'⟩
    rw [memalignUnlocked, if_pos hle, Prog.bind_run_of_eq hrun]
    rfl
  have hal : alignment = 16 := rfl
  rw [ha] at ha' hle ⊢
  obtain ⟨q, h', L', hrun, hres, -⟩ := hU.sound.run_memalignUnlocked hU.settled hU.spans_ne
    hU.brought.fixed hU.user hU.origin (k := Nat.log2 align) (by omega) ha' hn
  have hhdr := P.sizes
  rcases hres with ⟨rfl, hd⟩ | ⟨u, b, c, rfl, -, ho⟩
  · refine ⟨0, h', L', hrun, hU.step hd.toOutcome hd.served (fun _ _ _ hx => hx.elim)
      fun _ _ _ hx => hx.elim, ?_⟩
    rw [if_pos rfl]
    exact hB.spares hd.spares fun _ hx => hx.elim
  · refine ⟨_, h', L', hrun, hU.handedOut ho, ?_⟩
    rw [if_neg (by omega)]
    exact hB.handedOut ho

theorem run_read (hp : p ∈ live) (off len : Nat) (bufNull : Bool) : ∃ L',
    (mmRead P p off bufNull len h).2.Upright P s L' ∧ (mmRead P p off bufNull len h).2.Backing P L' live := by
  obtain ⟨u, b, c, rfl, hc, hk | hk⟩ := hB.backs p hp
  · obtain ⟨r, h', hrun, hres⟩ := hU.sound.run_mmRead hU.settled hc hk off len bufNull
    rw [hrun]
    rcases hres with ⟨-, -, hi⟩ | ⟨-, -, -, hi⟩ | ⟨-, -, L', hs⟩
    · exact ⟨L, hU.idled hi, hB.idled hi hU.sound hU.settled⟩
    · exact ⟨L, hU.idled hi, hB.idled hi hU.sound hU.settled⟩
    · exact ⟨L', hU.surrendered hs hc, hB.keep hs.spares hs.cell (.inr rfl)⟩
  · have ha := (read_of_found off len bufNull (hU.sound.found_lost hc hk)).2.1
    exact ⟨L, hU.alike ha, hB.congr ha.spans⟩

theorem run_write (hp : p ∈ live) (off : Nat) (src : Source) : ∃ L',
    (mmWrite P p off src h).2.Upright P s L' ∧ (mmWrite P p off src h).2.Backing P L' live := by
  obtain ⟨u, b, c, rfl, hc, hk | hk⟩ := hB.backs p hp
  · obtain ⟨r, h', hrun, hres⟩ := hU.sound.run_mmWrite hU.settled hc hk off src
    rw [hrun]
    rcases hres with ⟨-, -, hi⟩ | ⟨bs, L', -, -, -, hw⟩
    · exact ⟨L, hU.idled hi, hB.idled hi hU.sound hU.settled⟩
    · obtain ⟨v, hv⟩ := hw.cell
      exact ⟨L', hU.kept hw.toOutcome hw.served hc hk hv hk, hB.keep hw.spares hv (.inl hk)⟩
  · have ha := (write_of_found off src (hU.sound.found_lost hc hk)).2.1
    exact ⟨L, hU.alike ha, hB.congr ha.spans⟩

theorem poke (hp : p ∈ live) {off : Nat} {bs : List UInt8}
    (hin : off + bs.length ≤ (sizeOfLive P p h).1) :
    (h.withMem (h.mem.storeBytes (p + off) bs)).Upright P s L ∧
      (h.withMem (h.mem.storeBytes (p + off) bs)).Backing P L live := by
  have hk := h.kin_withMem (h.mem.storeBytes (p + off) bs)
  refine ⟨⟨?_, hU.settled.congr hk.spans, ⟨hU.brought.spans, hU.brought.kind, hU.brought.origin,
    hU.brought.fixed, hU.brought.total⟩, hU.lost⟩, hB.congr hk.spans⟩
  obtain ⟨u, b, c, rfl, hc, hkind⟩ := hB.backs p hp
  rw [hU.sound.sizeOfLive hc hkind] at hin
  rcases hkind with hkind | hkind
  · rw [if_pos hkind] at hin
    exact hU.sound.poke hc hkind fun a ha => Memory.byte_store_of_notMem (by omega)
  · rw [if_neg (by rw [hkind]; decide)] at hin
    have hsame : h.mem.storeBytes (b + P.hdrSize + off) bs = h.mem :=
      Memory.ext_byte fun a => Memory.byte_store_of_notMem (by omega)
    rw [hsame]
    exact hU.sound

theorem run_setMode (mode : Mode) : ∃ h' L', setModeUnlocked P mode h = ((), h') ∧
    h'.Upright P s L' ∧ h'.Backing P L' live := by
  have hread : Prog.read Heap.mode h = (h.mode, h) := rfl
  rw [setModeUnlocked, Prog.bind_run_of_eq hread, Prog.when_run]
  by_cases hm : h.mode ≠ mode
  swap
  · rw [if_neg hm]
    exact ⟨h, L, rfl, hU, hB⟩
  obtain ⟨h₁, hh₁⟩ : ∃ h₁ : Heap, h₁ = { h with mode := mode } := ⟨_, rfl⟩
  have hk₁ : h.Kin h₁ := hh₁ ▸ ⟨rfl, rfl, rfl⟩
  have hS₁ : h₁.Sound P L := hU.sound.same hk₁ (by rw [hh₁]) (by rw [hh₁]) (by rw [hh₁])
    (hU.sound.cursor.congr hk₁.spans (by rw [hh₁]) (by rw [hh₁]))
  have hU₁ : h₁.Upright P s L := by
    refine ⟨hS₁, hU.settled.congr hk₁.spans, ?_, ?_⟩
    · rw [hh₁]
      exact ⟨hU.brought.spans, hU.brought.kind, hU.brought.origin, hU.brought.fixed, hU.brought.total⟩
    · rw [hh₁]
      exact hU.lost
  have hB₁ : h₁.Backing P L live := hB.congr hk₁.spans
  have hrun₁ : Prog.modify (fun h : Heap => { h with mode := mode }) h = ((), h₁) := by
    rw [hh₁, Prog.modify_run]
  have hspans : Prog.read Heap.spans h₁ = (h₁.spans, h₁) := rfl
  rw [if_pos hm, Prog.bind_run_of_eq hrun₁, Prog.bind_run_of_eq hspans, Prog.when_run]
  by_cases hcrc : P.hasCrc = true ∧ mode = .libc
  swap
  · rw [if_neg hcrc]
    exact ⟨h₁, L, rfl, hU₁, hB₁⟩
  obtain ⟨h', L', hrun, hf⟩ := hS₁.run_forgetPayloadCrcs hcrc.1 (D := h₁.spans) fun _ ht => ht
  have hL' : ∀ t ∈ h₁.spans, L' t = (L t).map Cell.unsummed := fun t ht => by rw [hf.cells, if_pos ht]
  have hsp := hf.work.kin.spans
  rw [if_pos hcrc]
  refine ⟨h', L', hrun, ⟨hf.sound, fun t b c hc => ?_, hU₁.brought.served hf.work.served, ?_⟩,
    hB₁.nodup, fun p hp => ?_⟩
  · obtain ⟨ht, hat⟩ := hc
    rw [hsp] at ht
    rw [hL' t ht, at_unsummed] at hat
    obtain ⟨d, hd, rfl⟩ := hat
    exact hU₁.settled t b d ⟨ht, hd⟩
  · rw [hL' s hU₁.mem, hf.work.served.lostBytes, hU₁.lost, lostBytes_unsummed]
  · obtain ⟨t, b, c, he, hc, hk⟩ := hB₁.backs p hp
    refine ⟨t, b, c.unsummed, he, ⟨hsp ▸ hc.1, ?_⟩, hk⟩
    rw [hL' t hc.1]
    exact at_unsummed.mpr ⟨c, hc.2, rfl⟩

end Heap.Upright

instance Observes.checkHeapUnlocked (P : Profile) : Observes (checkHeapUnlocked P) := by
  have : Observes (Prog.read Heap.spans) := observes_read fun _ _ _ _ _ => rfl
  have : Observes (Prog.read Heap.lostBytes) := observes_read fun _ _ _ _ _ => rfl
  unfold Mars.checkHeapUnlocked; infer_instance

instance Observes.mmCheckHeap (P : Profile) : Observes (mmCheckHeap P) := by
  unfold Mars.mmCheckHeap; infer_instance

instance respects_mmVerify (P : Profile) (ptr : Nat) : Respects Alike (mmVerify P ptr) := by
  unfold Mars.mmVerify verifyUnlocked; infer_instance

theorem toNat_of_okFor {live : List Nat} {ptr : UInt64}
    (h : (ptr.toNat == 0 || live.contains ptr.toNat) = true) : ptr.toNat = 0 ∨ ptr.toNat ∈ live := by
  simpa using h

theorem Heap.Upright.call {live : List Nat} (hU : h.Upright P s L) (hB : h.Backing P L live) (c : Call)
    (hv : c.okFor live = true) :
    ∃ L', (c.run P h).2.Upright P s L' ∧
      (c.run P h).2.Backing P L' (c.liveAfter live (c.run P h).1) := by
  cases c with
  | malloc size =>
    obtain ⟨r, h', L', hrun, hU', hB'⟩ := hU.run_malloc hB size.toNat
    have hcall : (Call.malloc size).run P h = (.pointer r.1, h') := by
      rw [Call.run, mmMalloc, Prog.bind_run, Prog.bind_run_of_eq hrun]
      rfl
    rw [hcall]
    exact ⟨L', hU', hB'⟩
  | free ptr =>
    rcases toNat_of_okFor hv with h0 | hp
    · have hcall : (Call.free ptr).run P h = (.void, (clearError h).2) := by
        rw [Call.run, mmFree, if_pos h0]
        rfl
      have hi : h.Idled L (clearError h).2 := (⟨rfl⟩ : h.Counted _).idled hU.sound.cursor rfl
      rw [hcall]
      exact ⟨L, hU.idled hi, (hB.idled hi hU.sound hU.settled).drop _⟩
    · obtain ⟨h', L', hrun, hU', hB'⟩ := hU.run_free hB hp
      have hcall : (Call.free ptr).run P h = (.void, h') := by
        rw [Call.run, mmFree, if_neg (hB.ne_zero hp), Prog.bind_run_of_eq hrun]
        rfl
      rw [hcall]
      exact ⟨L', hU', hB'⟩
  | realloc ptr newSize =>
    obtain ⟨q, h', L', hrun, hU', hB'⟩ := hU.run_realloc hB (n := newSize.toNat) (toNat_of_okFor hv)
    have hcall : (Call.realloc ptr newSize).run P h = (.pointer q, h') := by
      rw [Call.run, mmRealloc, Prog.bind_run_of_eq hrun]
      rfl
    rw [hcall]
    exact ⟨L', hU', hB'⟩
  | memalign align size =>
    obtain ⟨q, h', L', hrun, hU', hB'⟩ := hU.run_memalign hB (beq_iff_eq.mp hv) align.toNat_lt
      size.toNat_lt
    have hcall : (Call.memalign align size).run P h = (.pointer q, h') := by
      rw [Call.run, mmMemalign, Prog.bind_run_of_eq hrun]
      rfl
    rw [hcall]
    exact ⟨L', hU', hB'⟩
  | read ptr offset bufNull len =>
    exact hU.run_read hB (List.contains_iff_mem.mp hv) offset.toNat len.toNat bufNull
  | write ptr offset src => exact hU.run_write hB (List.contains_iff_mem.mp hv) offset.toNat src
  | verify ptr =>
    have ha : Alike h (mmVerify P ptr.toNat h).2 := Respects.step h
    exact ⟨L, hU.alike ha, hB.congr ha.spans⟩
  | checkHeap =>
    have ha : Alike h (mmCheckHeap P h).2 := Respects.step h
    exact ⟨L, hU.alike ha, hB.congr ha.spans⟩
  | scrub budget =>
    obtain ⟨st, h', hrun, hi⟩ := hU.run_scrub budget.toNat
    have hcall : (Call.scrub budget).run P h = (.status st, h') := by
      rw [Call.run, mmScrub, Prog.bind_run_of_eq hrun]
      rfl
    rw [hcall]
    exact ⟨L, hU.idled hi, hB.idled hi hU.sound hU.settled⟩
  | setMode mode =>
    obtain ⟨h', L', hrun, hU', hB'⟩ := hU.run_setMode hB mode
    have hcall : (Call.setMode mode).run P h = (.void, h') := by
      rw [Call.run, mmSetMode, Prog.bind_run_of_eq hrun]
      rfl
    rw [hcall]
    exact ⟨L', hU', hB'⟩
  | setScrubInterval ops budget =>
    obtain ⟨h', hh'⟩ : ∃ h', h' = (mmSetScrubInterval ops.toNat budget.toNat h).2 := ⟨_, rfl⟩
    have hk : h.Kin h' := hh' ▸ ⟨rfl, rfl, rfl⟩
    have hcall : (Call.setScrubInterval ops budget).run P h = (.void, h') := by
      rw [hh']
      rfl
    rw [hcall]
    refine ⟨L, ⟨hU.sound.same hk ?_ ?_ ?_ (hU.sound.cursor.congr hk.spans ?_ ?_),
      hU.settled.congr hk.spans, ⟨hk.spans.trans hU.brought.spans, hU.brought.kind,
        hU.brought.origin, ?_, ?_⟩, ?_⟩, hB.congr hk.spans⟩ <;> rw [hh']
    · rfl
    · rfl
    · rfl
    · rfl
    · rfl
    · exact hU.brought.fixed
    · exact hU.brought.total
    · exact hU.lost

theorem Session.Upright.next (hu : σ.Upright P s) (a : Action) (hv : a.okFor P σ = true) :
    (σ.next P a).Upright P s := by
  obtain ⟨L, hU, hB⟩ := hu
  cases a with
  | call c => exact hU.call hB c hv
  | poke ptr offset bytes =>
    rw [Action.okFor, Bool.and_eq_true, decide_eq_true_eq, List.contains_iff_mem] at hv
    obtain ⟨hU', hB'⟩ := hU.poke hB hv.1 hv.2
    exact ⟨L, hU', hB'⟩

theorem Session.Upright.play (hu : σ.Upright P s) {actions : List Action}
    (hp : σ.playable P Action.any actions = true) : (σ.play P actions).Upright P s := by
  induction actions generalizing σ with
  | nil => exact hu
  | cons a actions ih =>
    simp only [Session.playable, Bool.and_eq_true] at hp
    exact ih (hu.next a hp.1.2) hp.2

theorem Session.upright (buf : Buffer P) (hsmall : usableOf P buf.size < 2 ^ 58) (mem : Memory)
    (secret : UInt64) {actions : List Action}
    (hp : (Session.start buf mem secret).playable P Action.any actions = true) :
    ((Session.start buf mem secret).play P actions).Upright P buf.span := by
  obtain ⟨hb, hl, -, hS⟩ := Session.start_sound buf hsmall mem secret
  refine Session.Upright.play ⟨_, ⟨hS, fun t b c hc => ?_, hb, hl⟩, List.nodup_nil, fun p hp => ?_⟩ hp
  · rw [(at_one.mp hc.2).2]
    exact show Kind.free ≠ .bare by decide
  · exact absurd hp List.not_mem_nil

end Mars
