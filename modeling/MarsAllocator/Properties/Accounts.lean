import MarsAllocator.Invariant.Owned

namespace Mars

open ByteMemory ByteStore StateProgram

variable {P : Profile} {h h' : Heap} {s t : Span} {b n p q x : Nat} {c d : Cell} {u : Bool}
  {L L' : Span → List Cell} {live : List Nat} {cs : List Cell} {σ : Session} {α : Type}

theorem sum_of_entries (f : α → Nat × Nat × Nat) (l : List α) : (l.map f).sum =
    ((l.map fun a => (f a).1).sum, (l.map fun a => (f a).2.1).sum, (l.map fun a => (f a).2.2).sum) := by
  induction l with
  | nil => rfl
  | cons a l ih =>
    rw [List.map_cons, List.sum_cons, ih]
    rfl

theorem sum_filter_add (f : α → Nat) (g : α → Bool) (l : List α) : (l.map f).sum =
    ((l.filter g).map f).sum + ((l.filter fun a => !g a).map f).sum := by
  induction l with
  | nil => rfl
  | cons a l ih =>
    rw [List.map_cons, List.sum_cons, ih]
    cases hg : g a with
    | true =>
      rw [List.filter_cons_of_pos hg, List.filter_cons_of_neg (by rw [hg]; decide), List.map_cons, List.sum_cons]
      omega
    | false =>
      rw [List.filter_cons_of_neg (by rw [hg]; decide), List.filter_cons_of_pos (by rw [hg]; rfl), List.map_cons,
        List.sum_cons]
      omega

theorem sum_outline : ((outline p cs).map Block.extent).sum = extents cs := by
  induction cs generalizing p with
  | nil => rfl
  | cons c cs ih => rw [outline, List.map_cons, List.sum_cons, ih, extents_cons]

theorem starts_nodup (hf : ∀ c ∈ cs, c.Fits P) : ((outline p cs).map Block.start).Nodup := by
  induction cs generalizing p with
  | nil => exact List.nodup_nil
  | cons c cs ih =>
    rw [outline, List.map_cons, List.nodup_cons]
    refine ⟨fun hin => ?_, ih fun d hd => hf d (List.mem_cons_of_mem c hd)⟩
    obtain ⟨d, hd⟩ := mem_starts.mp hin
    have hb : p + c.size ≤ p := hd.bounds.1
    have := (hf c List.mem_cons_self).pos
    omega

theorem Heap.Sound.layout_nodup (hS : h.Sound P L) (hd : h.spans.Nodup) :
    ((h.layout P).map Block.start).Nodup := by
  rw [hS.layout, List.map_flatMap, List.nodup_flatMap]
  refine ⟨fun s hs => starts_nodup (hS.tiled.plan.fits s hs), ?_⟩
  refine hd.pairwise_of_forall_ne fun s hs t ht hne => ?_
  refine List.disjoint_left.mpr fun b hb hb' => ?_
  obtain ⟨c, hc⟩ := mem_starts.mp hb
  obtain ⟨d, hd⟩ := mem_starts.mp hb'
  have hcs : h.CellIn L s b c := ⟨hs, hc⟩
  have hdt : h.CellIn L t b d := ⟨ht, hd⟩
  exact hne (hS.tiled.plan.cell_unique hcs hdt).1

theorem Heap.Sound.sum_layout (hS : h.Sound P L) :
    ((h.layout P).map Block.extent).sum = (h.spans.map fun s => s.hi - s.lo).sum := by
  rw [hS.layout, List.map_flatMap, List.flatMap, List.sum_flatten, List.map_map]
  refine congrArg List.sum (List.map_congr_left fun s hs => ?_)
  rw [Function.comp_apply]
  have hends := hS.tiled.plan.ends s hs
  rw [sum_outline]
  omega

theorem Heap.Kempt.audited_asked (hK : h.Kempt P L live) (hw : h.lostBytes = 0) (ha : h.Audited P L live)
    (supply : List (Option Nat)) : { h with supply := supply }.Audited P L live :=
  ha.spares ⟨fun _ _ _ _ _ => Iff.rfl, fun _ _ => rfl⟩ rfl fun _ hq =>
    hK.entry_spares (X := fun _ => False) hw (hK.asked supply).thriving.sound
      ⟨fun _ _ _ _ _ => Iff.rfl, fun _ _ => rfl⟩ hq fun _ _ _ _ _ _ hx => hx

theorem Heap.Kempt.audited_poke (hK : h.Kempt P L live) (hw : h.lostBytes = 0) (ha : h.Audited P L live)
    {off : Nat} {bs : List UInt8} (hp : p ∈ live) (hin : off + bs.length ≤ (sizeOfLive P p h).1) :
    (h.withMem (h.mem.storeBytes (p + off) bs)).Audited P L live := by
  have hK' := hK.poke hp hin
  refine ⟨ha.owned, ha.counted.trans (congrArg List.sum (List.map_congr_left fun q hq => ?_))⟩
  obtain ⟨t, x, d, rfl, hd, hk⟩ := hK.live_cell hw hq
  rw [hK.thriving.sound.entry_eq hd hk]
  exact (hK'.thriving.sound.entry_eq hd hk).symm

theorem Arrived.audited (hr : Arrived P Action.any σ) (hw : σ.heap.lostBytes = 0) :
    ∃ L, σ.heap.Kempt P L σ.live ∧ σ.heap.Audited P L σ.live := by
  have hempty : ∀ {h : Heap} {L : Span → List Cell}, h.stats = {} →
      (∀ t b c, h.CellIn L t b c → c.kind = .free) → h.Audited P L [] := fun hst hfree =>
    ⟨fun t b c hc hu => absurd (hfree t b c hc) (Cell.used_iff.mp hu), by rw [hst]; rfl⟩
  induction hr with
  | brought buf mem secret =>
    have hsmall : usableOf P buf.size < 2 ^ 58 := by
      by_contra hwide
      have := Session.start_loses buf (by omega) mem secret
      omega
    obtain ⟨-, -, ⟨-, hst⟩, -⟩ := Session.start_sound buf hsmall mem secret
    refine ⟨_, Session.start_kempt buf hsmall mem secret, hempty hst fun t b c hc => ?_⟩
    rw [(at_one.mp hc.2).2]
    rfl
  | mapped mem secret supply ho hopen =>
    obtain ⟨L, hL⟩ := Heap.Opened.mapped mem secret supply ho hopen
    exact ⟨L, hL.kempt, hempty hL.stats hL.free⟩
  | @step σ a supply hr _ hv ho ih =>
    have hle := (σ.offered supply).lost_next (P := P) a
    have hw₀ : σ.heap.lostBytes = 0 := by
      change σ.heap.lostBytes ≤ _ at hle
      omega
    obtain ⟨L, hK, ha⟩ := ih hw₀
    have hK₁ : (σ.offered supply).heap.Kempt P L σ.live := hK.asked supply
    have ha₁ : (σ.offered supply).heap.Audited P L σ.live := hK.audited_asked hw₀ ha supply
    cases a with
    | call c =>
      obtain ⟨L', he, hK'⟩ := hK₁.comes c hv ho
      refine ⟨L', hK', he.audited hK₁ hw₀ hw hK' hv (fun hc => ?_) ha₁⟩
      rw [hc]
      exact congrArg Reply.status hK₁.mmCheckHeap
    | poke ptr off bs =>
      rw [Action.okFor, Bool.and_eq_true, decide_eq_true_eq, List.contains_iff_mem] at hv
      exact ⟨L, hK₁.poke hv.1 hv.2, hK₁.audited_poke hw₀ ha₁ hv.1 hv.2⟩

theorem Heap.Audited.outstanding (ha : h.Audited P L live) (hK : h.Kempt P L live) (hw : h.lostBytes = 0) :
    (((h.layout P).filter Block.used).map fun x => x.start + P.hdrSize).Perm live := by
  have hS := hK.thriving.sound
  have hnodup : (((h.layout P).filter Block.used).map fun x => x.start + P.hdrSize).Nodup := by
    have hstarts := (List.filter_sublist (p := Block.used)).map Block.start |>.nodup
      (hS.layout_nodup hK.thriving.distinct)
    have hmap := hstarts.map (f := (· + P.hdrSize)) fun _ _ hab => Nat.add_right_cancel hab
    rwa [List.map_map] at hmap
  refine (List.perm_ext_iff_of_nodup hnodup hK.backing.nodup).mpr fun p => ?_
  rw [List.mem_map]
  constructor
  · rintro ⟨x, hx, rfl⟩
    obtain ⟨hx, hu⟩ := List.mem_filter.mp hx
    obtain ⟨s, b, c, hc, rfl⟩ := hS.mem_layout.mp hx
    exact ha.owned s b c hc hu
  · intro hp
    obtain ⟨s, b, c, rfl, hc, hk⟩ := hK.live_cell hw hp
    exact ⟨_, List.mem_filter.mpr ⟨hS.mem_layout.mpr ⟨s, b, c, hc, rfl⟩,
      Cell.used_of_ne (by rw [hk]; decide)⟩, rfl⟩

/-- In any session that has lost nothing, the blocks in use are those that are out, each of them
once, the live counters count them, and what they leave of the spans is free. -/
theorem books_balance (hr : Arrived P Action.any σ) (hw : σ.heap.lostBytes = 0) :
    (((σ.heap.layout P).filter Block.used).map fun x => x.start + P.hdrSize).Perm σ.live ∧
    σ.heap.stats.liveBlocks = σ.live.length ∧
    σ.heap.stats.liveBlockBytes = (((σ.heap.layout P).filter Block.used).map Block.extent).sum ∧
    σ.heap.stats.livePayloadBytes = (σ.live.map fun p => (sizeOfLive P p σ.heap).1).sum ∧
    σ.heap.totalBytes = σ.heap.stats.liveBlockBytes + σ.heap.freeSpace P := by
  obtain ⟨L, hK, ha⟩ := hr.audited hw
  have hS := hK.thriving.sound
  have hperm := ha.outstanding hK hw
  have hcount := ha.counted
  rw [sum_of_entries] at hcount
  have hblocks : σ.heap.stats.liveBlocks = (σ.live.map fun _ => 1).sum := congrArg Prod.fst hcount
  have hbytes : σ.heap.stats.liveBlockBytes =
      (σ.live.map fun p => wordSize (σ.heap.word (p - P.hdrSize))).sum :=
    congrArg (fun e => e.2.1) hcount
  have hextents : σ.heap.stats.liveBlockBytes =
      (((σ.heap.layout P).filter Block.used).map Block.extent).sum := by
    rw [hbytes, ← (hperm.map _).sum_nat, List.map_map]
    refine congrArg List.sum (List.map_congr_left fun x hx => ?_)
    obtain ⟨s, b, c, hc, rfl⟩ := hS.mem_layout.mp (List.mem_filter.mp hx).1
    obtain ⟨u, -, hh⟩ := hS.tiled.cell hc
    rw [Function.comp_apply, Nat.add_sub_cancel, hh.word_eq, Cell.wordSize_word hh.fits]
  refine ⟨hperm, ?_, hextents, congrArg (fun e => e.2.2) hcount, ?_⟩
  · rw [hblocks, List.map_const', List.sum_replicate_nat, Nat.mul_one]
  · rw [hK.thriving.total, ← hS.sum_layout, sum_filter_add Block.extent Block.used, hextents]
    rfl

theorem books_balance_eight : Session.eight.heap.stats.liveBlocks = Session.eight.live.length ∧
    Session.eight.heap.totalBytes =
      Session.eight.heap.stats.liveBlockBytes + Session.eight.heap.freeSpace .hardened :=
  have h := books_balance eight_arrived (by decide +kernel)
  ⟨h.2.1, h.2.2.2.2⟩

/-- In any session that has lost nothing, what the program has of each block lies inside one span
that is listed, between its own header and its own trailer, apart from all the others; every span
mapped for one block has a block that is out; and the heap check finds nothing. -/
theorem blocks_in_bounds (hr : Arrived P Action.any σ) (hw : σ.heap.lostBytes = 0) :
    (∀ p ∈ σ.live, p % alignment = 0 ∧ ∃ s ∈ σ.heap.spans, s.lo + P.hdrSize ≤ p ∧
      p + (sizeOfLive P p σ.heap).1 + P.trail ≤ s.hi) ∧
    (∀ p ∈ σ.live, ∀ q ∈ σ.live, p < q →
      p + (sizeOfLive P p σ.heap).1 + P.trail + P.hdrSize ≤ q) ∧
    σ.live.Nodup ∧
    (∀ s ∈ σ.heap.spans, s.kind = .large → ∃ p ∈ σ.live, s.lo ≤ p ∧ p < s.hi) ∧
    (mmCheckHeap P σ.heap).1 = .ok := by
  obtain ⟨L, hK, ha⟩ := hr.audited hw
  have hS := hK.thriving.sound
  have hp := P.sizes
  have hroom : ∀ {s : Span} {b : Nat} {c : Cell}, σ.heap.CellIn L s b c → c.kind = .live →
      s.lo ≤ b ∧ b + c.size ≤ s.hi ∧
        b + P.hdrSize + (sizeOfLive P (b + P.hdrSize) σ.heap).1 + P.trail ≤ b + c.size := by
    intro s b c hc hk
    have hb := hS.tiled.plan.bounds hc
    have hfit := hS.tiled.plan.cell_fits hc
    have hslack := hfit.slack_le hk
    have htrail := hfit.trail_le hk
    rw [hS.sizeOfLive hc (.inl hk), if_pos hk, Cell.requested]
    omega
  refine ⟨fun p hp => ?_, fun p hp q hq hlt => ?_, hK.backing.nodup, fun s hs hk => ?_, hK.mmCheckHeap⟩
  · obtain ⟨s, b, c, rfl, hc, hk⟩ := hK.live_cell hw hp
    obtain ⟨h₁, h₂, h₃⟩ := hroom hc hk
    exact ⟨hK.thriving.payload_aligned hc, s, hc.1, by omega, by omega⟩
  · obtain ⟨s, b, c, rfl, hc, hk⟩ := hK.live_cell hw hp
    obtain ⟨t, b', d, rfl, hd, hk'⟩ := hK.live_cell hw hq
    obtain ⟨-, -, h₃⟩ := hroom hc hk
    rcases hS.tiled.plan.apart hc hd with ⟨-, hx, -⟩ | hap
    · omega
    · have := (hS.tiled.plan.cell_fits hd).pos
      omega
  · obtain ⟨b, c, hc, hu⟩ := (hK.busy s hs hk).resolve_left id
    have hcell : σ.heap.CellIn L s b c := ⟨hs, hc⟩
    have hb := hS.tiled.plan.bounds hcell
    have hmin := (hS.tiled.plan.cell_fits hcell).min_le
    exact ⟨b + P.hdrSize, ha.owned s b c hcell hu, by omega, by omega⟩

theorem blocks_in_bounds_eight : ∃ s ∈ Session.eight.heap.spans, s.lo + Profile.hardened.hdrSize ≤ 4112 ∧
    4112 + (sizeOfLive .hardened 4112 Session.eight.heap).1 + Profile.hardened.trail ≤ s.hi :=
  ((blocks_in_bounds eight_arrived (by decide +kernel)).1 4112 (by decide +kernel)).2

end Mars
