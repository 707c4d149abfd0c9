import MarsAllocator.Invariant.Forget
import MarsAllocator.Properties.Exactness
import MarsAllocator.Model.Session

namespace Mars

open ByteMemory StateProgram Tiling LinkedChain

variable {P : Profile} {h h' : Heap} {s : Span} {b p : Nat} {u : Bool} {c d : Cell}
  {L L' : Span → List Cell} {cs ds : List Cell} {κ κ' : Nat} {m m' : Memory} {mirrors : Prop}

/-- A block of the tiling. -/
structure Block where
  start : Nat
  extent : Nat
  used : Bool
  quarantined : Bool
  deriving DecidableEq

def Heap.blockAt (h : Heap) (b : Nat) : Block :=
  ⟨b, h.extent b, wordUsed (h.word b), wordQuarantined (h.word b)⟩

def Heap.layout (P : Profile) (h : Heap) : List Block := (h.tiling P).map h.blockAt

def Heap.freeSpace (P : Profile) (h : Heap) : Nat :=
  (((h.layout P).filter fun x => !x.used).map Block.extent).sum

def outline : (p : Nat) → List Cell → List Block
  | _, [] => []
  | p, c :: cs => ⟨p, c.size, c.used, c.quarantined⟩ :: outline (p + c.size) cs

theorem mem_outline {x : Block} : x ∈ outline p cs ↔
    ∃ b c, At p cs b c ∧ x = ⟨b, c.size, c.used, c.quarantined⟩ := by
  induction cs generalizing p with
  | nil => simp [outline, At]
  | cons d cs ih =>
    rw [outline, List.mem_cons, ih]
    constructor
    · rintro (rfl | ⟨b, c, hb, rfl⟩)
      · exact ⟨p, d, .inl ⟨rfl, rfl⟩, rfl⟩
      · exact ⟨b, c, .inr hb, rfl⟩
    · rintro ⟨b, c, ⟨rfl, rfl⟩ | hb, rfl⟩
      · exact .inl rfl
      · exact .inr ⟨b, c, hb, rfl⟩

theorem mem_starts : b ∈ (outline p cs).map Block.start ↔ ∃ c, At p cs b c := by
  rw [List.mem_map]
  constructor
  · rintro ⟨x, hx, rfl⟩
    obtain ⟨b, c, hb, rfl⟩ := mem_outline.mp hx
    exact ⟨c, hb⟩
  · rintro ⟨c, hb⟩
    exact ⟨_, mem_outline.mpr ⟨b, c, hb, rfl⟩, rfl⟩

theorem CellAt.blockAt (hc : CellAt P κ mirrors s h.mem b u c) (hf : c.Fits P) :
    h.blockAt b = ⟨b, c.size, c.used, c.quarantined⟩ := by
  have hw : h.word b = c.word u := hc.word
  rw [Heap.blockAt, Heap.extent, hw, Cell.wordSize_word hf, Cell.wordUsed_word,
    Cell.wordQuarantined_word]

theorem CellAt.extent (hc : CellAt P κ mirrors s h.mem b u c) (hf : c.Fits P) :
    h.extent b = c.size := congrArg Block.extent (hc.blockAt hf)

theorem Rest.cons (hr : Rest P κ mirrors s m p u (c :: cs)) :
    CellAt P κ mirrors s m p u c ∧ c.Fits P ∧ (u = true ∨ c.used = true) ∧
      Rest P κ mirrors s m (p + c.size) c.used cs := by
  obtain ⟨hc, hf, hside, hrest⟩ := hr.laid
  have hends := hr.ends
  rw [extents_cons] at hends
  exact ⟨hc, hf, hside, hrest, by omega⟩

theorem Rest.blockAt (hr : Rest P κ mirrors s h.mem p u cs) :
    ((outline p cs).map Block.start).map h.blockAt = outline p cs := by
  induction cs generalizing p u with
  | nil => rfl
  | cons c cs ih =>
    obtain ⟨hc, hf, -, hrest⟩ := hr.cons
    rw [outline, List.map_cons, List.map_cons, ih hrest, hc.blockAt hf]

theorem Rest.tiles (hr : Rest P κ mirrors s h.mem p u cs) :
    Tiles h.extent s.hi p ((outline p cs).map Block.start) := by
  induction cs generalizing p u with
  | nil =>
    obtain rfl : p = s.hi := hr.ends
    exact .done
  | cons c cs ih =>
    obtain ⟨hc, hf, -, hrest⟩ := hr.cons
    have hext := hc.extent hf
    refine .block (hext ▸ hf.pos) ?_
    rw [hext]
    exact ih hrest

theorem Rest.tilingFrom (hr : Rest P κ mirrors s h.mem p u cs) {budget : Nat}
    (hlen : cs.length ≤ budget) : h.tilingFrom s budget p = (outline p cs).map Block.start := by
  induction cs generalizing p u budget with
  | nil =>
    obtain rfl : p = s.hi := hr.ends
    cases budget with
    | zero => rfl
    | succ budget => rw [Heap.tilingFrom, if_neg (Nat.lt_irrefl _)]; rfl
  | cons c cs ih =>
    obtain ⟨hc, hf, -, hrest⟩ := hr.cons
    have hends := hr.ends
    have hext : wordSize (h.word p) = c.size := hc.extent hf
    have hpos := hf.pos
    rw [extents_cons] at hends
    cases budget with
    | zero => exact absurd hlen (Nat.not_succ_le_zero _)
    | succ budget =>
      rw [Heap.tilingFrom, if_pos (by omega), hext, ih hrest (Nat.le_of_succ_le_succ hlen), outline,
        List.map_cons]

theorem Rest.neighbours (hr : Rest P κ mirrors s h.mem p u cs) :
    (∀ b ∈ ((outline p cs).map Block.start).head?, wordPrevInUse (h.word b) = u ∧
      (u = true ∨ wordUsed (h.word b) = true)) ∧
      ((outline p cs).map Block.start).IsChain h.Neighbours := by
  induction cs generalizing p u with
  | nil => exact ⟨nofun, .nil⟩
  | cons c cs ih =>
    obtain ⟨hc, hf, hside, hrest⟩ := hr.cons
    have hw : h.word p = c.word u := hc.word
    obtain ⟨hhead, hchain⟩ := ih hrest
    refine ⟨fun b hb => ?_, List.isChain_cons.mpr ⟨fun b hb => ?_, hchain⟩⟩
    · obtain rfl : p = b := Option.some.inj hb
      rw [hw, Cell.wordPrevInUse_word, Cell.wordUsed_word]
      exact ⟨rfl, hside⟩
    · obtain ⟨hprev, hused⟩ := hhead b hb
      have hu : wordUsed (h.word p) = c.used := by rw [hw, Cell.wordUsed_word]
      exact ⟨hprev.trans hu.symm, hused.imp_left hu.trans⟩

theorem At.head (hb : At p (d :: cs) p c) (hpos : 0 < d.size) : c = d := by
  rcases hb with ⟨-, rfl⟩ | hb
  · rfl
  · have := hb.bounds.1
    omega

/-- A free block reaches up to the next block in use, so no two can differ. -/
theorem free_size_le (hr : Rest P κ mirrors s m p u (c :: cs)) (hr' : Rest P κ' mirrors s m' p u (d :: ds))
    (hat : ∀ b e, e.used = true → At p (c :: cs) b e → At p (d :: ds) b e) (hc : c.used = false) :
    d.size ≤ c.size := by
  obtain ⟨-, hf, -, hrest⟩ := hr.cons
  obtain ⟨-, hf', -, hrest'⟩ := hr'.cons
  have hends := hrest.ends
  have hends' := hrest'.ends
  cases cs with
  | nil =>
    rw [extents_nil] at hends
    omega
  | cons e cs =>
    have hpos := hf.pos
    obtain ⟨-, -, hside, -⟩ := hrest.cons
    have he : e.used = true := hside.resolve_left (by rw [hc]; decide)
    rcases hat (p + c.size) e he (.inr (.inl ⟨rfl, rfl⟩)) with ⟨h₁, -⟩ | h₁
    · omega
    · have := h₁.bounds.1
      omega

theorem outline_unique (hr : Rest P κ mirrors s m p u cs) (hr' : Rest P κ' mirrors s m' p u ds)
    (hat : ∀ b e, e.used = true → (At p cs b e ↔ At p ds b e)) : outline p cs = outline p ds := by
  induction cs generalizing p u ds with
  | nil =>
    cases ds with
    | nil => rfl
    | cons d ds =>
      have h₁ := hr.ends
      have h₂ := hr'.ends
      have h₃ := hr'.cons.2.1.pos
      rw [extents_nil] at h₁
      rw [extents_cons] at h₂
      omega
  | cons c cs ih =>
    obtain ⟨-, hf, -, hrest⟩ := hr.cons
    cases ds with
    | nil =>
      have h₁ := hr'.ends
      have h₂ := hr.ends
      have h₃ := hf.pos
      rw [extents_nil] at h₁
      rw [extents_cons] at h₂
      omega
    | cons d ds =>
      obtain ⟨-, hf', -, hrest'⟩ := hr'.cons
      have hsame : c.size = d.size ∧ c.used = d.used ∧ c.quarantined = d.quarantined := by
        cases hc : c.used with
        | true =>
          obtain rfl := ((hat p c hc).mp (.inl ⟨rfl, rfl⟩)).head hf'.pos
          exact ⟨rfl, hc.symm, rfl⟩
        | false =>
          cases hd : d.used with
          | true =>
            obtain rfl := ((hat p d hd).mpr (.inl ⟨rfl, rfl⟩)).head hf.pos
            exact absurd (hc.symm.trans hd) (by decide)
          | false =>
            have h₁ := free_size_le hr hr' (fun b e he => (hat b e he).mp) hc
            have h₂ := free_size_le hr' hr (fun b e he => (hat b e he).mpr) hd
            refine ⟨by omega, rfl, ?_⟩
            rw [Cell.quarantined, Cell.quarantined, Cell.not_used_iff.mp hc, Cell.not_used_iff.mp hd]
      obtain ⟨hsize, hused, hq⟩ := hsame
      rw [outline, outline, hsize, hused, hq]
      rw [hsize, hused] at hrest
      rw [ih hrest hrest' fun b e he => ?_]
      -- what stands after the first block is what stands, the first block apart
      have hpos := hf'.pos
      have htail : ∀ {x : Cell} {xs : List Cell}, x.size = d.size → (At (p + d.size) xs b e ↔
          At p (x :: xs) b e ∧ p < b) := by
        intro x xs hx
        rw [At, hx]
        constructor
        · intro h'
          have := h'.bounds.1
          exact ⟨.inr h', by omega⟩
        · rintro ⟨⟨rfl, -⟩ | h', hlt⟩
          · exact absurd hlt (Nat.lt_irrefl _)
          · exact h'
      rw [htail hsize, htail rfl, hat b e he]

theorem Heap.Sound.tilingOf (hS : h.Sound P L) (hs : s ∈ h.spans) :
    h.tilingOf P s = (outline s.lo (L s)).map Block.start :=
  (hS.tiled.rest s hs).tilingFrom (hS.length_le hs)

theorem Heap.Sound.layout (hS : h.Sound P L) :
    h.layout P = h.spans.flatMap fun s => outline s.lo (L s) := by
  rw [Heap.layout, Heap.tiling, List.map_flatMap]
  refine List.flatMap_congr fun s hs => ?_
  rw [hS.tilingOf hs, (hS.tiled.rest s hs).blockAt]

theorem Heap.Sound.mem_layout (hS : h.Sound P L) {x : Block} : x ∈ h.layout P ↔
    ∃ s b c, h.CellIn L s b c ∧ x = ⟨b, c.size, c.used, c.quarantined⟩ := by
  rw [hS.layout, List.mem_flatMap]
  constructor
  · rintro ⟨s, hs, hx⟩
    obtain ⟨b, c, hb, rfl⟩ := mem_outline.mp hx
    exact ⟨s, b, c, ⟨hs, hb⟩, rfl⟩
  · rintro ⟨s, b, c, hc, rfl⟩
    exact ⟨s, hc.1, mem_outline.mpr ⟨b, c, hc.2, rfl⟩⟩

theorem Heap.Spares.layout (hs : h.Spares P (fun _ => False) L h' L') (hS : h.Sound P L)
    (hS' : h'.Sound P L') (hspans : h'.spans = h.spans) : h'.layout P = h.layout P := by
  rw [hS.layout, hS'.layout, hspans]
  refine List.flatMap_congr fun s hm => ?_
  have hm' : s ∈ h'.spans := hspans ▸ hm
  refine outline_unique (hS'.tiled.rest s hm') (hS.tiled.rest s hm) fun b e he => ?_
  have hcell := hs.cells s b e he not_false
  exact ⟨fun hb => (hcell.mp ⟨hm', hb⟩).2, fun hb => (hcell.mpr ⟨hm, hb⟩).2⟩

theorem freeBytes_outline : freeBytes cs =
    (((outline p cs).filter fun x => !x.used).map Block.extent).sum := by
  induction cs generalizing p with
  | nil => rfl
  | cons c cs ih =>
    rw [← List.singleton_append, freeBytes_append, freeBytes_one, ih (p := p + c.size)]
    change _ = (((⟨p, c.size, c.used, c.quarantined⟩ :: outline (p + c.size) cs).filter _).map _).sum
    rw [List.filter_cons]
    cases hu : c.used with
    | true =>
      rw [if_neg (Cell.used_iff.mp hu), Nat.zero_add]
      rfl
    | false =>
      rw [if_pos (Cell.not_used_iff.mp hu)]
      rfl

theorem Heap.Sound.freeSpace (hS : h.Sound P L) :
    h.freeSpace P = (h.spans.map fun s => freeBytes (L s)).sum := by
  rw [Heap.freeSpace, hS.layout]
  generalize h.spans = spans
  induction spans with
  | nil => rfl
  | cons s spans ih =>
    rw [List.flatMap_cons, List.filter_append, List.map_append, List.sum_append, ih, List.map_cons,
      List.sum_cons, freeBytes_outline (p := s.lo)]

theorem Rest.lostIn (hr : Rest P κ mirrors s h.mem p u cs) :
    h.lostIn ((outline p cs).map Block.start) = lostBytes cs := by
  induction cs generalizing p u with
  | nil => rfl
  | cons c cs ih =>
    obtain ⟨hc, hf, -, hrest⟩ := hr.cons
    have hblock := hc.blockAt hf
    have hsur : h.surrendered p = (c.used && c.quarantined) := by
      rw [Heap.surrendered]
      exact congrArg (fun x : Block => x.used && x.quarantined) hblock
    rw [outline, List.map_cons, lostIn_cons, ih hrest, hsur, hc.extent hf, lostBytes,
      lostBytes, List.filter_cons, Cell.used, Cell.quarantined]
    cases c.kind with
    | lost => rfl
    | free | live | bare => exact Nat.zero_add _

theorem Heap.Sound.tilingSound (hS : h.Sound P L) (hset : h.Settled L)
    (hlost : h.lostBytes = (h.spans.map fun s => Mars.lostBytes (L s)).sum) :
    h.TilingSound P (h.tilingOf P) := by
  refine ⟨fun s hs => ?_, ?_⟩
  · have hr := hS.tiled.rest s hs
    have hn := hr.neighbours
    rw [hS.tilingOf hs]
    refine ⟨hr.tiles, fun b hb => ?_, fun b hb => (hn.1 b hb).1, hn.2⟩
    obtain ⟨c, hc⟩ := mem_starts.mp hb
    obtain ⟨v, hcell, hh⟩ := hS.tiled.cell ⟨hs, hc⟩
    refine ⟨hh.headerOk_of, ?_, fun hu => ?_⟩
    · rw [run_canaryOk hcell hh.room hh.fits (hset s b c ⟨hs, hc⟩)]
    · rw [hh.word_eq, Cell.wordUsed_word] at hu
      have htag := hcell.tag (Cell.not_used_iff.mp hu)
      rw [hcell.extent hh.fits]
      exact htag
  · rw [hlost]
    have hspans : ∀ s ∈ h.spans, h.lostIn (h.tilingOf P s) = Mars.lostBytes (L s) := fun s hs => by
      rw [hS.tilingOf hs, (hS.tiled.rest s hs).lostIn]
    generalize h.spans = spans at hspans
    induction spans with
    | nil => rfl
    | cons s spans ih =>
      rw [List.flatMap_cons, lostIn_append, List.map_cons, List.sum_cons,
        ih fun t ht => hspans t (List.mem_cons_of_mem s ht), hspans s List.mem_cons_self]

theorem Heap.Sound.mem_tiling (hS : h.Sound P L) : b ∈ h.tiling P ↔ ∃ s c, h.CellIn L s b c := by
  rw [Heap.tiling, List.mem_flatMap]
  constructor
  · rintro ⟨s, hs, hb⟩
    rw [hS.tilingOf hs] at hb
    obtain ⟨c, hc⟩ := mem_starts.mp hb
    exact ⟨s, c, hs, hc⟩
  · rintro ⟨s, c, hs, hc⟩
    exact ⟨s, hs, by rw [hS.tilingOf hs]; exact mem_starts.mpr ⟨c, hc⟩⟩

theorem Heap.Sound.filedAs (hS : h.Sound P L) {i : Nat} :
    b ∈ h.tiling P ∧ h.filedAs P i b = true ↔ ∃ n, h.FreeAt L b n ∧ binOf P n = i := by
  have hfiled : ∀ {s c}, h.CellIn L s b c →
      (h.filedAs P i b = true ↔ c.kind = .free ∧ binOf P c.size = i) := by
    intro s c hc
    obtain ⟨u, hcell, hh⟩ := hS.tiled.cell hc
    rw [Heap.filedAs, hcell.extent hh.fits,
      show wordUsed (h.word b) = c.used from congrArg Block.used (hcell.blockAt hh.fits), Bool.and_eq_true,
      Bool.not_eq_true', Cell.not_used_iff, beq_iff_eq]
  rw [hS.mem_tiling]
  constructor
  · rintro ⟨⟨s, c, hc⟩, hf⟩
    obtain ⟨hk, hi⟩ := (hfiled hc).mp hf
    exact ⟨c.size, ⟨s, c, hc, hk, rfl⟩, hi⟩
  · rintro ⟨n, ⟨s, c, hc, hk, rfl⟩, hi⟩
    exact ⟨⟨s, c, hc⟩, (hfiled hc).mpr ⟨hk, hi⟩⟩

theorem Heap.Sound.exact (hS : h.Sound P L) (hset : h.Settled L)
    (hlost : h.lostBytes = (h.spans.map fun s => Mars.lostBytes (L s)).sum) : h.Exact P := by
  refine ⟨h.tilingOf P, hS.tilingSound hset hlost, hS.filed.bitmap, fun i hi => ?_⟩
  obtain ⟨nodes, hl, hmem⟩ := hS.filed.bins i hi
  have hmem' : ∀ b, b ∈ nodes ↔ b ∈ h.tiling P ∧ h.filedAs P i b = true := fun b =>
    (hmem b).trans hS.filedAs.symm
  refine ⟨nodes, ⟨hl, fun b hb => ?_⟩, hl.nodup, hmem'⟩
  obtain ⟨n, ⟨s, c, hc, -⟩, -⟩ := (hmem b).mp hb
  obtain ⟨u, -, hh⟩ := hS.tiled.cell hc
  exact ⟨congrArg Prod.fst hh.run_headerOk, ((hmem' b).mp hb).2⟩

end Mars
