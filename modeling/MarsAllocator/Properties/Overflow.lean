import MarsAllocator.Properties.Promise
import MarsAllocator.Steps.Entry

namespace Mars

open ByteMemory StateProgram

set_option synthInstance.maxSize 100000

/-- An access outside the arena is not forgotten. -/
def StaysWild (h h' : Heap) : Prop := h.wild = true → h'.wild = true

instance : StepClosed StaysWild where
  refl _ := id
  trans _ _ _ h h' := h' ∘ h
  core hs := by
    cases hs with
    | touch a n => exact fun hw => by rw [Heap.touch, hw, Bool.true_or]
    | _ => exact id
  span hs := by
    cases hs
    all_goals exact id

theorem wild_then {α β : Type} {x : HeapM α} {f : α → HeapM β} [hf : ∀ a, Respects StaysWild (f a)]
    {h : Heap} (hx : (x h).2.wild = true) : ((x >>= f) h).2.wild = true :=
  (hf _).step _ hx

instance : Respects StaysWild clearError := ⟨fun _ => id⟩

instance (P : Profile) (size : Nat) : Respects StaysWild (mallocUnlocked P size) := by
  unfold mallocUnlocked arenaLive
  infer_instance

instance (P : Profile) (ptr : Nat) : Respects StaysWild (freeUnlocked P ptr) := by
  unfold freeUnlocked
  infer_instance

instance (P : Profile) (ptr oldSize oldSum newSize : Nat) :
    Respects StaysWild (reallocMove P ptr oldSize oldSum newSize) := by
  unfold reallocMove reallocCopy
  infer_instance

theorem wide_large : minArena .fast ≤ 2 ^ 58 + 16 := by decide

theorem wide_fits : 4096 + (2 ^ 58 + 16) < 2 ^ 64 := by decide

/-- The smallest buffer whose one block does not fit the 54 bits of an extent. -/
def wideBuffer : Buffer .fast :=
  ⟨4096, 2 ^ 58 + 16, kilobyte.ne_null, kilobyte.aligned, wide_large, wide_fits⟩

def wideSpan : Span := wideBuffer.span

theorem wideSpan_lo : wideSpan.lo = 4104 := rfl

theorem wideSpan_hi : wideSpan.hi = 4104 + 2 ^ 58 := by decide

/-- Half the buffer each: a block in use with a free one behind it, filed in every bin. -/
def halvesMemory (m : Memory) : Memory :=
  ((m.store 4104 8 (mkWord (2 ^ 57) 0 false true true)).store (4104 + 2 ^ 57) 8
    (mkWord (2 ^ 57) 0 false true false)).store (4112 + 2 ^ 57) 16 0

def halves (h : Heap) : Heap := { h with
  mem := halvesMemory h.mem
  bins := fun _ => 4104 + 2 ^ 57
  binBitmap := fun _ => 0
  scrubAt := 0 }

variable {h h' : Heap} {m : Memory}

theorem word_halves (h : Heap) :
    (halves h).word 4104 = mkWord (2 ^ 57) 0 false true true ∧
      (halves h).word (4104 + 2 ^ 57) = mkWord (2 ^ 57) 0 false true false := by
  have h₁ : mkWord (2 ^ 57) 0 false true true % 2 ^ 64 = mkWord (2 ^ 57) 0 false true true := by
    decide
  have h₂ : mkWord (2 ^ 57) 0 false true false % 2 ^ 64 = mkWord (2 ^ 57) 0 false true false := by
    decide
  constructor
  · change (halvesMemory h.mem).load 4104 8 = _
    rw [halvesMemory, Memory.load_store_of_disjoint (by omega),
      Memory.load_store_of_disjoint (by omega), Memory.load_store_self, h₁]
  · change (halvesMemory h.mem).load (4104 + 2 ^ 57) 8 = _
    rw [halvesMemory, Memory.load_store_of_disjoint (by omega), Memory.load_store_self, h₂]

theorem link_halves (h : Heap) (which : Link) :
    (freeLinkGet .fast (4104 + 2 ^ 57) which (halves h)).1 = h.secret := by
  have hz : (halves h).mem.load (4112 + 2 ^ 57) 16 = 0 := by
    change (halvesMemory h.mem).load (4112 + 2 ^ 57) 16 = 0
    rw [halvesMemory, Memory.load_store_self]
    rfl
  have hl : ∀ i, i + 8 ≤ 16 → (halves h).mem.load (4112 + 2 ^ 57 + i) 8 = 0 := by
    intro i hi
    rw [Memory.load_sub (a := 4112 + 2 ^ 57) (n := 16) (by omega) (by omega), hz, Nat.zero_shiftRight,
      Nat.zero_mod]
  have ha : payloadOf .fast (4104 + 2 ^ 57) = 4112 + 2 ^ 57 := rfl
  change (halves h).mem.load (payloadOf .fast (4104 + 2 ^ 57) + which.offset) 8 ^^^ h.secret = _
  have ho : which.offset + 8 ≤ 16 := by cases which <;> decide
  rw [ha, hl which.offset ho, Nat.zero_xor]

/-- The two halves, where they still read as they were laid out. -/
structure Halved (h : Heap) : Prop where
  confined : ∃ m, Confined wideSpan m h
  first : h.word 4104 = mkWord (2 ^ 57) 0 false true true
  second : h.word (4104 + 2 ^ 57) = mkWord (2 ^ 57) 0 false true false

namespace Halved

theorem of_mem (hh : Halved h) (hc : ∃ m, Confined wideSpan m h') (hm : h'.mem = h.mem) :
    Halved h' := by
  refine ⟨hc, ?_, ?_⟩
  · rw [Heap.word, hm]
    exact hh.first
  · rw [Heap.word, hm]
    exact hh.second

theorem headerOk_first (hh : Halved h) : (headerOk .fast 4104 h).1 = true := by
  obtain ⟨m, hc⟩ := hh.confined
  have hs : h.spanOf 4104 = some wideSpan := hc.spanOf (by decide) (by decide)
  refine (headerOk_fst h 4104).mpr ⟨wideSpan, ⟨⟨by decide, hs, by decide, ?_, ?_⟩, fun hf =>
    absurd hf (by decide)⟩⟩
  · rw [hh.first]
    decide
  · rw [hh.first]
    decide

theorem headerOk_second (hh : Halved h) : (headerOk .fast (4104 + 2 ^ 57) h).1 = true := by
  obtain ⟨m, hc⟩ := hh.confined
  have hs : h.spanOf (4104 + 2 ^ 57) = some wideSpan := hc.spanOf (by decide) (by decide)
  refine (headerOk_fst h _).mpr ⟨wideSpan, ⟨⟨by decide, hs, by decide, ?_, ?_⟩, fun hf =>
    absurd hf (by decide)⟩⟩
  · rw [hh.second]
    decide
  · rw [hh.second]
    decide

theorem covers_first (hh : Halved h) : h.Covers 4104 8 := by
  obtain ⟨m, hc⟩ := hh.confined
  exact hc.covers (by decide) (by decide)

theorem covers_second (hh : Halved h) : h.Covers (4104 + 2 ^ 57) 32 := by
  obtain ⟨m, hc⟩ := hh.confined
  exact hc.covers (by decide) (by decide)

theorem unchanged_first (hh : Halved h) : (unchanged .fast 4104 (2 ^ 57) true h).1 = true := by
  obtain ⟨m, hc⟩ := hh.confined
  rw [unchanged, bind_still (still_headerOk (hc.own _)), hh.headerOk_first, Prog.ite_run, if_pos rfl]
  change (wordSize (h.word 4104) == 2 ^ 57 && wordUsed (h.word 4104) == true) = true
  rw [hh.first]
  decide

theorem unchanged_second (hh : Halved h) :
    (unchanged .fast (4104 + 2 ^ 57) (2 ^ 57) false h).1 = true := by
  obtain ⟨m, hc⟩ := hh.confined
  rw [unchanged, bind_still (still_headerOk (hc.own _)), hh.headerOk_second, Prog.ite_run,
    if_pos rfl]
  change (wordSize (h.word (4104 + 2 ^ 57)) == 2 ^ 57 &&
    wordUsed (h.word (4104 + 2 ^ 57)) == false) = true
  rw [hh.second]
  decide

end Halved

/-- The free half heads its bin alone. -/
structure Filed (h : Heap) : Prop extends Halved h where
  head : h.bins (binOf .fast (2 ^ 57)) = 4104 + 2 ^ 57
  links : ∀ which, (freeLinkGet .fast (4104 + 2 ^ 57) which h).1 = 0

namespace Filed

theorem stats (hf : Filed h) (stats : Stats) : Filed { h with stats } := by
  obtain ⟨m, hc⟩ := hf.confined
  exact ⟨⟨⟨m, hc.registry, hc.spans, hc.tame, hc.fixed, hc.stale, hc.cursor, hc.agree⟩, hf.first,
    hf.second⟩, hf.head, hf.links⟩

theorem lastError (hf : Filed h) (lastError : Status) : Filed { h with lastError } := by
  obtain ⟨m, hc⟩ := hf.confined
  exact ⟨⟨⟨m, hc.registry, hc.spans, hc.tame, hc.fixed, hc.stale, hc.cursor, hc.agree⟩, hf.first,
    hf.second⟩, hf.head, hf.links⟩

theorem linksOk_second (hf : Filed h) :
    (linksOk .fast (4104 + 2 ^ 57) (binOf .fast (2 ^ 57)) h).1 = true := by
  obtain ⟨m, hc⟩ := hf.confined
  have hb := hf.covers_second
  have hn : (nodeOk .fast (4104 + 2 ^ 57) (binOf .fast (2 ^ 57)) h).1 = true := by
    have hi : (isBlock .fast (4104 + 2 ^ 57) h).1 = true := by
      obtain ⟨s, hl, -⟩ := (headerOk_fst h _).mp hf.headerOk_second
      exact (isBlock_fst h _).mpr ⟨s, hl⟩
    rw [nodeOk, bind_still (still_isBlock (hc.own _)), hi, Prog.ite_run, if_pos rfl,
      bind_still (still_headerOk (hc.own _)), hf.headerOk_second, Prog.ite_run, if_pos rfl,
      bind_still (still_isUsed (hb.sub (le_refl _) (by decide)))]
    change ((if wordUsed (h.word (4104 + 2 ^ 57)) = true then _ else _ : HeapM Bool) h).1 = true
    rw [hf.second, if_neg (by decide)]
    change (binOf .fast (wordSize (h.word (4104 + 2 ^ 57))) == binOf .fast (2 ^ 57)) = true
    rw [hf.second]
    decide
  rw [linksOk, bind_still (still_nodeOk (hc.own _) _), hn, Prog.ite_run, if_pos rfl,
    bind_still (still_freeLinkGet hb .next), bind_still (still_freeLinkGet hb .prev), hf.links,
    hf.links]
  change (Prog.and (pure true) (Prog.read fun h => h.bins (binOf .fast (2 ^ 57)) ==
    4104 + 2 ^ 57) h).1 = true
  rw [Prog.and_run]
  change (h.bins (binOf .fast (2 ^ 57)) == 4104 + 2 ^ 57) = true
  rw [hf.head, beq_self_eq_true]

theorem binRemove_second (hf : Filed h) : Halved (binRemove .fast (4104 + 2 ^ 57) h).2 := by
  obtain ⟨m, hc⟩ := hf.confined
  have hb := hf.covers_second
  have hw : wp (binRemove .fast (4104 + 2 ^ 57)) (fun _ h' => Halved h') h := by
    have hbin : Still (binOfBlock .fast (4104 + 2 ^ 57)) h :=
      (still_blockSize (hb.sub (le_refl _) (by decide))).bind rfl
    have hval : (binOfBlock .fast (4104 + 2 ^ 57) h).1 = binOf .fast (2 ^ 57) := by
      change binOf .fast (wordSize (h.word (4104 + 2 ^ 57))) = _
      rw [hf.second]
      decide
    refine wp_still_eq hbin hval ?_
    refine wp_still_eq (still_linksOk (fun b => hc.own b) _) hf.linksOk_second ?_
    rw [wp_ite, if_pos rfl, binUnlink]
    refine wp_still_eq (still_freeLinkGet hb .next) (hf.links .next) ?_
    refine wp_still_eq (still_freeLinkGet hb .prev) (hf.links .prev) ?_
    exact hf.of_mem ⟨m, hc.registry, hc.spans, hc.tame, hc.fixed, hc.stale, hc.cursor, hc.agree⟩ rfl
  exact hw

theorem statSub_first (hf : Filed h) : Filed (statSub .fast 4104 h).2 := by
  rw [statSub, bind_still (still_blockSize hf.covers_first),
    bind_still (still_requestedSize hf.covers_first)]
  exact hf.stats _

theorem growNeighbour_second (hf : Filed h) {need : Nat} (hn : need ≤ 2 ^ 58) :
    Still (growNeighbour .fast wideSpan (4104 + 2 ^ 57) (2 ^ 57) need) h ∧
      (growNeighbour .fast wideSpan (4104 + 2 ^ 57) (2 ^ 57) need h).1 = some (2 ^ 57) := by
  obtain ⟨m, hc⟩ := hf.confined
  refine ⟨(growNeighbour_looked hc _ _ _).1, ?_⟩
  have hb := hf.covers_second.sub (le_refl _) (show 4104 + 2 ^ 57 + 8 ≤ 4104 + 2 ^ 57 + 32 by decide)
  have hand : (Prog.and (headerOk .fast (4104 + 2 ^ 57)) (do
      let used ← isUsed (4104 + 2 ^ 57)
      return !used) h).1 = true := by
    rw [Prog.and_run, hf.headerOk_second, if_pos rfl, still_headerOk (hc.own _)]
    change (!wordUsed (h.word (4104 + 2 ^ 57))) = true
    rw [hf.second]
    decide
  have hst : Still (Prog.and (headerOk .fast (4104 + 2 ^ 57)) do
      let used ← isUsed (4104 + 2 ^ 57)
      return !used) h :=
    Still.and (still_headerOk (hc.own _)) fun _ => (still_isUsed hb).bind rfl
  rw [growNeighbour, if_neg (by decide), bind_still hst, hand, if_pos rfl,
    bind_still (still_blockSize hb)]
  change (if need ≤ 2 ^ 57 + wordSize (h.word (4104 + 2 ^ 57)) then
    some (wordSize (h.word (4104 + 2 ^ 57))) else none) = some (2 ^ 57)
  rw [hf.second, show wordSize (mkWord (2 ^ 57) 0 false true false) = 2 ^ 57 by decide]
  exact if_pos (by omega)

end Filed

theorem wild_writeTail (hc : Confined wideSpan m h) (n : Nat) :
    (writeTail .fast (4104 + 2 ^ 58) n h).2.wild = true := by
  have hst : (store64 (4104 + 2 ^ 58) 0 h).2.wild = true := by
    change (h.wild || !h.covers (4104 + 2 ^ 58) 8) = true
    rw [Heap.covers, hc.spans]
    simp [wideSpan_lo, wideSpan_hi]
  rw [writeTail]
  exact wild_then hst

/-- Cutting the whole arena off a block that reads as empty starts the next one past the end. -/
theorem wild_splitBlock (hc : Confined wideSpan m h) (hz : wordSize (h.word 4104) = 0) :
    (splitBlock .fast 4104 (2 ^ 58) h).2.wild = true := by
  have hw : wp (splitBlock .fast 4104 (2 ^ 58)) (fun _ h' => h'.wild = true) h := by
    have hb : Room .fast wideSpan 4104 := ⟨by decide, by decide⟩
    refine wp_still_eq (still_blockSize (hb.covers8 hc)) hz ?_
    have hmin : Profile.fast.minBlock ≤ usub 0 (2 ^ 58) := by decide
    generalize usub 0 (2 ^ 58) = n at hmin
    rw [wp_when, if_pos hmin, wp_bind, wp, fast_sealHeader, pure_bind_run]
    have hc₁ := confined_setBlockSize hc hb (2 ^ 58)
    generalize (setBlockSize 4104 (2 ^ 58) h).2 = h₁ at hc₁
    exact wild_then (wild_writeTail hc₁ n)
  exact hw

theorem load_setBlockSize (b n : Nat) :
    (setBlockSize b n h).2.word b = wordSetSize (h.word b) n % 2 ^ 64 :=
  Memory.load_store_self h.mem b 8 _

theorem wild_reallocGrow (hf : Filed h) (oldSize oldSum newSize : Nat) :
    (reallocGrow .fast 4104 (2 ^ 57) (2 ^ 57) (2 ^ 58) oldSize oldSum newSize h).2.wild = true := by
  have hw : wp (reallocGrow .fast 4104 (2 ^ 57) (2 ^ 57) (2 ^ 58) oldSize oldSum newSize)
      (fun _ h' => h'.wild = true) h := by
    rw [reallocGrow, wp_bind, wp]
    have hf₁ := hf.statSub_first
    generalize (statSub .fast 4104 h).2 = h₁ at hf₁
    rw [wp_bind, wp]
    have hh := hf₁.binRemove_second
    generalize (binRemove .fast (4104 + 2 ^ 57) h₁).2 = h₂ at hh
    obtain ⟨m, hc⟩ := hh.confined
    have hb : Room .fast wideSpan 4104 := ⟨by decide, by decide⟩
    refine wp_still_eq (still_unchanged (hc.own _) _ _) hh.unchanged_first ?_
    rw [wp_ite, if_pos rfl]
    refine wp_still_eq (still_unchanged (hc.own _) _ _) hh.unchanged_second ?_
    rw [wp_ite, if_pos rfl, wp_bind, wp]
    have hc₃ := confined_setBlockSize hc hb (2 ^ 57 + 2 ^ 57)
    have hz : wordSize ((setBlockSize 4104 (2 ^ 57 + 2 ^ 57) h₂).2.word 4104) = 0 := by
      rw [load_setBlockSize, hh.first]
      decide
    generalize (setBlockSize 4104 (2 ^ 57 + 2 ^ 57) h₂).2 = h₃ at hc₃ hz
    refine wp_still (still_blockEnd (hb.covers8 hc₃)) ?_
    refine wp_aside hc₃ fun _ h₄ hc₄ hm => ?_
    rw [fast_sealHeader, pure_bind_run]
    have hz₄ : wordSize (h₄.word 4104) = 0 := by
      rw [Heap.word, hm]
      exact hz
    have hs := wild_splitBlock hc₄ hz₄
    rw [trimResized]
    exact wild_then hs
  exact hw

theorem liveBlock_first (hf : Filed h) : liveBlock .fast 4112 h = (4104, h) := by
  obtain ⟨m, hc⟩ := hf.confined
  have hspan : h.spanOf 4112 = some wideSpan := hc.spanOf (by decide) (by decide)
  have hblock : (isBlock .fast 4104 h).1 = true := by
    obtain ⟨s, hl, -⟩ := (headerOk_fst h _).mp hf.headerOk_first
    exact (isBlock_fst h _).mpr ⟨s, hl⟩
  have hof : blockOf .fast 4112 h = (4104, h) := by
    have hlive : (arenaLive h).1 = true := by
      change (!h.spans.isEmpty) = true
      rw [hc.spans]
      rfl
    rw [blockOf, bind_still (x := arenaLive) rfl, hlive, if_neg (by decide), Prog.bind_run,
      Prog.read_run, if_neg (by decide), hspan, Prog.elim_some, if_neg (by decide),
      show 4112 - Profile.fast.hdrSize = 4104 from rfl, bind_still (still_isBlock (hc.own _)),
      hblock, if_pos rfl]
    rfl
  have hq : (isQuarantined 4104 h).1 = false := by
    change wordQuarantined (h.word 4104) = false
    rw [hf.first]
    decide
  rw [liveBlock, Prog.bind_run_of_eq hof, if_neg (by decide), Prog.bind_run, Prog.bind_run,
    still_headerOk (hc.own _), hf.headerOk_first, if_pos rfl, Prog.pure_run,
    if_neg (show ¬ (!(true, h).1) = true from fun hn => Bool.false_ne_true hn), bind_still (still_isQuarantined hf.covers_first), hq, if_neg Bool.false_ne_true]
  rfl

theorem wild_resizeLive (hf : Filed h) :
    (resizeLive .fast 4104 (2 ^ 58 - 8) h).2.wild = true := by
  have hw : wp (resizeLive .fast 4104 (2 ^ 58 - 8)) (fun _ h' => h'.wild = true) h := by
    have hf₁ := hf.stats (h.stats.note (2 ^ 58 - 8) .realloc)
    rw [resizeLive, wp_bind, wp]
    change wp _ _ { h with stats := h.stats.note (2 ^ 58 - 8) .realloc }
    generalize { h with stats := h.stats.note (2 ^ 58 - 8) .realloc } = h₁ at hf₁
    obtain ⟨m, hc⟩ := hf₁.confined
    have hsize : (blockSize 4104 h₁).1 = 2 ^ 57 := by
      change wordSize (h₁.word 4104) = 2 ^ 57
      rw [hf₁.first]
      decide
    have hneed : sizeFor .fast (2 ^ 58 - 8) = 2 ^ 58 := by decide
    refine wp_still (still_requestedSize hf₁.covers_first) ?_
    generalize (requestedSize .fast 4104 h₁).1 = oldSize
    rw [show payloadCrc .fast 4104 = pure 0 from rfl, pure_bind_run]
    refine wp_still_eq (still_blockSize hf₁.covers_first) hsize ?_
    rw [hneed, wp_ite, if_neg (by decide), wp_bind, wp_read, hc.spanOf (by decide) (by decide),
      Prog.elim_some]
    obtain ⟨hst, hv⟩ := hf₁.growNeighbour_second (le_refl (2 ^ 58))
    refine wp_still_eq hst hv ?_
    rw [Prog.elim_some]
    exact wild_then (wild_reallocGrow hf₁ oldSize 0 _)
  exact hw

theorem wild_realloc (hf : Filed h) : (mmRealloc .fast 4112 (2 ^ 58 - 8) h).2.wild = true := by
  have hw : wp (reallocInPlace .fast 4112 (2 ^ 58 - 8)) (fun _ h' => h'.wild = true)
      { h with lastError := .ok } := by
    have hf₁ := hf.lastError .ok
    generalize { h with lastError := .ok } = h₁ at hf₁
    have hused : (isUsed 4104 h₁).1 = true := by
      change wordUsed (h₁.word 4104) = true
      rw [hf₁.first]
      decide
    rw [reallocInPlace]
    refine wp_seq (wp_of_run (Q := fun b h' => b = 4104 ∧ h' = h₁) (liveBlock_first hf₁)
      ⟨rfl, rfl⟩) ?_
    rintro _ _ ⟨rfl, rfl⟩
    rw [wp_ite, if_neg (by decide)]
    refine wp_still_eq (still_isUsed hf₁.covers_first) hused ?_
    rw [wp_ite, if_neg (by decide), fast_canaryOk, pure_bind_run, wp_ite, if_neg (by decide), wp_ite,
      if_neg (by decide)]
    exact wild_resizeLive hf₁
  rw [mmRealloc, reallocUnlocked, Prog.bind_run, if_neg (by decide), if_neg (by decide)]
  refine @wild_then _ _ _ _ (fun r => ?_) _ hw
  cases r <;> infer_instance

/-- Which spans there are, and what is known of them. -/
structure SameArena (h h' : Heap) : Prop where
  registry : h'.registry = h.registry
  spans : h'.spans = h.spans
  growable : h'.growable = h.growable
  freshSpans : h'.freshSpans = h.freshSpans
  scrubSpan : h'.scrubSpan = h.scrubSpan
  secret : h'.secret = h.secret

instance : BlockClosed SameArena where
  refl _ := ⟨rfl, rfl, rfl, rfl, rfl, rfl⟩
  trans _ _ _ hs ht := ⟨ht.registry.trans hs.registry, ht.spans.trans hs.spans,
    ht.growable.trans hs.growable, ht.freshSpans.trans hs.freshSpans,
    ht.scrubSpan.trans hs.scrubSpan, ht.secret.trans hs.secret⟩
  block hs hk := by
    cases hs
    all_goals exact ⟨rfl, rfl, rfl, rfl, hk, rfl⟩

instance (P : Profile) (s : Span) : Respects SameArena (spanFormat P s) := by
  unfold spanFormat
  infer_instance

theorem installed_wide (mem : Memory) :
    ∃ h, installed .fast mem wideBuffer.base wideBuffer.size 0 = (scrubEnter wideSpan h).2 ∧
      SameArena (bareArena wideBuffer mem 0) h :=
  ⟨_, installed_eq wideBuffer mem 0, Respects.step _⟩

theorem filed_halves (mem : Memory)
    (htame : (installed .fast mem wideBuffer.base wideBuffer.size 0).wild = false) :
    Filed (halves (installed .fast mem wideBuffer.base wideBuffer.size 0)) := by
  obtain ⟨h, he, hs⟩ := installed_wide mem
  have hc := confined_bareArena wideBuffer mem 0
  have hfresh : h.scrubSpan = none := hs.scrubSpan
  rw [he, scrubEnter, Prog.modify_run, if_pos hfresh] at htame ⊢
  refine ⟨⟨⟨_, hs.registry.trans hc.registry, hs.spans.trans hc.spans, htame,
    hs.growable.trans hc.fixed, hs.freshSpans.trans hc.stale, fun s' hs' =>
      (Option.some.inj hs').symm, Memory.AgreeOff.refl _ _ _⟩, (word_halves _).1,
    (word_halves _).2⟩, rfl, fun which => ?_⟩
  rw [link_halves]
  exact hs.secret

theorem agreeOff_halves (m : Memory) :
    Memory.AgreeOff m (halvesMemory m) wideSpan.lo wideSpan.hi :=
  (((Memory.AgreeOff.refl _ _ _).store (by decide) (by decide)).store (by decide)
    (by decide)).store (by decide) (by decide)

theorem run_realloc (ptr newSize : UInt64) :
    ((Call.realloc ptr newSize).run .fast h).2 = (mmRealloc .fast ptr.toNat newSize.toNat h).2 := rfl

/-- An arena one block wide is not kept to: a resize over a forged pair of halves leaves it. -/
theorem promise_broken_wide : ¬ ∀ (buf : Buffer .fast) (mem : Memory) (secret : UInt64) (h : Heap),
    Tampered .fast buf.span (installed .fast mem buf.base buf.size secret.toNat) h →
      h.wild = false := by
  intro hall
  have mem : Memory := ⟨0⟩
  have hall := hall wideBuffer mem 0
  have hs : wideBuffer.span = wideSpan := rfl
  have h0 : UInt64.toNat 0 = 0 := by decide
  rw [hs, h0] at hall
  have hf := filed_halves mem (hall _ .start)
  generalize installed .fast mem wideBuffer.base wideBuffer.size 0 = h₀ at hall hf
  have hd : Tampered .fast wideSpan h₀ (halves h₀) :=
    .damage .start _ _ _ _ (agreeOff_halves h₀.mem)
  have hend := hall _ (hd.call (.realloc 4112 288230376151711736) rfl)
  have hp : UInt64.toNat 4112 = 4112 := by decide
  have hn : UInt64.toNat 288230376151711736 = 2 ^ 58 - 8 := by decide
  rw [run_realloc, hp, hn, wild_realloc hf] at hend
  exact Bool.false_ne_true hend.symm

end Mars
