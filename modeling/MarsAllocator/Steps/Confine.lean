import MarsAllocator.Steps.Reads

namespace Mars

open ByteMemory StateProgram

/-- The arena is the one buffer span `s`; whatever memory looked like as `m`, it has changed inside
`s` only, and nothing outside has been looked at. -/
structure Confined (s : Span) (m : Memory) (h : Heap) : Prop where
  registry : h.registry = [s]
  spans : h.spans = [s]
  tame : h.wild = false
  fixed : h.growable = false
  stale : h.freshSpans = 0
  cursor : ∀ s', h.scrubSpan = some s' → s' = s
  agree : Memory.AgreeOff m h.mem s.lo s.hi

def Room (P : Profile) (s : Span) (b : Nat) : Prop := s.lo ≤ b ∧ b + P.minBlock ≤ s.hi

variable {P : Profile} {s : Span} {m : Memory} {h h' : Heap} {b : Nat}

namespace Confined

theorem own (hc : Confined s m h) (b : Nat) : h.Own b := by
  intro s' hs'
  have hm := (spanOf_bounds hs').1
  rw [hc.registry] at hm
  rw [hc.spans]
  exact hm

theorem span_eq (hc : Confined s m h) {s' : Span} (hs' : h.spanOf b = some s') : s' = s := by
  have hm := (spanOf_bounds hs').1
  rw [hc.registry] at hm
  exact List.mem_singleton.mp hm

theorem covers (hc : Confined s m h) {a n : Nat} (hlo : s.lo ≤ a) (hhi : a + n ≤ s.hi) :
    h.Covers a n := ⟨s, by rw [hc.spans]; exact List.mem_singleton.mpr rfl, hlo, hhi⟩

theorem spanOf (hc : Confined s m h) (hlo : s.lo ≤ b) (hhi : b < s.hi) : h.spanOf b = some s := by
  rw [Heap.spanOf, hc.registry, List.find?_cons]
  simp [hlo, hhi]

theorem store (hc : Confined s m h) {a n v : Nat} (hlo : s.lo ≤ a) (hhi : a + n ≤ s.hi) :
    Confined s m { h with mem := h.mem.store a n v } :=
  ⟨hc.registry, hc.spans, hc.tame, hc.fixed, hc.stale, hc.cursor, hc.agree.store hlo hhi⟩

end Confined

/-- Nothing but the books has changed: statuses, counters, bins, `lost_bytes`, the cursor. -/
inductive Aside (h : Heap) : Heap → Prop
  | mk (lastError : Status) (raised : List Status) (stats : Stats) (lostBytes scrubAt : Nat)
      (bins : Nat → Nat) (binBitmap : Nat → BitVec 64) (ops opsSinceScrub : Nat) :
      Aside h { h with
        lastError := lastError
        raised := raised
        stats := stats
        lostBytes := lostBytes
        scrubAt := scrubAt
        bins := bins
        binBitmap := binBitmap
        ops := ops
        opsSinceScrub := opsSinceScrub }

namespace Aside

instance : Std.Refl Aside := ⟨fun h => .mk h.lastError h.raised h.stats h.lostBytes h.scrubAt h.bins
  h.binBitmap h.ops h.opsSinceScrub⟩

instance : IsTrans Heap Aside := ⟨fun _ _ _ => by
  rintro ⟨_, _, _, _, _, _, _, _, _⟩ ⟨_, _, _, _, _, _, _, _, _⟩
  exact .mk _ _ _ _ _ _ _ _ _⟩

theorem mem (ha : Aside h h') : h'.mem = h.mem := by
  obtain ⟨_, _, _, _, _, _, _, _, _⟩ := ha
  rfl

theorem confined (ha : Aside h h') (hc : Confined s m h) : Confined s m h' := by
  obtain ⟨_, _, _, _, _, _, _, _, _⟩ := ha
  exact ⟨hc.registry, hc.spans, hc.tame, hc.fixed, hc.stale, hc.cursor, hc.agree⟩

instance fail (status : Status) : Respects Aside (fail status) := ⟨fun h =>
  .mk _ _ h.stats h.lostBytes h.scrubAt h.bins h.binBitmap h.ops h.opsSinceScrub⟩

instance clearError : Respects Aside clearError := ⟨fun h =>
  .mk _ h.raised h.stats h.lostBytes h.scrubAt h.bins h.binBitmap h.ops h.opsSinceScrub⟩

instance updateStats (f : Stats → Stats) : Respects Aside (updateStats f) := ⟨fun h =>
  .mk h.lastError h.raised _ h.lostBytes h.scrubAt h.bins h.binBitmap h.ops h.opsSinceScrub⟩

instance statNote (e : StatsEvent) (n : Nat) : Respects Aside (statNote e n) := by
  unfold Mars.statNote; infer_instance

instance addLost (n : Nat) : Respects Aside (addLost n) := ⟨fun h =>
  .mk h.lastError h.raised h.stats _ h.scrubAt h.bins h.binBitmap h.ops h.opsSinceScrub⟩

instance bitmapSet (bin : Nat) : Respects Aside (bitmapSet bin) := ⟨fun h =>
  .mk h.lastError h.raised h.stats h.lostBytes h.scrubAt h.bins _ h.ops h.opsSinceScrub⟩

instance bitmapClear (bin : Nat) : Respects Aside (bitmapClear bin) := ⟨fun h =>
  .mk h.lastError h.raised h.stats h.lostBytes h.scrubAt h.bins _ h.ops h.opsSinceScrub⟩

instance setBin (bin b : Nat) : Respects Aside (setBin bin b) := ⟨fun h =>
  .mk h.lastError h.raised h.stats h.lostBytes h.scrubAt _ h.binBitmap h.ops h.opsSinceScrub⟩

instance binsReset : Respects Aside binsReset := ⟨fun h =>
  .mk h.lastError h.raised h.stats h.lostBytes h.scrubAt _ _ h.ops h.opsSinceScrub⟩

instance countOp : Respects Aside countOp := ⟨fun h =>
  .mk h.lastError h.raised h.stats h.lostBytes h.scrubAt h.bins h.binBitmap _ h.opsSinceScrub⟩

instance setOpsSinceScrub (n : Nat) : Respects Aside (setOpsSinceScrub n) := ⟨fun h =>
  .mk h.lastError h.raised h.stats h.lostBytes h.scrubAt h.bins h.binBitmap h.ops _⟩

instance scrubForget (lo hi : Nat) : Respects Aside (scrubForget lo hi) := by
  refine ⟨fun h => ?_⟩
  rw [Mars.scrubForget, Prog.modify_run]
  split
  · exact .mk h.lastError h.raised h.stats h.lostBytes _ h.bins h.binBitmap h.ops h.opsSinceScrub
  · exact refl_of Aside h

end Aside

section Rules

variable {α β : Type} {Q : β → Heap → Prop}

theorem wp_aside {x : HeapM α} [hx : Respects Aside x] {f : α → HeapM β} (hc : Confined s m h)
    (hf : ∀ a h', Confined s m h' → h'.mem = h.mem → wp (f a) Q h') : wp (x >>= f) Q h :=
  hf _ _ ((hx.step h).confined hc) (hx.step h).mem

theorem confined_aside {x : HeapM α} [hx : Respects Aside x] (hc : Confined s m h) :
    Confined s m (x h).2 := (hx.step h).confined hc

theorem storeN_run {a n v : Nat} (hc : Confined s m h) (hlo : s.lo ≤ a) (hhi : a + n ≤ s.hi) :
    storeN a n v h = ((), { h with mem := h.mem.store a n v }) := by
  rw [storeN, Heap.touch_eq (hc.covers hlo hhi)]

end Rules

theorem Room.covers (hb : Room P s b) (hc : Confined s m h) : h.Covers b P.minBlock :=
  hc.covers hb.1 hb.2

theorem Room.covers8 (hb : Room P s b) (hc : Confined s m h) : h.Covers b 8 := by
  have hp := P.sizes
  exact (hb.covers hc).sub (le_refl b) (by omega)

theorem Heap.Legible.room {s' : Span} (hl : h.Legible P s' b) (hc : Confined s m h) :
    Mars.Room P s b ∧ b + wordSize (h.word b) ≤ s.hi := by
  obtain rfl := hc.span_eq hl.span
  have := hl.end_le
  have := hl.min_le
  exact ⟨⟨hl.lo_le, by omega⟩, by omega⟩

theorem headerOk_room (hc : Confined s m h) (hk : (headerOk P b h).1 = true) :
    Room P s b ∧ b + wordSize (h.word b) ≤ s.hi := by
  obtain ⟨s', hk⟩ := (headerOk_fst h b).mp hk
  exact hk.room hc

theorem isBlock_room (hc : Confined s m h) (hk : (isBlock P b h).1 = true) :
    Room P s b ∧ b + wordSize (h.word b) ≤ s.hi := by
  obtain ⟨s', hl⟩ := (isBlock_fst h b).mp hk
  exact hl.room hc

theorem nodeOk_room (hc : Confined s m h) {bin : Nat} (hn : (nodeOk P b bin h).1 = true) :
    Room P s b ∧ b + wordSize (h.word b) ≤ s.hi := by
  obtain ⟨s', hk, -⟩ := nodeOk_headerOk hc.own hn
  exact hk.room hc

theorem unchanged_headerOk {n : Nat} {used : Bool} (ho : h.Own b)
    (hu : (unchanged P b n used h).1 = true) :
    (headerOk P b h).1 = true ∧ wordSize (h.word b) = n ∧ wordUsed (h.word b) = used := by
  rw [unchanged, bind_still (still_headerOk ho), Prog.ite_run] at hu
  split at hu
  · rename_i hk
    change (wordSize (h.word b) == n && wordUsed (h.word b) == used) = true at hu
    simp only [Bool.and_eq_true, beq_iff_eq] at hu
    exact ⟨hk, hu⟩
  · exact absurd hu (by simp [Prog.pure_run])

theorem confined_store64 (hc : Confined s m h) (hb : Room P s b) (v : Nat) :
    Confined s m (store64 b v h).2 := by
  have hp := P.sizes
  obtain ⟨hlo, hhi⟩ := hb
  rw [store64, storeN_run hc hlo (by omega)]
  exact hc.store hlo (by omega)

theorem confined_setWord (hc : Confined s m h) (hb : Room P s b) (n slack : Nat)
    (used quarantined : Bool) : Confined s m (setWord b n slack used quarantined h).2 := by
  rw [setWord, bind_still (still_load64 (hb.covers8 hc))]
  exact confined_store64 hc hb _

theorem confined_setPrevInUse (hc : Confined s m h) (hb : Room P s b) (used : Bool) :
    Confined s m (setPrevInUse b used h).2 := by
  rw [setPrevInUse, bind_still (still_load64 (hb.covers8 hc))]
  exact confined_store64 hc hb _

theorem confined_setBlockSize (hc : Confined s m h) (hb : Room P s b) (n : Nat) :
    Confined s m (setBlockSize b n h).2 := by
  rw [setBlockSize, bind_still (still_load64 (hb.covers8 hc))]
  exact confined_store64 hc hb _

theorem confined_freeLinkSet (hc : Confined s m h) (hb : Room P s b) (which : Link) (p : Nat) :
    Confined s m (freeLinkSet P b which p h).2 := by
  have hp := P.sizes
  have ho : which.offset ≤ 8 := by cases which <;> simp [Link.offset]
  obtain ⟨hlo, hhi⟩ := hb
  have ha : payloadOf P b + which.offset + 8 ≤ s.hi := by
    rw [payloadOf]
    omega
  have ha' : s.lo ≤ payloadOf P b + which.offset := by
    rw [payloadOf]
    omega
  rw [freeLinkSet, Prog.bind_run, Prog.read_run, store64, storeN_run hc ha' ha]
  exact hc.store ha' ha

theorem confined_writeFreeFooter (hc : Confined s m h) (hb : Room P s b)
    (hn : P.minBlock ≤ wordSize (h.word b)) (hend : b + wordSize (h.word b) ≤ s.hi) :
    Confined s m (writeFreeFooter b h).2 := by
  have hp := P.sizes
  have hv : (blockSize b h).1 = wordSize (h.word b) := rfl
  obtain ⟨hlo, hhi⟩ := hb
  rw [writeFreeFooter, bind_still (still_blockSize (hc.covers hlo (by omega))), hv, store64,
    storeN_run hc (by omega) (by omega)]
  exact hc.store (by omega) (by omega)

/-- Every bin is empty or starts where a block fits. -/
def BinsRoom (P : Profile) (s : Span) (h : Heap) : Prop := ∀ i, h.bins i = 0 ∨ Room P s (h.bins i)

theorem confined_binPush (hc : Confined s m h) (hb : Room P s b) {bin : Nat}
    (hh : h.bins bin = 0 ∨ Room P s (h.bins bin)) :
    wp (binPush P b bin) (fun _ h' => Confined s m h' ∧ (BinsRoom P s h → BinsRoom P s h')) h := by
  have hbins : ∀ (which : Link) (b p : Nat) (h : Heap), (freeLinkSet P b which p h).2.bins = h.bins :=
    fun _ _ _ _ => rfl
  rw [binPush, wp_bind, wp_read]
  generalize h.bins bin = head at hh
  rw [wp_bind, wp]
  have hc₁ := confined_freeLinkSet hc hb .next head
  have hb₁ := hbins .next b head h
  generalize (freeLinkSet P b .next head h).2 = h₁ at hc₁ hb₁
  rw [wp_bind, wp]
  have hc₂ := confined_freeLinkSet hc₁ hb .prev 0
  have hb₂ := hbins .prev b 0 h₁
  generalize (freeLinkSet P b .prev 0 h₁).2 = h₂ at hc₂ hb₂
  have hlast {h₃ : Heap} (hc₃ : Confined s m h₃) (hb₃ : h₃.bins = h.bins) :
      wp (do
        setBin bin b
        bitmapSet bin) (fun _ h' => Confined s m h' ∧ (BinsRoom P s h → BinsRoom P s h')) h₃ := by
    refine ⟨confined_aside hc₃, fun hr i => ?_⟩
    change Function.update h₃.bins bin b i = 0 ∨ Room P s (Function.update h₃.bins bin b i)
    rw [hb₃]
    by_cases hi : i = bin
    · rw [hi, Function.update_self]
      exact Or.inr hb
    · rw [Function.update_of_ne hi]
      exact hr i
  rcases hh with rfl | hh
  · rw [wp_when_false _ (by decide)]
    exact hlast hc₂ (hb₂.trans hb₁)
  · by_cases h0 : head = 0
    · rw [wp_when_false _ (by simpa using h0)]
      exact hlast hc₂ (hb₂.trans hb₁)
    · rw [wp_when_true _ h0, wp_bind, wp]
      exact hlast (confined_freeLinkSet hc₂ hh .prev b) ((hbins .prev head b h₂).trans (hb₂.trans hb₁))

theorem confined_rebuildSpan (hc : Confined s m h) (hr : BinsRoom P s h) (s' : Span)
    (budget p : Nat) :
    wp (rebuildSpan P s' budget p) (fun _ h' => Confined s m h' ∧ BinsRoom P s h') h := by
  induction budget generalizing h p with
  | zero => exact ⟨hc, hr⟩
  | succ budget ih =>
    rw [rebuildSpan, wp_ite]
    split
    swap
    · exact ⟨hc, hr⟩
    refine wp_still (still_headerOk (hc.own p)) ?_
    rw [wp_ite]
    split
    swap
    · exact ⟨hc, hr⟩
    rename_i hk
    obtain ⟨hp, -⟩ := headerOk_room hc hk
    refine wp_still (still_isUsed (hp.covers8 hc)) ?_
    rw [wp_ite]
    split
    · exact wp_still (still_blockSize (hp.covers8 hc)) (ih hc hr _)
    refine wp_still (still_extentCorroborated (hc.own p)) ?_
    rw [wp_ite]
    split
    · refine wp_still (still_blockSize (hp.covers8 hc)) ?_
      refine wp_seq (confined_binPush hc hp (hr _)) fun _ h₁ ⟨hc₁, hr₁⟩ => ?_
      exact wp_still (still_blockSize (hp.covers8 hc₁)) (ih hc₁ (hr₁ hr) _)
    · exact ⟨confined_aside hc, hr⟩

theorem confined_rebuildSpans (hc : Confined s m h) (hr : BinsRoom P s h) (spans : List Span) :
    Confined s m (rebuildSpans P spans h).2 := by
  induction spans generalizing h with
  | nil => exact hc
  | cons s' rest ih =>
    have hw : wp (rebuildSpans P (s' :: rest)) (fun _ h' => Confined s m h') h :=
      wp_seq (confined_rebuildSpan hc hr s' _ _) fun _ h₁ ⟨hc₁, hr₁⟩ => ih hc₁ hr₁
    exact hw

theorem confined_binsRebuild (hc : Confined s m h) : Confined s m (binsRebuild P h).2 := by
  have hw : wp (binsRebuild P) (fun _ h' => Confined s m h') h := by
    rw [binsRebuild, wp_bind, wp, wp_bind, wp_read]
    exact confined_rebuildSpans (confined_aside hc) (fun _ => Or.inl rfl) _
  exact hw

theorem confined_binInsert (hc : Confined s m h) (hb : Room P s b) :
    Confined s m (binInsert P b h).2 := by
  have hw : wp (binInsert P b) (fun _ h' => Confined s m h') h := by
    have hbin : Still (binOfBlock P b) h := (still_blockSize (hb.covers8 hc)).bind rfl
    refine wp_still hbin ?_
    generalize (binOfBlock P b h).1 = bin
    rw [wp_bind, wp_read]
    have hs : Still (if h.bins bin = 0 then pure true else nodeOk P (h.bins bin) bin) h :=
      Still.ite (fun _ => rfl) fun _ => still_nodeOk (hc.own _) bin
    generalize hx : (if h.bins bin = 0 then pure true else nodeOk P (h.bins bin) bin) = x at hs
    refine wp_still hs ?_
    rw [wp_ite]
    split
    · rename_i hok
      refine wp_mono (confined_binPush hc hb ?_) fun _ _ hq => hq.1
      by_cases h0 : h.bins bin = 0
      · exact Or.inl h0
      · rw [if_neg h0] at hx
        subst hx
        exact Or.inr (nodeOk_room hc hok).1
    · exact wp_aside hc fun _ h₁ hc₁ _ => confined_binsRebuild hc₁
  exact hw

theorem linksOk_room (hc : Confined s m h) {bin : Nat} (hok : (linksOk P b bin h).1 = true) :
    Room P s b ∧
      ((freeLinkGet P b .next h).1 = 0 ∨ Room P s (freeLinkGet P b .next h).1) ∧
      ((freeLinkGet P b .prev h).1 = 0 ∨ Room P s (freeLinkGet P b .prev h).1) := by
  rw [linksOk, bind_still (still_nodeOk (hc.own b) bin), Prog.ite_run] at hok
  split at hok
  swap
  · exact absurd hok (by simp [Prog.pure_run])
  rename_i hn
  obtain ⟨hb, -⟩ := nodeOk_room hc hn
  rw [bind_still (still_freeLinkGet (hb.covers hc) .next),
    bind_still (still_freeLinkGet (hb.covers hc) .prev), Prog.and_run] at hok
  generalize (freeLinkGet P b .next h).1 = next at hok ⊢
  generalize (freeLinkGet P b .prev h).1 = prev at hok ⊢
  have hnext : (nextLinkOk P b bin next h).1 = true := by
    by_contra hn
    rw [if_neg hn] at hok
    exact Bool.false_ne_true hok
  rw [if_pos hnext, still_nextLinkOk hc.own bin next] at hok
  refine ⟨hb, ?_, ?_⟩
  · by_cases h0 : next = 0
    · exact Or.inl h0
    · rw [nextLinkOk, if_neg h0, Prog.and_run] at hnext
      refine Or.inr (nodeOk_room hc (show (nodeOk P next bin h).1 = true from ?_)).1
      by_contra hn
      rw [if_neg hn] at hnext
      exact Bool.false_ne_true hnext
  · by_cases h0 : prev = 0
    · exact Or.inl h0
    · rw [prevLinkOk, if_neg h0, Prog.and_run] at hok
      refine Or.inr (nodeOk_room hc (show (nodeOk P prev bin h).1 = true from ?_)).1
      by_contra hn
      rw [if_neg hn] at hok
      exact Bool.false_ne_true hok

theorem confined_binUnlink (hc : Confined s m h) {bin : Nat}
    (hok : (linksOk P b bin h).1 = true) : Confined s m (binUnlink P b bin h).2 := by
  obtain ⟨hb, hnext, hprev⟩ := linksOk_room hc hok
  have hw : wp (binUnlink P b bin) (fun _ h' => Confined s m h') h := by
    refine wp_still (still_freeLinkGet (hb.covers hc) .next) ?_
    refine wp_still (still_freeLinkGet (hb.covers hc) .prev) ?_
    generalize (freeLinkGet P b .next h).1 = next at hnext
    generalize (freeLinkGet P b .prev h).1 = prev at hprev
    have hfirst : wp (if prev ≠ 0 then freeLinkSet P prev .next next
        else do
          setBin bin next
          Prog.when (next = 0) (bitmapClear bin)) (fun _ h' => Confined s m h') h := by
      rw [wp_ite]
      split
      · rename_i h0
        exact confined_freeLinkSet hc (hprev.resolve_left h0) .next next
      · exact confined_aside hc
    refine wp_seq hfirst fun _ h₁ hc₁ => ?_
    rw [wp_when]
    split
    · rename_i h0
      exact confined_freeLinkSet hc₁ (hnext.resolve_left h0) .prev prev
    · exact hc₁
  exact hw

theorem confined_binRemove (hc : Confined s m h) (hb : Room P s b) :
    Confined s m (binRemove P b h).2 := by
  have hw : wp (binRemove P b) (fun _ h' => Confined s m h') h := by
    have hbin : Still (binOfBlock P b) h := (still_blockSize (hb.covers8 hc)).bind rfl
    refine wp_still hbin ?_
    generalize (binOfBlock P b h).1 = bin
    refine wp_still (still_linksOk hc.own bin) ?_
    rw [wp_ite]
    split
    · exact confined_binUnlink hc ‹_›
    refine wp_aside hc fun _ h₁ hc₁ _ => ?_
    rw [wp_bind, wp]
    have hc₂ : Confined s m (binsRebuild P h₁).2 := confined_binsRebuild hc₁
    generalize (binsRebuild P h₁).2 = h₂ at hc₂
    refine wp_still (still_linksOk hc₂.own bin) ?_
    rw [wp_ite]
    split
    · exact confined_binUnlink hc₂ ‹_›
    refine wp_still (still_isUsed (hb.covers8 hc₂)) ?_
    rw [wp_ite]
    split
    · exact hc₂
    · exact confined_freeLinkSet (confined_freeLinkSet hc₂ hb .next 0) hb .prev 0
  exact hw

end Mars
