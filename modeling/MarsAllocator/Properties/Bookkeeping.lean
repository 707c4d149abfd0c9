import MarsAllocator.Invariant.Booked
import MarsAllocator.Properties.Binning

namespace Mars

open ByteMemory StateProgram

variable {P : Profile} {h : Heap} {s t : Span} {b c n bytes : Nat} {A : Nat → Prop}

theorem Heap.Booked.mmInit (hb : h.Booked) (heap heapSize secret : Nat) :
    (mmInit P heap heapSize secret h).2.Booked := by
  have hclear : (clearError h).2.Booked :=
    SameBooks.booked (h := h) ⟨rfl, rfl, rfl, rfl, rfl, rfl, rfl, rfl⟩ hb
  rw [Mars.mmInit, Prog.bind_run, Prog.ite_run]
  split
  · exact SameBooks.booked (h := h) ⟨rfl, rfl, rfl, rfl, rfl, rfl, rfl, rfl⟩ hb
  rename_i hc
  have hlarge : ¬ heapSize < minArena P := fun hl => hc (.inr (.inl hl))
  obtain ⟨g, hg⟩ : ∃ g, g = { (arenaReset (clearError h).2).2 with
    secret := secret, mode := .managed, mem := h.mem.store heap heapSize 0 } := ⟨_, rfl⟩
  have he := hclear.reset
  have hempty : g.Emptied := by
    rw [hg]
    exact ⟨he.registry, he.spans, he.spanCount, he.totalBytes, he.freshSpans⟩
  obtain ⟨s, hs⟩ : ∃ s, s = userSpan P heap heapSize g.nextIndexBase g.self := ⟨_, rfl⟩
  have hrun : ((do
      arenaReset
      Prog.modify fun h => { h with
        secret := secret
        mode := .managed
        mem := h.mem.store heap heapSize 0 }
      arenaInstallUser P heap heapSize
      pure true : HeapM Bool) (clearError h).2).2 = (spanAdopt P s (setFresh s false g).2).2 := by
    rw [hs, hg]
    rfl
  have henter := spanAdopt_enters (h := g) (s := s) P false (.inr hempty.registry)
  rw [hrun]
  refine henter.booked hempty.booked (fun t ht => ?_) ?_ (by rw [hs]; rfl)
  · rw [hempty.spans] at ht
    exact absurd ht List.not_mem_nil
  · have hp := P.sizes
    have hlo : s.lo = heap + P.blockOffset := by rw [hs]; rfl
    have hhi : s.hi = heap + P.blockOffset + usableOf P heapSize := by rw [hs]; rfl
    rw [usableOf, show alignment = 16 from rfl] at hhi
    rw [minArena] at hlarge
    omega

/-- The arena of a process, set up and called in any way, with anything becoming of its memory. -/
inductive Weathered (P : Profile) : Heap → Prop
  | blank (mem : Memory) : Weathered P (Heap.blank mem)
  | init {h : Heap} (hr : Weathered P h) (heap heapSize secret : UInt64) :
      Weathered P (mmInit P heap.toNat heapSize.toNat secret.toNat h).2
  | growable {h : Heap} (hr : Weathered P h) (secret : UInt64) (supply : List (Option Nat))
      (hs : (arenaReset { h with supply := supply }).2.Stocked (mappingFor P P.minBlock) fun _ => False) :
      Weathered P (arenaInitGrowable P secret.toNat { h with supply := supply }).2
  | called {h : Heap} (hr : Weathered P h) (c : Call) (supply : List (Option Nat))
      (hs : { h with supply := supply }.Stocked ((Action.call c).mapping P) fun _ => False) :
      Weathered P (c.run P { h with supply := supply }).2
  | damaged {h : Heap} (hr : Weathered P h) (mem : Memory) : Weathered P { h with mem := mem }

theorem Heap.Booked.supplied (hb : h.Booked) (supply : List (Option Nat)) :
    { h with supply := supply }.Booked :=
  ⟨hb.registry, hb.spanCount, hb.totalBytes, hb.freshSpans, hb.filled, hb.apart, hb.numbered, hb.below⟩

theorem Weathered.booked (hr : Weathered P h) : h.Booked := by
  induction hr with
  | blank mem => exact Heap.Emptied.booked ⟨rfl, rfl, rfl, rfl, rfl⟩
  | init _ heap heapSize secret ih => exact ih.mmInit heap.toNat heapSize.toNat secret.toNat
  | growable _ secret supply hs ih => exact ((ih.supplied supply).arenaInitGrowable hs le_rfl _).booked
  | called _ c supply hs ih =>
    have ho : Heap.Orderly ((Action.call c).mapping P) (fun _ => False) _ :=
      ⟨ih.supplied supply, hs, fun _ _ _ ha => ha.elim⟩
    exact (ho.call le_rfl).booked
  | damaged _ mem ih =>
    exact ⟨ih.registry, ih.spanCount, ih.totalBytes, ih.freshSpans, ih.filled, ih.apart, ih.numbered,
      ih.below⟩

/-- Whatever becomes of the memory, and whatever the arena is called with, it can tell which span an
address is in, no two blocks of it have one number, and its counts of spans, of the bytes in them
and of the fresh ones are right. -/
theorem books_survive (hr : Weathered P h) :
    (∀ p s, h.spanOf p = some s ↔ s ∈ h.spans ∧ s.lo ≤ p ∧ p < s.hi) ∧
    (∀ s ∈ h.spans, ∀ t ∈ h.spans, ∀ b c, s.lo ≤ b ∧ b + alignment ≤ s.hi → b % alignment = s.lo % alignment →
      t.lo ≤ c ∧ c + alignment ≤ t.hi → c % alignment = t.lo % alignment →
      indexIn s b = indexIn t c → b = c) ∧
    h.spanCount = h.spans.length ∧
    h.totalBytes = (h.spans.map fun s => s.hi - s.lo).sum ∧
    h.freshSpans = h.spans.countP fun s => h.fresh s.lo := by
  have hb := hr.booked
  refine ⟨fun p s => hb.spanOf_iff, ?_, hb.spanCount, hb.totalBytes, hb.freshSpans⟩
  intro s hs t ht b c hbs hb' hct hc' he
  exact hb.place hs ht ⟨hbs.1, hbs.2, Nat.sub_mod_eq_zero_of_mod_eq hb'⟩
    ⟨hct.1, hct.2, Nat.sub_mod_eq_zero_of_mod_eq hc'⟩ he

def Heap.supplied (h : Heap) (supply : List (Option Nat)) : Heap := { h with supply := supply }

def Heap.wiped (h : Heap) : Heap := { h with mem := ⟨0⟩ }

theorem Weathered.answered (hr : Weathered P h) (c : Call) {raw : Nat}
    (h0 : 0 < raw ∧ raw + (Action.call c).mapping P ≤ 2 ^ 56)
    (hclear : ∀ t ∈ h.spans, raw + (Action.call c).mapping P ≤ t.lo ∨ t.hi ≤ raw) :
    Weathered P (c.run P (h.supplied [some raw])).2 :=
  .called hr c [some raw] (Heap.stocked_one rfl h0 hclear fun _ ha => ha.elim)

theorem Weathered.wiped (hr : Weathered P h) (c : Call) :
    Weathered P (c.run P (h.wiped.supplied [])).2 :=
  .called (.damaged hr ⟨0⟩) c [] (Heap.stocked_nil rfl)

/-- An arena of mappings. -/
def grownHeap : Heap :=
  (arenaInitGrowable .fast (1 : UInt64).toNat ((Heap.blank ⟨0⟩).supplied [some 4096])).2

/-- A block too large for the first span has one of its own. -/
def stormyHeap : Heap :=
  ((Call.malloc 1100000).run .fast (grownHeap.supplied [some 4194304])).2

/-- All of the memory is wiped, and the block is freed. -/
def wipedHeap : Heap := ((Call.free 4194320).run .fast (stormyHeap.wiped.supplied [])).2

theorem stormy_facts : 0 < 4096 ∧ 4096 + mappingFor .fast Profile.fast.minBlock ≤ 2 ^ 56 ∧
    grownHeap.spans.map Span.hi = [4194296] ∧
    4194304 + (Action.call (.malloc 1100000)).mapping .fast ≤ 2 ^ 56 ∧
    wipedHeap.spans.length = 2 := by decide +kernel

theorem grown_weathered : Weathered .fast grownHeap :=
  .growable (.blank ⟨0⟩) 1 [some 4096] (Heap.stocked_one rfl ⟨stormy_facts.1, stormy_facts.2.1⟩
    (fun _ ht => absurd ht List.not_mem_nil) fun _ ha => ha.elim)

theorem grown_clear (t : Span) (ht : t ∈ grownHeap.spans) : t.hi ≤ 4194304 := by
  have hmem : t.hi ∈ grownHeap.spans.map Span.hi := List.mem_map_of_mem ht
  rw [stormy_facts.2.2.1] at hmem
  exact (List.mem_singleton.mp hmem).le.trans (by decide)

theorem stormy_low : 0 < 4194304 ∧
    4194304 + (Action.call (.malloc 1100000)).mapping .fast ≤ 2 ^ 56 :=
  ⟨by decide, stormy_facts.2.2.2.1⟩

theorem stormy_weathered : Weathered .fast stormyHeap := by
  rw [stormyHeap]
  exact grown_weathered.answered (.malloc 1100000) stormy_low fun t ht => .inr (grown_clear t ht)

theorem wiped_weathered : Weathered .fast wipedHeap := by
  rw [wipedHeap]
  exact stormy_weathered.wiped (.free 4194320)

theorem books_survive_wiped :
    wipedHeap.spans.length = 2 ∧ wipedHeap.spanCount = wipedHeap.spans.length :=
  ⟨stormy_facts.2.2.2.2, (books_survive wiped_weathered).2.2.1⟩

end Mars
