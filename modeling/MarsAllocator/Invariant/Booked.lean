import Mathlib.Algebra.BigOperators.Group.List.Basic
import MarsAllocator.Invariant.Mapped
import MarsAllocator.Steps.Entry

namespace Mars

open ByteMemory StateProgram

variable {P : Profile} {h h' : Heap} {s t : Span} {b n need bytes raw : Nat} {A : Nat → Prop}

/-- What the arena has on its spans in records outside the memory that it hands out. -/
structure Heap.Booked (h : Heap) : Prop where
  registry : h.registry = h.spans
  spanCount : h.spanCount = h.spans.length
  totalBytes : h.totalBytes = (h.spans.map fun s => s.hi - s.lo).sum
  freshSpans : h.freshSpans = h.spans.countP fun s => h.fresh s.lo
  filled : ∀ s ∈ h.spans, s.lo < s.hi
  apart : h.spans.Pairwise fun s t => s.hi ≤ t.lo ∨ t.hi ≤ s.lo
  numbered : h.spans.Pairwise fun s t => t.indexBase + (t.hi - t.lo) / alignment ≤ s.indexBase
  below : ∀ s ∈ h.spans, s.indexBase + (s.hi - s.lo) / alignment ≤ h.nextIndexBase

/-- The platform answers with mappings of `bytes` bytes clear of each other, of the spans and of
the addresses in `A`. -/
structure Heap.Stocked (bytes : Nat) (A : Nat → Prop) (h : Heap) : Prop where
  low : ∀ raw, some raw ∈ h.supply → 0 < raw ∧ raw + bytes ≤ 2 ^ 56
  clear : ∀ raw, some raw ∈ h.supply → ∀ t ∈ h.spans, raw + bytes ≤ t.lo ∨ t.hi ≤ raw
  apart : h.supply.Pairwise fun x y =>
    ∀ a b, x = some a → y = some b → a + bytes ≤ b ∨ b + bytes ≤ a
  aside : ∀ raw, some raw ∈ h.supply → ∀ a, A a → a < raw ∨ raw + bytes ≤ a

structure Heap.Orderly (bytes : Nat) (A : Nat → Prop) (h : Heap) : Prop where
  booked : h.Booked
  stocked : h.Stocked bytes A
  aside : ∀ t ∈ h.spans, ∀ a, A a → a < t.lo ∨ t.hi ≤ a

theorem Heap.Booked.lo_inj (hb : h.Booked) (hs : s ∈ h.spans) (ht : t ∈ h.spans) (he : s.lo = t.lo) :
    s = t := by
  by_contra hne
  have := hb.filled s hs
  have := hb.filled t ht
  have hsym : Std.Symm fun s t : Span => s.hi ≤ t.lo ∨ t.hi ≤ s.lo := ⟨fun _ _ => Or.symm⟩
  have := hb.apart.forall hs ht hne
  omega

theorem Heap.Booked.nodup (hb : h.Booked) : h.spans.Nodup := by
  apply List.Pairwise.imp_of_mem _ hb.apart
  rintro s t hs - hap rfl
  have := hb.filled s hs
  omega

theorem Heap.Booked.spanOf_iff (hb : h.Booked) :
    h.spanOf b = some s ↔ s ∈ h.spans ∧ s.lo ≤ b ∧ b < s.hi := by
  constructor
  · intro hs
    obtain ⟨hmem, hlo, hhi⟩ := spanOf_bounds hs
    exact ⟨hb.registry ▸ hmem, hlo, hhi⟩
  · rintro ⟨hs, hlo, hhi⟩
    rw [Heap.spanOf]
    cases hf : h.registry.find? fun s => s.lo ≤ b && b < s.hi with
    | none =>
      have := List.find?_eq_none.mp hf s (hb.registry ▸ hs)
      simp [hlo, hhi] at this
    | some t =>
      obtain ⟨hmem, hlo', hhi'⟩ := spanOf_bounds hf
      rw [hb.registry] at hmem
      by_contra hne
      have hsym : Std.Symm fun s t : Span => s.hi ≤ t.lo ∨ t.hi ≤ s.lo := ⟨fun _ _ => Or.symm⟩
      have := hb.apart.forall hmem hs fun he => hne (congrArg some he)
      omega

theorem Heap.Booked.place (hb : h.Booked) (hs : s ∈ h.spans) (ht : t ∈ h.spans) {p : Nat}
    (hp : s.lo ≤ p ∧ p + alignment ≤ s.hi ∧ (p - s.lo) % alignment = 0)
    (hq : t.lo ≤ b ∧ b + alignment ≤ t.hi ∧ (b - t.lo) % alignment = 0)
    (he : indexIn s p = indexIn t b) : p = b := by
  have hal : alignment = 16 := rfl
  rw [indexIn, indexIn] at he
  rw [hal] at he hp hq
  have hst : s = t := by
    by_contra hne
    have hsym : Std.Symm fun s t : Span => t.indexBase + (t.hi - t.lo) / alignment ≤ s.indexBase ∨
        s.indexBase + (s.hi - s.lo) / alignment ≤ t.indexBase := ⟨fun _ _ => Or.symm⟩
    have hpair : h.spans.Pairwise fun s t => t.indexBase + (t.hi - t.lo) / alignment ≤ s.indexBase ∨
        s.indexBase + (s.hi - s.lo) / alignment ≤ t.indexBase := hb.numbered.imp Or.inl
    have hap := hpair.forall hs ht hne
    rw [hal] at hap
    omega
  rw [hst] at he hp
  omega

/-- The records of the spans are as they were. -/
structure SameBooks (h h' : Heap) : Prop where
  registry : h'.registry = h.registry
  spans : h'.spans = h.spans
  spanCount : h'.spanCount = h.spanCount
  totalBytes : h'.totalBytes = h.totalBytes
  nextIndexBase : h'.nextIndexBase = h.nextIndexBase
  freshSpans : h'.freshSpans = h.freshSpans
  fresh : h'.fresh = h.fresh
  supply : h'.supply = h.supply

theorem SameBooks.booked (hs : SameBooks h h') (hb : h.Booked) : h'.Booked := by
  constructor
  all_goals simp only [hs.registry, hs.spans, hs.spanCount, hs.totalBytes, hs.nextIndexBase,
    hs.freshSpans, hs.fresh]
  · exact hb.registry
  · exact hb.spanCount
  · exact hb.totalBytes
  · exact hb.freshSpans
  · exact hb.filled
  · exact hb.apart
  · exact hb.numbered
  · exact hb.below

theorem SameBooks.orderly (hs : SameBooks h h') (ho : h.Orderly bytes A) : h'.Orderly bytes A := by
  refine ⟨hs.booked ho.booked, ?_, ?_⟩
  · constructor
    all_goals simp only [hs.supply, hs.spans]
    · exact ho.stocked.low
    · exact ho.stocked.clear
    · exact ho.stocked.apart
    · exact ho.stocked.aside
  · rw [hs.spans]
    exact ho.aside

instance : CoreClosed SameBooks where
  refl _ := ⟨rfl, rfl, rfl, rfl, rfl, rfl, rfl, rfl⟩
  trans _ _ _ h h' := ⟨h'.registry.trans h.registry, h'.spans.trans h.spans,
    h'.spanCount.trans h.spanCount, h'.totalBytes.trans h.totalBytes,
    h'.nextIndexBase.trans h.nextIndexBase, h'.freshSpans.trans h.freshSpans, h'.fresh.trans h.fresh,
    h'.supply.trans h.supply⟩
  core hs := by
    cases hs
    all_goals exact ⟨rfl, rfl, rfl, rfl, rfl, rfl, rfl, rfl⟩

def KeepsOrder (bytes : Nat) (A : Nat → Prop) (h h' : Heap) : Prop :=
  h.Orderly bytes A → h'.Orderly bytes A

instance : CoreClosed (KeepsOrder bytes A) where
  refl _ := id
  trans _ _ _ h h' := h' ∘ h
  core hs := (CoreClosed.core (R := SameBooks) hs).orderly

/-- Nothing is in the `bytes` bytes from `raw` on. -/
structure Heap.Bare (raw bytes : Nat) (A : Nat → Prop) (h : Heap) : Prop where
  low : raw + bytes ≤ 2 ^ 56
  spans : ∀ t ∈ h.spans, raw + bytes ≤ t.lo ∨ t.hi ≤ raw
  supply : ∀ x, some x ∈ h.supply → raw + bytes ≤ x ∨ x + bytes ≤ raw
  aside : ∀ a, A a → a < raw ∨ raw + bytes ≤ a

theorem Heap.Orderly.supplied {rest : List (Option Nat)} (ho : h.Orderly bytes A)
    (hr : rest.Sublist h.supply) (mem : Memory) :
    { h with supply := rest, mem := mem }.Orderly bytes A := by
  have hs := ho.stocked
  exact ⟨⟨ho.booked.registry, ho.booked.spanCount, ho.booked.totalBytes, ho.booked.freshSpans,
    ho.booked.filled, ho.booked.apart, ho.booked.numbered, ho.booked.below⟩,
    ⟨fun raw hraw => hs.low raw (hr.subset hraw), fun raw hraw => hs.clear raw (hr.subset hraw),
      hs.apart.sublist hr, fun raw hraw => hs.aside raw (hr.subset hraw)⟩, ho.aside⟩

theorem Heap.Orderly.sysMap (ho : h.Orderly bytes A) (n : Nat) :
    wp (sysMap n) (fun r h' => h'.Orderly bytes A ∧ (r ≠ 0 → h'.Bare r bytes A)) h := by
  obtain ⟨rest, hrest⟩ : ∃ rest, rest = h.supply := ⟨_, rfl⟩
  rw [wp]
  cases rest with
  | nil =>
    rw [Mars.sysMap, ← hrest]
    exact ⟨ho, fun hne => absurd rfl hne⟩
  | cons answer rest =>
    have hsub : rest.Sublist h.supply := hrest ▸ List.sublist_cons_self answer rest
    cases answer with
    | none =>
      rw [Mars.sysMap, ← hrest]
      exact ⟨ho.supplied hsub h.mem, fun hne => absurd rfl hne⟩
    | some raw =>
      have hin : some raw ∈ h.supply := hrest ▸ List.mem_cons_self
      have hap := ho.stocked.apart
      rw [← hrest, List.pairwise_cons] at hap
      rw [Mars.sysMap, ← hrest]
      exact ⟨ho.supplied hsub _, fun _ => ⟨(ho.stocked.low raw hin).2, ho.stocked.clear raw hin,
        fun x hx => hap.1 _ hx raw x rfl rfl, ho.stocked.aside raw hin⟩⟩

/-- The books with one more span in them. -/
structure Heap.Enters (s : Span) (fresh : Bool) (h h' : Heap) : Prop where
  registry : h'.registry = s :: h.registry
  spans : h'.spans = s :: h.spans
  spanCount : h'.spanCount = h.spanCount + 1
  totalBytes : h'.totalBytes = h.totalBytes + (s.hi - s.lo)
  nextIndexBase : h'.nextIndexBase = h.nextIndexBase + (s.hi - s.lo) / alignment
  freshSpans : h'.freshSpans = h.freshSpans + fresh.toNat
  fresh : h'.fresh = Function.update h.fresh s.lo fresh
  supply : h'.supply = h.supply

theorem Heap.Enters.booked {fresh : Bool} (he : h.Enters s fresh h') (hb : h.Booked)
    (hap : ∀ t ∈ h.spans, s.hi ≤ t.lo ∨ t.hi ≤ s.lo) (hne : s.lo < s.hi)
    (hi : s.indexBase = h.nextIndexBase) : h'.Booked := by
  have hcount : h.spans.countP (fun t => h'.fresh t.lo) = h.spans.countP fun t => h.fresh t.lo := by
    apply List.countP_congr
    intro t ht
    have := hap t ht
    have := hb.filled t ht
    have hlo : t.lo ≠ s.lo := by omega
    rw [he.fresh, Function.update_of_ne hlo]
  have hmem : ∀ t ∈ h'.spans, t = s ∨ t ∈ h.spans := fun t ht => by
    rw [he.spans] at ht
    exact List.mem_cons.mp ht
  refine ⟨?_, ?_, ?_, ?_, ?_, ?_, ?_, ?_⟩
  · rw [he.registry, he.spans, hb.registry]
  · rw [he.spanCount, he.spans, hb.spanCount, List.length_cons]
  · rw [he.totalBytes, he.spans, hb.totalBytes, List.map_cons, List.sum_cons, add_comm]
  · rw [he.freshSpans, he.spans, List.countP_cons, hcount, hb.freshSpans, he.fresh, Function.update_self]
    cases fresh <;> rfl
  · intro t ht
    rcases hmem t ht with rfl | ht
    · exact hne
    · exact hb.filled t ht
  · rw [he.spans]
    exact List.pairwise_cons.mpr ⟨hap, hb.apart⟩
  · rw [he.spans]
    exact List.pairwise_cons.mpr ⟨fun t ht => hi ▸ hb.below t ht, hb.numbered⟩
  · intro t ht
    rw [he.nextIndexBase]
    rcases hmem t ht with rfl | ht
    · omega
    · exact (hb.below t ht).trans (Nat.le_add_right ..)

theorem Heap.Enters.orderly {fresh : Bool} (he : h.Enters s fresh h') (ho : h.Orderly bytes A)
    (hbare : h.Bare raw bytes A) (hlo : raw ≤ s.lo) (hne : s.lo < s.hi) (hhi : s.hi ≤ raw + bytes)
    (hi : s.indexBase = h.nextIndexBase) : h'.Orderly bytes A := by
  have hap : ∀ t ∈ h.spans, s.hi ≤ t.lo ∨ t.hi ≤ s.lo := fun t ht => by
    have := hbare.spans t ht
    omega
  have hmem : ∀ t ∈ h'.spans, t = s ∨ t ∈ h.spans := fun t ht => by
    rw [he.spans] at ht
    exact List.mem_cons.mp ht
  refine ⟨he.booked ho.booked hap hne hi, ⟨?_, ?_, ?_, ?_⟩, ?_⟩
  · rw [he.supply]
    exact ho.stocked.low
  · intro x hx t ht
    rw [he.supply] at hx
    have := hbare.supply x hx
    rcases hmem t ht with rfl | ht
    · omega
    · exact ho.stocked.clear x hx t ht
  · rw [he.supply]
    exact ho.stocked.apart
  · rw [he.supply]
    exact ho.stocked.aside
  · intro t ht a ha
    have := hbare.aside a ha
    rcases hmem t ht with rfl | ht
    · omega
    · exact ho.aside t ht a ha

theorem spanRegister_run (hk : s.kind ≠ .user ∨ h.registry = []) :
    spanRegister s h = ((), { h with registry := s :: h.registry }) := by
  rw [spanRegister, Prog.modify_run]
  split
  · rename_i hu
    rw [hk.resolve_left fun hn => hn hu]
    rfl
  · rfl

theorem spanAdopt_enters (P : Profile) (fresh : Bool) (hk : s.kind ≠ .user ∨ h.registry = []) :
    h.Enters s fresh { (spanAdopt P s (setFresh s fresh h).2).2 with
      freshSpans := (spanAdopt P s (setFresh s fresh h).2).2.freshSpans + fresh.toNat } := by
  obtain ⟨g, hg⟩ : ∃ g, g = (addSpan s (spanRegister s (setFresh s fresh h).2).2).2 := ⟨_, rfl⟩
  have hreg := spanRegister_run (h := (setFresh s fresh h).2) hk
  -- what formatting and filing the span does is none of the books' business
  have hs : SameBooks g (spanAdopt P s (setFresh s fresh h).2).2 := by
    rw [spanAdopt, Prog.bind_run, Prog.bind_run, ← hg]
    exact Respects.step (R := SameBooks) (x := do spanFormat P s; scrubEnter s) g
  rw [hreg] at hg
  constructor
  all_goals simp only [hs.registry, hs.spans, hs.spanCount, hs.totalBytes, hs.nextIndexBase, hs.fresh,
    hs.freshSpans, hs.supply, hg]
  all_goals rfl

theorem Heap.Orderly.mapSpan (ho : h.Orderly bytes A) (hle : mappingFor P need ≤ bytes)
    (hn : need ≠ 0) {kind : SpanKind} (hk : kind ≠ .user) :
    wp (mapSpan P need kind) (fun _ h' => h'.Orderly bytes A) h := by
  rw [Mars.mapSpan, wp_bind, wp_read, wp_ite]
  split
  · exact ho
  rename_i h₁
  rw [wp_ite]
  split
  · exact ho
  rename_i h₂
  rw [wp_bind, mapChunkAligned, wp_ite]
  split
  · exact ho
  rename_i h₃
  rw [wp_bind]
  refine wp_mono (ho.sysMap _) fun r g hr => ?_
  rw [wp_pure]
  obtain ⟨hg, hbare⟩ := hr
  split
  · exact hg
  rename_i hne
  have hb := hbare hne
  have hlow : r + mappingFor P need ≤ 2 ^ 56 := (Nat.add_le_add_left hle r).trans hb.low
  obtain ⟨hr₁, hr₂, hr₃, hr₄⟩ := mapping_fits (not_or.mp h₁).2 h₂ h₃ hlow
  have hmod : roundUp (uadd P.blockOffset need) chunkSize % 2 ^ 21 = 0 := by
    rw [show chunkSize = 2 ^ 21 from rfl]
    exact roundUp_mod_pow _
  have hoff : P.blockOffset < 2 ^ 16 := by cases P <;> decide
  have ha : alignment = 16 := rfl
  generalize roundUp r chunkSize = base at *
  generalize roundUp (uadd P.blockOffset need) chunkSize = size at *
  rw [wp_ite]
  split
  · exact hg
  rw [wp_bind, wp_read]
  obtain ⟨s, hs⟩ : ∃ s, s = mappedSpan P base size g.nextIndexBase g.self kind := ⟨_, rfl⟩
  have hlo : s.lo = base + P.blockOffset := by rw [hs]; rfl
  have hhi : s.hi = base + P.blockOffset + usableOf P size := by rw [hs]; rfl
  have he := spanAdopt_enters (h := g) (s := s) P true (.inl (by rw [hs]; exact hk))
  rw [usableOf, ha] at hhi
  rw [← hs]
  exact he.orderly hg hb (by omega) (by omega) (by omega) (by rw [hs]; rfl)

theorem countP_update {l : List Span} {f : Nat → Bool} (hs : s ∈ l)
    (hinj : ∀ t ∈ l, t.lo = s.lo → t = s) (hnodup : l.Nodup) (hf : f s.lo = true) :
    l.countP (fun t => Function.update f s.lo false t.lo) = l.countP (fun t => f t.lo) - 1 := by
  have hrest : (l.erase s).countP (fun t => Function.update f s.lo false t.lo) =
      (l.erase s).countP fun t => f t.lo := by
    apply List.countP_congr
    intro t ht
    have hne : t.lo ≠ s.lo := fun he => (hnodup.mem_erase_iff.mp ht).1
      (hinj t (List.mem_of_mem_erase ht) he)
    rw [Function.update_of_ne hne]
  have hperm := List.perm_cons_erase hs
  rw [hperm.countP_eq, hperm.countP_eq, List.countP_cons_of_neg, List.countP_cons_of_pos, hrest]
  · rfl
  · exact hf
  · simp

theorem Heap.Orderly.forgetFresh (ho : h.Orderly bytes A) (hs : s ∈ h.spans)
    (hf : h.fresh s.lo = true) : (forgetFresh s h).2.Orderly bytes A := by
  have hb := ho.booked
  refine ⟨⟨hb.registry, hb.spanCount, hb.totalBytes, ?_, hb.filled, hb.apart, hb.numbered, hb.below⟩,
    ⟨ho.stocked.low, ho.stocked.clear, ho.stocked.apart, ho.stocked.aside⟩, ho.aside⟩
  have hcount := countP_update hs (fun t ht he => hb.lo_inj ht hs he) hb.nodup hf
  exact (congrArg (· - 1) hb.freshSpans).trans hcount.symm

theorem Heap.spanOf_mem (ho : h.Orderly bytes A) (hs : h.spanOf b = some s) : s ∈ h.spans :=
  ho.booked.registry ▸ (spanOf_bounds hs).1

theorem Heap.Orderly.spanTakeFresh (ho : h.Orderly bytes A) (b : Nat) :
    (spanTakeFresh b h).2.Orderly bytes A := by
  change wp (Mars.spanTakeFresh b) (fun _ h' => h'.Orderly bytes A) h
  rw [Mars.spanTakeFresh, withSpanOf, wp_bind, wp_read]
  rcases hs : h.spanOf b with _ | s
  · exact ho
  rw [Prog.elim_some, wp_bind, wp_read, wp_ite]
  split
  · rename_i hf
    exact ho.forgetFresh (Heap.spanOf_mem ho hs) hf
  · exact ho

theorem Heap.Orderly.dropped (ho : h.Orderly bytes A) (hs : s ∈ h.spans)
    (hf : h.fresh s.lo = false) : (dropSpan s (spanUnregister s h).2).2.Orderly bytes A := by
  have hb := ho.booked
  have hsub : (h.spans.erase s).Sublist h.spans := List.erase_sublist
  have hperm := List.perm_cons_erase hs
  have hst := ho.stocked
  refine ⟨⟨?_, ?_, ?_, ?_, fun t ht => hb.filled t (hsub.subset ht), hb.apart.sublist hsub,
    hb.numbered.sublist hsub, fun t ht => hb.below t (hsub.subset ht)⟩,
    ⟨hst.low, fun raw hr t ht => hst.clear raw hr t (hsub.subset ht), hst.apart, hst.aside⟩,
    fun t ht => ho.aside t (hsub.subset ht)⟩
  · exact congrArg (List.erase · s) hb.registry
  · change h.spanCount - 1 = (h.spans.erase s).length
    rw [List.length_erase_of_mem hs, hb.spanCount]
  · change h.totalBytes - (s.hi - s.lo) = ((h.spans.erase s).map fun t => t.hi - t.lo).sum
    rw [hb.totalBytes, (hperm.map _).sum_eq, List.map_cons, List.sum_cons, Nat.add_sub_cancel_left]
  · change h.freshSpans = (h.spans.erase s).countP fun t => h.fresh t.lo
    rw [hb.freshSpans, hperm.countP_eq, List.countP_cons_of_neg]
    rw [hf]
    exact Bool.false_ne_true

theorem Heap.Orderly.arenaReleaseSpan (ho : h.Orderly bytes A) (hs : s ∈ h.spans) :
    (arenaReleaseSpan s h).2.Orderly bytes A := by
  change wp (Mars.arenaReleaseSpan s) (fun _ h' => h'.Orderly bytes A) h
  rw [Mars.arenaReleaseSpan, wp_when]
  split
  swap
  · exact ho
  rw [wp_bind, wp_read, wp_bind, wp_when]
  have hend : ∀ g : Heap, g.Orderly bytes A → s ∈ g.spans → g.fresh s.lo = false →
      wp (do scrubLeave s; spanUnregister s; dropSpan s) (fun _ h' => h'.Orderly bytes A) g := by
    intro g hg hs hf
    have hsame := Respects.step (R := SameBooks) (x := scrubLeave s) g
    exact (hsame.orderly hg).dropped (hsame.spans ▸ hs) (hsame.fresh ▸ hf)
  split
  · rename_i hf
    exact hend _ (ho.forgetFresh hs hf) hs (Function.update_self ..)
  · rename_i hf
    exact hend h ho hs (Bool.eq_false_of_not_eq_true hf)

theorem Heap.Orderly.reclaimIn (ho : h.Orderly bytes A) (hs : s ∈ h.spans) (P : Profile) (b : Nat) :
    (reclaimIn P s b h).2.Orderly bytes A := by
  change wp (Mars.reclaimIn P s b) (fun _ h' => h'.Orderly bytes A) h
  have hpass : ∀ {α : Type} {x : HeapM α} [hx : Respects SameBooks x] {g : Heap}, g.Orderly bytes A →
      s ∈ g.spans → wp x (fun _ h' => h'.Orderly bytes A ∧ s ∈ h'.spans) g :=
    fun {_ _} hx {g} hg hs => ⟨(hx.step g).orderly hg, (hx.step g).spans ▸ hs⟩
  rw [Mars.reclaimIn]
  refine wp_seq (hpass ho hs) fun e g hg => ?_
  rw [wp_ite]
  split
  · refine wp_seq (hpass hg.1 hg.2) fun _ g hg => ?_
    exact hg.1.arenaReleaseSpan hg.2
  · refine wp_seq (hpass hg.1 hg.2) fun n g hg => ?_
    rw [wp_bind, wp_read, wp_when]
    split
    · refine wp_seq (hpass hg.1 hg.2) fun e g hg => ?_
      refine wp_seq (hpass hg.1 hg.2) fun _ g hg => ?_
      exact SameBooks.orderly (h := g) ⟨rfl, rfl, rfl, rfl, rfl, rfl, rfl, rfl⟩ hg.1
    · exact hg.1

theorem Heap.Orderly.reclaim (ho : h.Orderly bytes A) (P : Profile) (b : Nat) :
    (reclaim P b h).2.Orderly bytes A := by
  change wp (Mars.reclaim P b) (fun _ h' => h'.Orderly bytes A) h
  rw [Mars.reclaim, withSpanOf, wp_bind, wp_read]
  rcases hs : h.spanOf b with _ | s
  · exact ho
  rw [Prog.elim_some, wp_ite]
  split
  · exact ho
  have hsame := Respects.step (R := SameBooks) (x := isUsed b) h
  rw [wp_bind, wp, wp_when]
  split
  · have hin := Heap.spanOf_mem ho hs
    rw [← hsame.spans] at hin
    exact (hsame.orderly ho).reclaimIn hin P b
  · exact hsame.orderly ho

theorem KeepsOrder.closed (hle : mappingFor P need ≤ bytes) : CallClosed P need (KeepsOrder bytes A) where
  clear := ⟨fun _ => SameBooks.orderly ⟨rfl, rfl, rfl, rfl, rfl, rfl, rfl, rfl⟩⟩
  mode _ := ⟨fun _ => SameBooks.orderly ⟨rfl, rfl, rfl, rfl, rfl, rfl, rfl, rfl⟩⟩
  tune _ _ := ⟨fun _ => SameBooks.orderly ⟨rfl, rfl, rfl, rfl, rfl, rfl, rfl, rfl⟩⟩
  chunk hn := ⟨fun _ ho => ho.mapSpan hle hn SpanKind.chunk_ne_user⟩
  large hn := ⟨fun _ ho => ho.mapSpan hle hn SpanKind.large_ne_user⟩
  take b := ⟨fun _ ho => ho.spanTakeFresh b⟩
  reclaim b := ⟨fun _ ho => ho.reclaim P b⟩

theorem Heap.Orderly.call {c : Call} (ho : h.Orderly bytes A) (hle : (Action.call c).mapping P ≤ bytes) :
    (c.run P h).2.Orderly bytes A := by
  have hclosed : CallClosed P (sizeFor P (c.demand P)) (KeepsOrder bytes A) := KeepsOrder.closed hle
  exact (CallClosed.call (R := KeepsOrder bytes A) c).step h ho

/-- The spans are forgotten, and with them all that is on record of them. -/
structure Heap.Emptied (h : Heap) : Prop where
  registry : h.registry = []
  spans : h.spans = []
  spanCount : h.spanCount = 0
  totalBytes : h.totalBytes = 0
  freshSpans : h.freshSpans = 0

theorem Heap.Emptied.booked (he : h.Emptied) : h.Booked := by
  constructor
  all_goals simp [he.registry, he.spans, he.spanCount, he.totalBytes, he.freshSpans]

theorem Heap.Booked.reset (hb : h.Booked) : (arenaReset h).2.Emptied := by
  refine ⟨?_, rfl, rfl, rfl, rfl⟩
  change h.registry.filter (· ∉ h.spans) = []
  rw [hb.registry]
  simp

theorem Heap.Booked.arenaInitGrowable (hb : h.Booked) (hs : (arenaReset h).2.Stocked bytes A)
    (hle : mappingFor P P.minBlock ≤ bytes) (secret : Nat) :
    (arenaInitGrowable P secret h).2.Orderly bytes A := by
  obtain ⟨g, hg⟩ : ∃ g, g = { (arenaReset h).2 with
    secret := secret, mode := .managed, growable := true } := ⟨_, rfl⟩
  have he := hb.reset
  have hempty : g.Emptied := by
    rw [hg]
    exact ⟨he.registry, he.spans, he.spanCount, he.totalBytes, he.freshSpans⟩
  have ho : g.Orderly bytes A := by
    refine ⟨hempty.booked, ?_, fun t ht => ?_⟩
    · rw [hg]
      exact ⟨hs.low, hs.clear, hs.apart, hs.aside⟩
    · rw [hempty.spans] at ht
      exact absurd ht List.not_mem_nil
  have hmin : P.minBlock ≠ 0 := by cases P <;> decide
  have hmap := ho.mapSpan hle hmin SpanKind.chunk_ne_user
  rw [hg] at hmap
  rw [Mars.arenaInitGrowable, Prog.bind_run, Prog.bind_run]
  change wp (mapSpan P P.minBlock .chunk >>= fun s => if s.isSome = true then pure true else do
    Prog.modify fun h => { h with growable := false }
    pure false) (fun _ h' => h'.Orderly bytes A) _
  refine wp_seq hmap fun r g hg => ?_
  rw [wp_ite]
  split
  · exact hg
  · exact SameBooks.orderly (h := g) ⟨rfl, rfl, rfl, rfl, rfl, rfl, rfl, rfl⟩ hg

theorem Heap.stocked_nil (hs : h.supply = []) : h.Stocked bytes A := by
  constructor
  all_goals simp [hs]

theorem Heap.stocked_one (hs : h.supply = [some raw]) (h0 : 0 < raw ∧ raw + bytes ≤ 2 ^ 56)
    (hclear : ∀ t ∈ h.spans, raw + bytes ≤ t.lo ∨ t.hi ≤ raw)
    (haside : ∀ a, A a → a < raw ∨ raw + bytes ≤ a) : h.Stocked bytes A := by
  have hone : ∀ x, some x ∈ h.supply → x = raw := by simp [hs]
  refine ⟨fun x hx => hone x hx ▸ h0, fun x hx => hone x hx ▸ hclear, ?_, fun x hx => hone x hx ▸ haside⟩
  rw [hs]
  exact List.pairwise_singleton _ _

end Mars
