import MarsAllocator.Invariant.Effects
import MarsAllocator.Invariant.Wide

namespace Mars

open ByteMemory StateProgram

variable {P : Profile} {h h' : Heap} {L L' : Span → List Cell} {live : List Nat} {σ : Session}

theorem Session.start_kempt (buf : Buffer P) (hsmall : usableOf P buf.size < 2 ^ 58) (mem : Memory)
    (secret : UInt64) : (Session.start buf mem secret).heap.Kempt P
      (fun _ => [Cell.freed (buf.span.hi - buf.span.lo)]) [] := by
  obtain ⟨hb, hl, ⟨hpage, -⟩, hS⟩ := Session.start_sound buf hsmall mem secret
  have hspan : ∀ t ∈ (Session.start buf mem secret).heap.spans, t = buf.span := fun t ht => by
    rw [hb.spans] at ht
    exact List.mem_singleton.mp ht
  refine ⟨⟨hS, fun t b c hc => ?_, ?_, ?_, fun t ht => ?_, fun t ht hk => ?_, fun _ _ _ => hb.fixed,
    ?_, ?_, 12, by decide, hpage⟩, fun t ht hk => ?_, List.nodup_nil, fun p hp => ?_⟩
  · rw [(at_one.mp hc.2).2]
    exact show Kind.free ≠ .bare by decide
  · rw [hb.spans]
    exact List.nodup_singleton _
  · refine ⟨buf.span, ?_, by rw [hb.kind]; decide⟩
    rw [hb.spans]
    exact List.mem_singleton.mpr rfl
  · rw [hspan t ht]
    exact hb.origin
  · exact absurd (hspan t ht ▸ hb.kind) hk
  · rw [hb.spans, hb.total]
    exact (Nat.add_zero _).symm
  · rw [hl, hb.spans]
    rfl
  · rw [hspan t ht, hb.kind] at hk
    exact absurd hk (by decide)
  · exact absurd hp List.not_mem_nil

/-- An arena that has no span, and has never handed out a block. -/
structure Heap.Unmapped (h : Heap) : Prop where
  registry : h.registry = []
  spans : h.spans = []
  stats : h.stats = {}
  pageSize : h.pageSize = 4096

/-- An arena that grows has, once it is up, one span, all of it free. -/
structure Heap.Opened (P : Profile) (L : Span → List Cell) (h : Heap) : Prop where
  kempt : h.Kempt P L []
  stats : h.stats = {}
  free : ∀ t b c, h.CellIn L t b c → c.kind = .free
  kept : h.lostBytes = 0
  mode : h.mode = .managed
  pageSize : h.pageSize = 4096

theorem Heap.Unmapped.run_arenaInitGrowable (hz : h.Unmapped) (secret : UInt64)
    (ho : h.Offers (mappingFor P P.minBlock)) :
    ∃ up h', arenaInitGrowable P secret.toNat h = (up, h') ∧
      (up = false ∧ h'.Unmapped ∨ up = true ∧ ∃ L, h'.Opened P L) := by
  obtain ⟨g, hg⟩ : ∃ g, g = { (arenaReset h).2 with
    secret := secret.toNat, mode := .managed, growable := true } := ⟨_, rfl⟩
  have hreset : (arenaReset h).2.registry = [] := by
    change h.registry.filter (· ∉ h.spans) = []
    rw [hz.registry]
    rfl
  have hS : g.Sound P fun _ => [] := by
    rw [hg]
    exact Heap.sound_of_empty secret.toNat_lt rfl rfl rfl rfl rfl _
  have ho' : g.Offers (mappingFor P P.minBlock) := by
    rw [hg]
    intro raw hraw
    obtain ⟨h₁, h₂, -⟩ := ho raw hraw
    exact ⟨h₁, h₂, fun t ht => absurd ht List.not_mem_nil⟩
  have hmin : P.minBlock % 16 = 0 := P.layout_asserts.2.2.1
  obtain ⟨r, h', hrun, hres⟩ := hS.run_mapSpan ho' le_rfl hmin SpanKind.chunk_ne_user
  have hspans : g.spans = [] := by rw [hg]; rfl
  have hpair : arenaInitGrowable P secret.toNat h = (if r.isSome = true then pure true else do
      Prog.modify fun h => { h with growable := false }
      pure false : HeapM Bool) h' := by
    rw [arenaInitGrowable, Prog.bind_run, Prog.bind_run, Prog.modify_run]
    change (mapSpan P P.minBlock .chunk >>= fun s => if s.isSome = true then pure true else do
      Prog.modify fun h => { h with growable := false }
      pure false) _ = _
    rw [← hg, Prog.bind_run_of_eq hrun]
  rcases hres with ⟨rfl, hask⟩ | ⟨s, rfl, hkind, hgrew⟩
  · refine ⟨false, { h' with growable := false }, hpair, .inl ⟨rfl, ?_⟩⟩
    rw [hask, hg]
    exact ⟨hreset, rfl, hz.stats, hz.pageSize⟩
  have hs : h'.spans = [s] := by rw [hgrew.spans, hspans]
  have hmem : ∀ t ∈ h'.spans, t = s := fun t ht => by
    rw [hs] at ht
    exact List.mem_singleton.mp ht
  have hfree : ∀ t b c, h'.CellIn (Function.update (fun _ => []) s [Cell.freed (s.hi - s.lo)]) t b c →
      c.kind = .free := by
    rintro t b c ⟨ht, hat⟩
    rw [hmem t ht, Function.update_self] at hat
    rw [(at_one.mp hat).2]
    rfl
  refine ⟨true, h', hpair, .inr ⟨rfl, _, ⟨⟨hgrew.sound, fun t b c hc => ?_, ?_, ⟨s, ?_, ?_⟩,
    fun t ht => ?_, fun t ht _ => ?_, fun t ht hk => ?_, ?_, ?_, 12, by decide, ?_⟩, fun t ht hk => ?_,
    List.nodup_nil, fun p hp => ?_⟩, ?_, hfree, ?_, ?_, ?_⟩⟩
  · rw [hfree t b c hc]
    decide
  · rw [hs]
    exact List.nodup_singleton s
  · rw [hs]
    exact List.mem_singleton.mpr rfl
  · rw [hkind]
    decide
  · rw [hmem t ht]
    exact hgrew.origin
  · rw [hmem t ht]
    exact hgrew.low
  · rw [hmem t ht, hkind] at hk
    exact absurd hk (by decide)
  · rw [hs, hgrew.eq, hg]
    exact Nat.zero_add _
  · rw [hs, hgrew.eq, hg]
    change 0 = Mars.lostBytes (Function.update (fun _ => []) s [Cell.freed (s.hi - s.lo)] s) + 0
    rw [Function.update_self]
    rfl
  · rw [hgrew.eq, hg]
    exact hz.pageSize
  · rw [hmem t ht, hkind] at hk
    exact absurd hk (by decide)
  · exact absurd hp List.not_mem_nil
  · rw [hgrew.eq, hg]
    exact hz.stats
  · rw [hgrew.eq, hg]
    rfl
  · rw [hgrew.eq, hg]
  · rw [hgrew.eq, hg]
    exact hz.pageSize

theorem Heap.Opened.mapped (mem : Memory) (secret : UInt64) (supply : List (Option Nat))
    (ho : { Heap.blank mem with supply := supply }.Offers (mappingFor P P.minBlock))
    (hopen : arenaInitGrowable P secret.toNat { Heap.blank mem with supply := supply } = (true, h)) :
    ∃ L, h.Opened P L := by
  have hz : { Heap.blank mem with supply := supply }.Unmapped := ⟨rfl, rfl, rfl, rfl⟩
  obtain ⟨up, h', hrun, hres⟩ := hz.run_arenaInitGrowable secret ho
  obtain ⟨rfl, rfl⟩ := Prod.mk.inj (hrun.symm.trans hopen)
  rcases hres with ⟨hup, -⟩ | ⟨-, hopened⟩
  · exact absurd hup.symm Bool.false_ne_true
  · exact hopened

theorem Heap.Kempt.poke (hK : h.Kempt P L live) {p off : Nat} {bs : List UInt8} (hp : p ∈ live)
    (hin : off + bs.length ≤ (sizeOfLive P p h).1) :
    (h.withMem (h.mem.storeBytes (p + off) bs)).Kempt P L live :=
  ⟨hK.thriving.poke (hK.backing.backs p hp) hin, hK.busy, hK.backing.congr rfl⟩

theorem Heap.Kempt.asked (hK : h.Kempt P L live) (supply : List (Option Nat)) :
    { h with supply := supply }.Kempt P L live :=
  ⟨hK.thriving.asked supply, hK.busy, hK.backing.congr rfl⟩

theorem Session.kempt_next (hK : σ.heap.Kempt P L σ.live) {a : Action} (hv : a.okFor P σ = true)
    (ho : σ.heap.Offers (a.mapping P)) : ∃ L', (σ.next P a).heap.Kempt P L' (σ.next P a).live := by
  cases a with
  | call c =>
    obtain ⟨L', -, hK'⟩ := hK.comes c hv ho
    exact ⟨L', hK'⟩
  | poke ptr off bs =>
    rw [Action.okFor, Bool.and_eq_true, decide_eq_true_eq, List.contains_iff_mem] at hv
    exact ⟨L, hK.poke hv.1 hv.2⟩

theorem Arrived.kempt (hr : Arrived P Action.any σ) (hw : σ.heap.lostBytes = 0) :
    ∃ L, σ.heap.Kempt P L σ.live := by
  induction hr with
  | brought buf mem secret =>
    have hsmall : usableOf P buf.size < 2 ^ 58 := by
      by_contra hwide
      have := Session.start_loses buf (by omega) mem secret
      omega
    exact ⟨_, Session.start_kempt buf hsmall mem secret⟩
  | mapped mem secret supply ho hopen =>
    obtain ⟨L, hL⟩ := Heap.Opened.mapped mem secret supply ho hopen
    exact ⟨L, hL.kempt⟩
  | @step σ a supply _ _ hv ho ih =>
    have hle := (σ.offered supply).lost_next (P := P) a
    obtain ⟨L, hK⟩ := ih (by change σ.heap.lostBytes ≤ _ at hle; omega)
    exact Session.kempt_next (σ := σ.offered supply) (hK.asked supply) hv ho

end Mars
