import MarsAllocator.Invariant.Afloat
import MarsAllocator.Invariant.Pooled

namespace Mars

open ByteMemory ByteStore StateProgram

variable {P : Profile} {place : PoolPlace} {out : Outside} {F : Nat → Prop} {σ σ₁ σ' : Preloaded} {sh : Shim}
  {h h' : Heap} {s : Span} {align n m p q off bytes : Nat} {L L' : Span → List Cell} {c : Call}
  {bs : List UInt8} {e : Blocks.Event UInt8}

/-- The addresses that are not the platform's to map: another allocator's, and the pool's. -/
def Taken (place : PoolPlace) (F : Nat → Prop) (a : Nat) : Prop := F a ∨ fromPool place a = true

def Preloaded.blocks (P : Profile) (σ : Preloaded) : Blocks UInt8 :=
  (Blocks.listed σ.held σ.shim.pool.payload).join (σ.shim.heap.blocks P σ.out)

theorem Preloaded.blocks_held (hp : p ∈ σ.held) : σ.blocks P p = some (σ.shim.pool.payload p) :=
  Blocks.join_left (Blocks.listed_of_mem hp)

structure Preloaded.Sound (P : Profile) (place : PoolPlace) (F : Nat → Prop) (bytes : Nat) (σ : Preloaded) :
    Prop where
  pool : ∃ grants, σ.shim.pool.Backs place grants σ.held
  starting : σ.shim.starting = false
  orderly : σ.shim.heap.Orderly bytes (Taken place F)
  down : σ.shim.ready = false → σ.out = [] ∧ σ.shim.heap.Unmapped
  up : σ.shim.ready = true → ∃ L, σ.shim.heap.Afloat P L σ.out

theorem Heap.Afloat.placed (ha : h.Afloat P L live) (hp : p ∈ live) :
    ∃ s ∈ h.spans, s.lo ≤ p ∧ p < s.hi ∧ p + (h.held P p).length ≤ s.hi := by
  have hS := ha.kempt.thriving.sound
  have hsz := P.sizes
  obtain ⟨s, b, c, rfl, hc, hk⟩ := ha.kempt.live_cell ha.kept hp
  have hb := hS.tiled.plan.bounds hc
  have hfit := hS.tiled.plan.cell_fits hc
  have hmin := hfit.min_le
  have hslack := hfit.slack_le hk
  refine ⟨s, hc.1, by omega, by omega, ?_⟩
  rw [hS.held_eq hc hk, Memory.length_bytes, Cell.requested]
  omega

namespace Preloaded.Sound

variable (hS : σ.Sound P place F bytes)
include hS

theorem span_beside (hs : s ∈ σ.shim.heap.spans) : s.hi ≤ place.base ∨ place.base + bootstrapBytes ≤ s.lo := by
  have hfill := hS.orderly.booked.filled s hs
  have hpos : 0 < bootstrapBytes := by decide
  have hlo := hS.orderly.aside s hs place.base (.inr (fromPool_iff.mpr ⟨le_rfl, by omega⟩))
  by_contra hnot
  have hin := hS.orderly.aside s hs s.lo (.inr (fromPool_iff.mpr ⟨by omega, by omega⟩))
  omega

theorem out_placed (hp : p ∈ σ.out) : σ.shim.ready = true ∧ ∃ s ∈ σ.shim.heap.spans, s.lo ≤ p ∧ p < s.hi ∧
    p + (σ.shim.heap.held P p).length ≤ s.hi := by
  cases hup : σ.shim.ready with
  | false =>
    rw [(hS.down hup).1] at hp
    exact absurd hp List.not_mem_nil
  | true =>
    obtain ⟨L, hL⟩ := hS.up hup
    exact ⟨rfl, hL.placed hp⟩

theorem not_fromPool (hp : p ∈ σ.out) : fromPool place p = false := by
  obtain ⟨-, s, hs, hlo, hhi, -⟩ := hS.out_placed hp
  rcases hS.span_beside hs with hb | hb
  · exact Bool.eq_false_iff.mpr fun hf => by
      have := (fromPool_iff.mp hf).1
      omega
  · exact Bool.eq_false_iff.mpr fun hf => by
      have := (fromPool_iff.mp hf).2
      omega

theorem fromPool_held (hp : p ∈ σ.held) : fromPool place p = true := hS.pool.elim fun _ hB => hB.inside p hp

theorem held_not_out (hp : p ∈ σ.held) : p ∉ σ.out := fun ho =>
  Bool.false_ne_true ((hS.not_fromPool ho).symm.trans (hS.fromPool_held hp))

theorem held_of_fromPool (hp : σ.has p) (hf : fromPool place p = true) : p ∈ σ.held :=
  hp.resolve_right fun ho => Bool.false_ne_true ((hS.not_fromPool ho).symm.trans hf)

theorem out_of_not_fromPool (hp : σ.has p) (hf : fromPool place p = false) : p ∈ σ.out :=
  hp.resolve_left fun hh => Bool.false_ne_true (hf.symm.trans (hS.fromPool_held hh))

theorem ne_zero (hp : σ.has p) : p ≠ 0 := by
  rcases hp with hp | hp
  · obtain ⟨grants, hB⟩ := hS.pool
    have := (hB.bounds hp).2.1
    rw [poolHdrSize] at this
    omega
  · obtain ⟨hup, -⟩ := hS.out_placed hp
    obtain ⟨L, hL⟩ := hS.up hup
    rintro rfl
    exact hL.kempt.backing.ne_zero hp rfl

theorem ours_of_out (hp : p ∈ σ.out) : σ.shim.ours p = true := by
  obtain ⟨hup, s, hs, hlo, hhi, -⟩ := hS.out_placed hp
  have hspan := hS.orderly.booked.spanOf_iff.mpr ⟨hs, hlo, hhi⟩
  have hne := hS.ne_zero (.inr hp)
  simp [Shim.ours, Heap.owns, hup, hspan, hne]

theorem not_ours (hp : F p) : σ.shim.ours p = false := by
  rw [Shim.ours, Heap.owns, Bool.and_eq_false_iff, Bool.and_eq_false_iff]
  refine .inr (.inr ?_)
  cases hspan : σ.shim.heap.spanOf p with
  | none => rfl
  | some s =>
    obtain ⟨hs, hlo, hhi⟩ := hS.orderly.booked.spanOf_iff.mp hspan
    have := hS.orderly.aside s hs p (.inl hp)
    omega

theorem not_has (hp : F p) (hF : fromPool place p = false) : ¬ σ.has p := by
  rintro (hh | ho)
  · exact Bool.false_ne_true (hF.symm.trans (hS.fromPool_held hh))
  · exact Bool.false_ne_true ((hS.not_ours hp).symm.trans (hS.ours_of_out ho))

theorem beside : (Blocks.listed σ.held σ.shim.pool.payload).Beside (σ.shim.heap.blocks P σ.out) := by
  intro p q bs cs h₁ h₂
  obtain ⟨hp, rfl⟩ := Blocks.mem_of_listed h₁
  obtain ⟨hq, rfl⟩ := Blocks.mem_of_listed h₂
  obtain ⟨grants, hB⟩ := hS.pool
  obtain ⟨-, hlo, hhi, hroom⟩ := hB.bounds hp
  obtain ⟨-, s, hs, hlo', -, hhi'⟩ := hS.out_placed hq
  refine ⟨fun he => hS.held_not_out hp (he ▸ hq), ?_⟩
  rw [Pool.payload, Memory.length_bytes]
  rcases hS.span_beside hs with hb | hb
  · omega
  · omega

theorem blocks_out (hp : p ∈ σ.out) : σ.blocks P p = some (σ.shim.heap.held P p) :=
  (Blocks.join_right (Blocks.listed_of_notMem fun hh => hS.held_not_out hh hp)).trans
    (Heap.blocks_of_mem hp)

theorem blocks_room (hp : σ.has p) : ∃ bs, σ.blocks P p = some bs ∧ bs.length = σ.room P place p := by
  rw [Preloaded.room]
  cases hf : fromPool place p with
  | true =>
    have hh := hS.held_of_fromPool hp hf
    exact ⟨_, Preloaded.blocks_held hh, Memory.length_bytes ..⟩
  | false =>
    have ho := hS.out_of_not_fromPool hp hf
    exact ⟨_, hS.blocks_out ho, Memory.length_bytes ..⟩

end Preloaded.Sound

/-- The program has the blocks of `σ'` in place of those of `σ`, as `e` makes them. -/
structure Preloaded.Does (P : Profile) (place : PoolPlace) (F : Nat → Prop) (bytes : Nat) (σ : Preloaded)
    (e : Blocks.Event UInt8) (σ' : Preloaded) : Prop where
  sound : σ'.Sound P place F bytes
  takes : Blocks.Takes (σ.blocks P) e (σ'.blocks P)
  passed : σ'.shim.passed = σ.shim.passed

theorem Preloaded.Sound.does (hS : σ.Sound P place F bytes) : σ.Does P place F bytes .idle σ :=
  ⟨hS, .idle, rfl⟩

theorem Preloaded.Does.after (hd : σ.Does P place F bytes .idle σ₁) (hd' : σ₁.Does P place F bytes e σ') :
    σ.Does P place F bytes e σ' :=
  ⟨hd'.sound, hd'.takes.after_idle hd.takes, hd'.passed.trans hd.passed⟩

def Preloaded.through (P : Profile) (σ : Preloaded) (c : Call) : Preloaded :=
  { σ with
    shim.heap := (c.run P σ.shim.heap).2
    out := c.liveAfter σ.out (c.run P σ.shim.heap).1 }

namespace Preloaded.Sound

variable (hS : σ.Sound P place F bytes)
include hS

theorem through (hup : σ.shim.ready = true) (hc : c.plain = true) (hv : c.okFor σ.out = true)
    (hle : (Action.call c).mapping P ≤ bytes) :
    ∃ e, Store.Tells ⟨.libc, σ.shim.heap.blocks P σ.out⟩ (.call c) (c.run P σ.shim.heap).1 e ∧
      σ.Does P place F bytes e (σ.through P c) := by
  obtain ⟨L, hL⟩ := hS.up hup
  obtain ⟨L', hL', hserves⟩ := hL.call hc hv (hS.orderly.stocked.offers hle)
  have hS' : (σ.through P c).Sound P place F bytes :=
    ⟨hS.pool, hS.starting, hS.orderly.call hle, fun hd => absurd (hd.symm.trans hup) Bool.false_ne_true,
      fun _ => ⟨L', hL'⟩⟩
  obtain ⟨e, ht, htakes⟩ := hserves.takes
  exact ⟨e, ht, hS', htakes.beside hS.beside hS'.beside, rfl⟩

theorem asked (hup : σ.shim.ready = true) (hc : c.plain = true) (hv : c.okFor σ.out = true)
    (hle : (Action.call c).mapping P ≤ bytes) (hn : c.asks = some n) :
    ∃ p h' e, c.run P σ.shim.heap = (.pointer p, h') ∧ Grants c.aligns n 0 p e ∧
      σ.Does P place F bytes e ({ σ with shim.heap := h' }.take place p) := by
  obtain ⟨e, ht, hd⟩ := hS.through hup hc hv hle
  obtain ⟨p, hr, hg⟩ := ht.grants hn
  have hzero : σ.out.erase 0 = σ.out := List.erase_of_not_mem fun h0 => hS.ne_zero (.inr h0) rfl
  obtain ⟨hlive, -⟩ := Call.asked (p := p) hn hzero
  have hthrough : σ.through P c = { σ with shim.heap := (c.run P σ.shim.heap).2 }.take place p := by
    rw [Preloaded.through, hr, hlive, Preloaded.take]
    by_cases hp : p = 0
    · rw [if_pos hp, if_pos hp]
    · have hmem : p ∈ (σ.through P c).out := by
        rw [Preloaded.through, hr, hlive, if_neg hp]
        exact List.mem_cons_self
      rw [if_neg hp, if_neg hp, hd.sound.not_fromPool hmem, if_neg Bool.false_ne_true]
  exact ⟨p, (c.run P σ.shim.heap).2, e, by rw [← hr], hg, hthrough ▸ hd⟩

theorem pooled {pool : Pool} {grants : List PoolGrant} {held : List Nat}
    (hB : pool.Backs place grants held) (ht : Blocks.Takes (Blocks.listed σ.held σ.shim.pool.payload) e
      (Blocks.listed held pool.payload)) :
    σ.Does P place F bytes e { σ with shim.pool := pool, held := held } := by
  have hS' : { σ with shim.pool := pool, held := held }.Sound P place F bytes :=
    ⟨⟨grants, hB⟩, hS.starting, hS.orderly, hS.down, hS.up⟩
  refine ⟨hS', ?_, rfl⟩
  rw [Preloaded.blocks, Preloaded.blocks, hS.beside.comm, hS'.beside.comm]
  exact ht.beside hS.beside.symm hS'.beside.symm

theorem drawn (hn : n < 2 ^ 63) (hspare : n = 0 → σ.shim.pool.used + poolHdrSize ≠ bootstrapBytes) :
    ∃ p pool e, poolAlloc place n σ.shim.pool = (p, pool) ∧ Grants 1 n n p e ∧
      σ.Does P place F bytes e ({ σ with shim.pool := pool }.take place p) := by
  obtain ⟨grants, hB⟩ := hS.pool
  rcases hB.alloc hn with hnull | ⟨p, pool, grants', heq, hp, hfit, hB', hg, hzero, hsame⟩
  · exact ⟨0, σ.shim.pool, .idle, hnull, .refused, hS.does⟩
  have hp0 : p ≠ 0 := by
    rw [hp, poolHdrSize]
    omega
  have hin : fromPool place p = true := by
    refine fromPool_iff.mpr ⟨by omega, ?_⟩
    have : n = 0 → p ≠ place.base + bootstrapBytes := fun h0 hpe => hspare h0 (by omega)
    omega
  obtain ⟨hB'', htakes⟩ := hB.take hB' hp hg hin hsame
  refine ⟨p, pool, .allocated p (pool.payload p), heq, .granted hp0 (hB''.bounds List.mem_cons_self).1 (Nat.mod_one p) ?_ ?_, ?_⟩
  · rw [hzero, List.length_replicate]
  · rw [hzero, List.take_replicate, Nat.min_self]
  · rw [Preloaded.take, if_neg hp0, if_pos hin]
    exact hS.pooled hB'' htakes

theorem write (hp : σ.has p) (hin : off + bs.length ≤ σ.room P place p) :
    σ.Does P place F bytes (.wrote p off bs) { σ with shim := σ.shim.write place p off bs } := by
  rw [Preloaded.room] at hin
  rw [Shim.write]
  cases hf : fromPool place p with
  | true =>
    rw [hf, if_pos rfl] at hin
    obtain ⟨grants, hB⟩ := hS.pool
    obtain ⟨hB', ht⟩ := hB.write (hS.held_of_fromPool hp hf) hin
    exact hS.pooled hB' ht
  | false =>
    rw [hf, if_neg Bool.false_ne_true] at hin
    have ho := hS.out_of_not_fromPool hp hf
    obtain ⟨hup, -⟩ := hS.out_placed ho
    obtain ⟨L, hL⟩ := hS.up hup
    have hS' : { σ with shim.heap.mem := σ.shim.heap.mem.storeBytes (p + off) bs }.Sound P place F bytes := by
      refine ⟨hS.pool, hS.starting, ?_, fun hd => absurd (hd.symm.trans hup) Bool.false_ne_true, fun _ =>
        ⟨L, hL.poke ho hin⟩⟩
      exact hS.orderly.supplied (List.Sublist.refl _) _
    exact ⟨hS', (hL.kempt.takes_poke hL.kept ho hin).beside hS.beside hS'.beside, rfl⟩

theorem give (hp : p ∈ σ.held) : σ.Does P place F bytes (.freed p) (σ.give p) := by
  obtain ⟨grants, hB⟩ := hS.pool
  have hgive : σ.give p = { σ with shim.pool := σ.shim.pool, held := σ.held.erase p } := by
    rw [Preloaded.give, List.erase_of_not_mem (hS.held_not_out hp)]
  rw [hgive]
  exact hS.pooled (hB.drop p) (hB.free hp)

end Preloaded.Sound

theorem Pool.Backs.lookUp {pool : Pool} {asks : List UInt64} {grants : List PoolGrant} {held : List Nat}
    (hB : pool.Backs place grants held) (hasks : ∀ n ∈ asks, n.toNat < 2 ^ 63) :
    ∃ grants', (pool.lookUp place asks).Backs place grants' held ∧
      ∀ q ∈ held, (pool.lookUp place asks).payload q = pool.payload q := by
  induction asks generalizing pool grants with
  | nil => exact ⟨grants, hB, fun _ _ => rfl⟩
  | cons size rest ih =>
    have hrest := fun n hn => hasks n (List.mem_cons_of_mem size hn)
    rw [Pool.lookUp, List.foldl_cons]
    rcases hB.alloc (hasks size List.mem_cons_self) with hnull | ⟨p, pool', grants', heq, -, -, hB', -, -, hsame⟩
    · rw [hnull]
      exact ih hB hrest
    · rw [heq]
      obtain ⟨grants'', hB'', hsame'⟩ := ih hB' hrest
      exact ⟨grants'', hB'', fun q hq => (hsame' q hq).trans (hsame q hq)⟩

theorem mapping_setMode (P : Profile) (mode : Mode) :
    (Action.call (.setMode mode)).mapping P = mappingFor P P.minBlock := by
  have hsize : sizeFor P 0 = P.minBlock := by cases P <;> decide
  rw [← hsize]
  rfl

/-- What start-up leaves of the shim, where it has not been before. -/
structure Preloaded.Begun (P : Profile) (place : PoolPlace) (out : Outside) (F : Nat → Prop) (bytes : Nat)
    (σ : Preloaded) (sh : Shim) : Prop where
  does : σ.Does P place F bytes .idle { σ with shim := sh }
  pool : σ.shim.ready = false → sh.pool = σ.shim.pool.lookUp place out.asks
  same : σ.shim.ready = true → sh = σ.shim

namespace Preloaded.Sound

variable (hS : σ.Sound P place F bytes)
include hS

theorem startup (hle : mappingFor P P.minBlock ≤ bytes)
    (hasks : σ.shim.ready = false → ∀ n ∈ out.asks, n.toNat < 2 ^ 63) :
    ∃ sh, Mars.startup P place out σ.shim = ((), sh) ∧ σ.Begun P place out F bytes sh := by
  by_cases hready : σ.shim.ready = true
  · refine ⟨σ.shim, ?_, hS.does, fun hd => absurd (hd.symm.trans hready) Bool.false_ne_true, fun _ => rfl⟩
    rw [Mars.startup, Prog.bind_run, Prog.read_run, hready]
    rfl
  have hdown := Bool.eq_false_of_not_eq_true hready
  obtain ⟨hout, hz⟩ := hS.down hdown
  obtain ⟨grants, hB⟩ := hS.pool
  obtain ⟨grants', hB', hsame⟩ := hB.lookUp (hasks hdown)
  have ho := hS.orderly.stocked.offers hle
  obtain ⟨up, h', hinit, hres⟩ := hz.run_arenaInitGrowable out.secret ho
  have horder : h'.Orderly bytes (Taken place F) := by
    have hs := hS.orderly.stocked
    have hreset : (arenaReset σ.shim.heap).2.Stocked bytes (Taken place F) :=
      ⟨hs.low, fun _ _ t ht => absurd ht List.not_mem_nil, hs.apart, hs.aside⟩
    have hord := hS.orderly.booked.arenaInitGrowable hreset hle out.secret.toNat
    rwa [hinit] at hord
  have hbegun : ∀ sh : Shim, { σ with shim := sh }.Sound P place F bytes →
      sh.pool = σ.shim.pool.lookUp place out.asks → sh.passed = σ.shim.passed →
      σ.Begun P place out F bytes sh := by
    intro sh hsound hpool hpassed
    refine ⟨⟨hsound, ?_, hpassed⟩, fun _ => hpool, fun hr => absurd hr hready⟩
    have hblocks : { σ with shim := sh }.blocks P = σ.blocks P := by
      rw [Preloaded.blocks, Preloaded.blocks, hpool, Blocks.listed_congr hsame]
      dsimp only
      rw [hout, Heap.blocks_nil, Heap.blocks_nil]
    rw [hblocks]
    exact .idle
  have hidle : (σ.shim.ready || σ.shim.starting) = false := by rw [hdown, hS.starting]; rfl
  obtain ⟨sh₁, hsh₁⟩ : ∃ sh₁ : Shim, sh₁ = { σ.shim with
    nofresh := out.nofresh, pool := σ.shim.pool.lookUp place out.asks, realFree := out.realFree
    heap := h' } := ⟨_, rfl⟩
  have hrun : Mars.startup P place out σ.shim = (if up = true then do
      inHeap (mmSetMode P .libc)
      Prog.modify fun σ => { σ with starting := false, ready := true }
    else Prog.modify fun σ => { σ with starting := false } : ShimM Unit)
      { sh₁ with starting := true } := by
    rw [Mars.startup, Prog.bind_run, Prog.read_run, hidle, Prog.when_run, if_pos Bool.not_false]
    simp only [Prog.bind_run, Prog.modify_run, inPool, inHeap, hinit, hsh₁]
  subst hsh₁
  rw [hrun]
  rcases hres with ⟨hup, hz'⟩ | ⟨hup, L, hL⟩
  · rw [hup, if_neg Bool.false_ne_true]
    exact ⟨_, rfl, hbegun _ ⟨⟨grants', hB'⟩, rfl, horder, fun _ => ⟨hout, hz'⟩, fun hr => absurd hr hready⟩
      rfl rfl⟩
  · rw [hup, if_pos rfl]
    have hset : (Action.call (.setMode .libc)).mapping P ≤ bytes := (mapping_setMode P .libc).trans_le hle
    have hord : (mmSetMode P .libc h').2.Orderly bytes (Taken place F) :=
      horder.call (c := .setMode .libc) hset
    obtain ⟨L', hL'⟩ := hL.mmSetMode (horder.stocked.offers hset)
    exact ⟨_, rfl, hbegun _ ⟨⟨grants', hB'⟩, rfl, hord, fun hr => absurd hr.symm Bool.false_ne_true, fun _ =>
      ⟨L', hout ▸ hL'⟩⟩ rfl rfl⟩

end Preloaded.Sound

end Mars
