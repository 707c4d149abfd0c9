import MarsAllocator.Invariant.Preload

namespace Mars

open ByteMemory ByteStore StateProgram

variable {P : Profile} {place : PoolPlace} {out : Outside} {F : Nat → Prop} {σ σ' : Preloaded} {sh : Shim}
  {align n p ptr bytes : Nat} {bs cs : List UInt8} {e : Blocks.Event UInt8} {c : Call}
  {zeroed : Shim → Bool} {x y : ShimM Nat}

/-- The shim with enough to bring the arena up from, `dlsym` asking for no more than an object can
be. -/
structure Preloaded.Ample (P : Profile) (place : PoolPlace) (out : Outside) (F : Nat → Prop) (bytes : Nat)
    (σ : Preloaded) : Prop extends σ.Sound P place F bytes where
  mapping : mappingFor P P.minBlock ≤ bytes
  asks : σ.shim.ready = false → ∀ n ∈ out.asks, n.toNat < 2 ^ 63

/-- What may be asked of the pool for as long as there is no arena. -/
structure Preloaded.Modest (place : PoolPlace) (out : Outside) (n : Nat) (σ : Preloaded) : Prop where
  size : σ.shim.ready = false → n < 2 ^ 63
  spare : σ.shim.ready = false → n = 0 →
    (σ.shim.pool.lookUp place out.asks).used + poolHdrSize ≠ bootstrapBytes

/-- Whether all that `calloc` hands out is zero for sure. -/
def Shim.clears (σ : Shim) : Bool := σ.nofresh || !σ.ready

/-- A block for `n` bytes comes out of `x`, all of them zero where they are `zeroed`, or none does. -/
def Preloaded.Allots (P : Profile) (place : PoolPlace) (F : Nat → Prop) (bytes align n : Nat)
    (zeroed : Shim → Bool) (x : ShimM Nat) (σ : Preloaded) : Prop :=
  ∃ p sh e, x σ.shim = (p, sh) ∧ Grants align n (if zeroed sh then n else 0) p e ∧
    σ.Does P place F bytes e ({ σ with shim := sh }.take place p)

theorem Shim.write_clears (sh : Shim) (p off : Nat) (bs : List UInt8) :
    (sh.write place p off bs).clears = sh.clears := by
  rw [Shim.write]
  split <;> rfl

namespace Preloaded

theorem Sound.refuses (hS : σ.Sound P place F bytes) :
    σ.Allots P place F bytes align n zeroed (pure 0) :=
  ⟨0, σ.shim, .idle, rfl, .refused, hS.does⟩

theorem Sound.started (hS : σ.Sound P place F bytes) (hle : mappingFor P P.minBlock ≤ bytes)
    (hasks : σ.shim.ready = false → ∀ n ∈ out.asks, n.toNat < 2 ^ 63) :
    ∃ sh, Mars.started P place out σ.shim = (sh.ready, sh) ∧ σ.Begun P place out F bytes sh := by
  cases hup : σ.shim.ready with
  | true =>
    refine ⟨σ.shim, ?_, hS.does, fun hd => absurd (hd.symm.trans hup) Bool.false_ne_true, fun _ => rfl⟩
    rw [Mars.started, Prog.bind_run, Prog.read_run, hup, if_pos rfl]
    rfl
  | false =>
    obtain ⟨sh, hrun, hb⟩ := hS.startup hle hasks
    refine ⟨sh, ?_, hb⟩
    rw [Mars.started, Prog.bind_run, Prog.read_run, hup, if_neg Bool.false_ne_true, Prog.bind_run, hrun]
    rfl

/-- A request that goes to the arena once it is up, and to the pool before. -/
theorem Ample.allots (hA : σ.Ample P place out F bytes)
    (hup : ∀ sh, sh.ready = true → { σ with shim := sh }.Sound P place F bytes →
      { σ with shim := sh }.Allots P place F bytes align n zeroed x)
    (hdown : ∀ sh, σ.shim.ready = false → sh.ready = false → sh.pool = σ.shim.pool.lookUp place out.asks →
      { σ with shim := sh }.Sound P place F bytes → { σ with shim := sh }.Allots P place F bytes align n zeroed y) :
    σ.Allots P place F bytes align n zeroed (do if ← Mars.started P place out then x else y) := by
  obtain ⟨sh, hrun, hb⟩ := hA.toSound.started hA.mapping hA.asks
  have hS := hb.does.sound
  cases hready : sh.ready with
  | true =>
    obtain ⟨p, sh', e, hx, hg, hd⟩ := hup sh hready hS
    refine ⟨p, sh', e, ?_, hg, hb.does.after hd⟩
    rw [Prog.bind_run, hrun, hready, if_pos rfl]
    exact hx
  | false =>
    have hwas : σ.shim.ready = false := by
      by_contra hne
      rw [hb.same (Bool.eq_true_of_not_eq_false hne)] at hready
      exact hne hready
    obtain ⟨p, sh', e, hy, hg, hd⟩ := hdown sh hwas hready (hb.pool hwas) hS
    refine ⟨p, sh', e, ?_, hg, hb.does.after hd⟩
    rw [Prog.bind_run, hrun, hready, if_neg Bool.false_ne_true]
    exact hy

theorem Sound.inArena {f : HeapM Nat} {m : Nat} (hS : σ.Sound P place F bytes) (hup : σ.shim.ready = true)
    (hc : c.plain = true) (hv : c.okFor σ.out = true) (hle : (Action.call c).mapping P ≤ bytes)
    (hn : c.asks = some m) (hf : ∀ h, c.run P h = (.pointer (f h).1, (f h).2)) (hnm : n ≤ m) :
    σ.Allots P place F bytes c.aligns n (fun _ => false) (inHeap f) := by
  obtain ⟨p, h', e, hrun, hg, hd⟩ := hS.asked hup hc hv hle hn
  rw [hf, Prod.mk.injEq, Reply.pointer.injEq] at hrun
  refine ⟨p, { σ.shim with heap := h' }, e, ?_, hg.mono hnm, hd⟩
  rw [inHeap, hrun.1, hrun.2]

theorem Sound.inPool (hS : σ.Sound P place F bytes) (hn : n < 2 ^ 63)
    (hspare : n = 0 → σ.shim.pool.used + poolHdrSize ≠ bootstrapBytes) :
    σ.Allots P place F bytes 1 n zeroed (Mars.inPool (poolAlloc place n)) := by
  obtain ⟨p, pool, e, hrun, hg, hd⟩ := hS.drawn hn hspare
  refine ⟨p, { σ.shim with pool := pool }, e, ?_, ?_, hd⟩
  · rw [Mars.inPool, hrun]
  · cases zeroed { σ.shim with pool := pool } with
    | true => exact hg
    | false => exact hg.mono le_rfl

theorem ofNat_orOne (hn : n < 2 ^ 64) : (UInt64.ofNat (orOne n)).toNat = orOne n := by
  rw [UInt64.toNat_ofNat', orOne]
  refine Nat.mod_eq_of_lt ?_
  split <;> omega

theorem le_orOne (n : Nat) : n ≤ orOne n := by
  rw [orOne]
  split <;> omega

theorem Sound.malloc (hS : σ.Sound P place F bytes) (hup : σ.shim.ready = true) (hn : n < 2 ^ 64)
    (hle : mappingFor P (sizeFor P (orOne n)) ≤ bytes) :
    σ.Allots P place F bytes 1 n (fun _ => false) (inHeap (mmMalloc P (orOne n))) := by
  have hto := ofNat_orOne hn
  refine hS.inArena (c := .malloc (UInt64.ofNat (orOne n))) hup rfl rfl ?_ (congrArg some hto) (fun h => ?_)
    (le_orOne n)
  · rw [Action.mapping, Call.demand, hto]
    exact hle
  · have hrun : (Call.malloc (UInt64.ofNat (orOne n))).run P h =
        (.pointer (mmMalloc P (UInt64.ofNat (orOne n)).toNat h).1,
          (mmMalloc P (UInt64.ofNat (orOne n)).toNat h).2) := rfl
    rwa [hto] at hrun

theorem Ample.malloc (hA : σ.Ample P place out F bytes) (hm : σ.Modest place out n) (hn : n < 2 ^ 64)
    (hle : mappingFor P (sizeFor P (orOne n)) ≤ bytes) :
    σ.Allots P place F bytes 1 n (fun _ => false) (shimMalloc P place out n) := by
  rw [shimMalloc]
  refine hA.allots (fun sh hup hS => hS.malloc hup hn hle) fun sh hwas hdown hpool hS => ?_
  refine hS.inPool (hm.size hwas) fun h0 => ?_
  rw [hpool]
  exact hm.spare hwas h0

theorem Sound.memset (hS : σ.Sound P place F bytes) {k : Nat} (hp : σ.has p) (hk : k ≤ σ.room P place p) :
    σ.Does P place F bytes (.wrote p 0 (List.replicate k 0))
      { σ with shim := (Mars.memset place p k σ.shim).2 } := by
  refine hS.write hp ?_
  rw [List.length_replicate, Nat.zero_add]
  exact hk

/-- A block whose first bytes are then written is one that came with them. -/
theorem Does.fill {σ₁ : Preloaded} (hd : σ.Does P place F bytes (.allocated p bs) σ₁)
    (hw : σ₁.Does P place F bytes (.wrote p 0 cs) σ') :
    0 + cs.length ≤ bs.length ∧ σ.Does P place F bytes (.allocated p (splice bs 0 cs)) σ' := by
  obtain ⟨hin, ht⟩ := hd.takes.fill hw.takes
  exact ⟨hin, hw.sound, ht, hw.passed.trans hd.passed⟩

theorem Does.room {σ₁ : Preloaded} (hd : σ.Does P place F bytes (.allocated p bs) σ₁) :
    σ₁.has p ∧ σ₁.room P place p = bs.length := by
  obtain ⟨S, hS⟩ : ∃ S, S = σ₁.blocks P := ⟨_, rfl⟩
  have hp : σ₁.blocks P p = some bs := by
    have ht := hd.takes
    rw [← hS] at ht ⊢
    cases ht with
    | allocated _ => exact Blocks.put_self ..
  have hhas : σ₁.has p := by
    by_contra hnot
    rw [has, not_or] at hnot
    rw [blocks, Blocks.join_right (Blocks.listed_of_notMem hnot.1), Heap.blocks_of_notMem hnot.2] at hp
    exact Option.some_ne_none bs hp.symm
  obtain ⟨cs, hcs, hlen⟩ := hd.sound.blocks_room hhas
  rw [Option.some.inj (hp.symm.trans hcs)]
  exact ⟨hhas, hlen.symm⟩

theorem take_shim (σ : Preloaded) (p : Nat) : (σ.take place p).shim = σ.shim := by
  rw [take]
  split
  · rfl
  · split <;> rfl

theorem take_with (σ : Preloaded) (p : Nat) (sh : Shim) :
    { σ.take place p with shim := sh } = { σ with shim := sh }.take place p := by
  rw [take, take]
  split
  · rfl
  · split <;> rfl

theorem clearedOf_le (nofresh : Bool) (dirty total : Nat) : clearedOf nofresh dirty total ≤ total := by
  rw [clearedOf]
  split
  · exact le_rfl
  · exact Nat.min_le_right ..

theorem Sound.cleared (hS : σ.Sound P place F bytes) (hup : σ.shim.ready = true) (hn : n < 2 ^ 64)
    (hle : mappingFor P (sizeFor P (orOne n)) ≤ bytes) :
    σ.Allots P place F bytes 1 n Shim.clears (do
      let nofresh ← Prog.read Shim.nofresh
      let r ← inHeap (mallocUnlocked P (orOne n))
      if r.1 = 0 then pure 0
      else do
        Mars.memset place r.1 (clearedOf nofresh r.2 n)
        pure r.1) := by
  obtain ⟨p, sh', e, hrun, hg, hd⟩ := hS.malloc hup hn hle
  obtain ⟨r, hr⟩ : ∃ r, r = mallocUnlocked P (orOne n) σ.shim.heap := ⟨_, rfl⟩
  have hmalloc : inHeap (mmMalloc P (orOne n)) σ.shim = (r.1.1, { σ.shim with heap := r.2 }) := by
    rw [hr]
    rfl
  rw [hmalloc, Prod.mk.injEq] at hrun
  obtain ⟨hp, rfl⟩ := hrun
  have hbody : (do
      let nofresh ← Prog.read Shim.nofresh
      let r ← inHeap (mallocUnlocked P (orOne n))
      if r.1 = 0 then pure 0
      else do
        Mars.memset place r.1 (clearedOf nofresh r.2 n)
        pure r.1 : ShimM Nat) σ.shim = if p = 0 then (0, { σ.shim with heap := r.2 }) else
          (p, (Mars.memset place p (clearedOf σ.shim.nofresh r.1.2 n) { σ.shim with heap := r.2 }).2) := by
    rw [Prog.bind_run, Prog.read_run, Prog.bind_run, inHeap, ← hr, Prog.ite_run, ← hp]
    rfl
  cases hg with
  | refused => exact ⟨0, _, .idle, hbody, .refused, hd⟩
  | @granted p bs hp0 hal hal' hlen _ =>
    have hroom := hd.room
    have hk : clearedOf σ.shim.nofresh r.1.2 n ≤ n := clearedOf_le ..
    have hw := hd.sound.memset hroom.1 (hk.trans (hroom.2 ▸ hlen))
    rw [take_shim, take_with] at hw
    obtain ⟨hin, hd'⟩ := hd.fill hw
    refine ⟨p, _, _, hbody.trans (if_neg hp0), .granted hp0 hal hal' ?_ ?_, hd'⟩
    · rw [length_splice hin]
      exact hlen
    · rw [Mars.memset, Prog.modify_run, Shim.write_clears, Shim.clears]
      dsimp only
      rw [hup]
      cases hfresh : σ.shim.nofresh with
      | true =>
        have hall := splice_read hin
        rw [clearedOf, if_pos (.inl hfresh), List.length_replicate, List.drop_zero] at hall
        have htotal : clearedOf true r.1.2 n = n := if_pos (.inl rfl)
        rw [htotal]
        exact hall
      | false => rfl

theorem Ample.calloc {nmemb size : Nat} (hA : σ.Ample P place out F bytes)
    (hm : nmemb * size < 2 ^ 64 → σ.Modest place out (nmemb * size))
    (hle : mappingFor P (sizeFor P (orOne (nmemb * size))) ≤ bytes) :
    σ.Allots P place F bytes 1 (nmemb * size) Shim.clears (shimCalloc P place out nmemb size) := by
  rw [shimCalloc]
  by_cases hover : 2 ^ 64 ≤ nmemb * size
  · rw [if_pos hover]
    exact hA.toSound.refuses
  rw [if_neg hover]
  have hn := Nat.lt_of_not_le hover
  refine hA.allots (fun sh hup hS => hS.cleared hup hn hle) fun sh hwas hdown hpool hS => ?_
  refine hS.inPool ((hm hn).size hwas) fun h0 => ?_
  rw [hpool]
  exact (hm hn).spare hwas h0

theorem okFor_of_powerOfTwo {a : UInt64} {size : UInt64} {live : List Nat} (ha : powerOfTwo a.toNat = true) :
    (Call.memalign a size).okFor live = true := by
  rw [powerOfTwo, Bool.and_eq_true, bne_iff_ne, beq_iff_eq,
    Nat.ne_zero_and_sub_one_eq_zero_iff_isPowerOfTwo] at ha
  obtain ⟨k, hk⟩ := ha
  rw [Call.okFor, hk, Nat.log2_two_pow, beq_self_eq_true]

theorem Ample.alignedAlloc (hA : σ.Ample P place out F bytes) (ha : align < 2 ^ 64) (hn : n < 2 ^ 64)
    (hle : mappingFor P (sizeFor P (paddedFor P align (orOne n))) ≤ bytes) :
    σ.Allots P place F bytes align n (fun _ => false) (Mars.alignedAlloc P place out align n) := by
  rw [Mars.alignedAlloc]
  cases hp : powerOfTwo align with
  | false => exact hA.toSound.refuses
  | true =>
    refine hA.allots (fun sh hup hS => ?_) fun sh _ _ _ hS => hS.refuses
    have hto := ofNat_orOne hn
    have hto' : (UInt64.ofNat align).toNat = align := by
      rw [UInt64.toNat_ofNat']
      exact Nat.mod_eq_of_lt ha
    rw [← hto'] at hp
    have hserved := hS.inArena (n := n) (f := mmMemalign P align (orOne n))
      (c := .memalign (UInt64.ofNat align) (UInt64.ofNat (orOne n))) hup rfl (okFor_of_powerOfTwo hp) ?_
      (congrArg some hto) (fun h => ?_) (le_orOne n)
    · rw [Call.aligns, hto'] at hserved
      exact hserved
    · rw [Action.mapping, Call.demand, hto, hto']
      exact hle
    · have hrun : (Call.memalign (UInt64.ofNat align) (UInt64.ofNat (orOne n))).run P h =
          (.pointer (mmMemalign P (UInt64.ofNat align).toNat (UInt64.ofNat (orOne n)).toNat h).1,
            (mmMemalign P (UInt64.ofNat align).toNat (UInt64.ofNat (orOne n)).toNat h).2) := rfl
      rwa [hto, hto'] at hrun

theorem give_take (hne : p ≠ ptr) : (σ.give ptr).take place p = (σ.take place p).give ptr := by
  have herase : ∀ l : List Nat, (p :: l).erase ptr = p :: l.erase ptr := fun l =>
    List.erase_cons_tail (by simpa using hne)
  rw [take, take]
  split
  · rfl
  · split
    · rw [give, give, herase]
    · rw [give, give, herase]

theorem after_realloc {ptr size : UInt64} {q : Nat} (h0 : ptr.toNat ≠ 0) (hp : σ.has ptr.toNat) :
    { σ with shim := sh }.after place (.realloc ptr size) (.pointer q) =
      if q ≠ 0 then ({ σ with shim := sh }.give ptr.toNat).take place q
      else if size.toNat = 0 then { σ with shim := sh }.give ptr.toNat
      else { σ with shim := sh } := by
  have hp' : { σ with shim := sh }.has ptr.toNat := hp
  rw [after, if_neg h0, if_neg (not_not.mpr hp')]

/-- A block copied out of the pool, and then given up. -/
theorem Does.leave {σ₁ : Preloaded} (hp : ptr ∈ σ.held) (hp0 : p ≠ 0)
    (hd : σ.Does P place F bytes (.allocated p bs) (σ₁.take place p)) (hlen : n ≤ bs.length)
    (hheld : σ₁.held = σ.held) :
    ∃ bs', bs'.length = bs.length ∧ σ.Does P place F bytes (.resized ptr p n bs')
      (({ σ₁ with shim := (copyOut place p ptr (min (poolSizeOf σ₁.shim.pool ptr) n) σ₁.shim).2 }.give
        ptr).take place p) := by
  have hold := blocks_held (P := P) hp
  have hnew : p ≠ ptr := by
    rintro rfl
    have ht := hd.takes
    generalize (σ₁.take place p).blocks P = S at ht
    cases ht with
    | allocated hc => exact Option.some_ne_none _ (hold.symm.trans hc.fresh)
  have hmem : ptr ∈ (σ₁.take place p).held := by
    rw [take, if_neg hp0]
    split
    · exact List.mem_cons_of_mem p (hheld ▸ hp)
    · exact hheld ▸ hp
  have hsame : σ₁.shim.pool.payload ptr = σ.shim.pool.payload ptr := by
    have hk := hd.takes.keeps hold fun hc => hc
    have hnow := blocks_held (P := P) hmem
    rw [take_shim] at hnow
    exact Option.some.inj (hnow.symm.trans hk)
  obtain ⟨k, hk⟩ : ∃ k, k = min (poolSizeOf σ₁.shim.pool ptr) n := ⟨_, rfl⟩
  have hcopy : σ₁.shim.pool.mem.bytes ptr k = (σ.shim.pool.payload ptr).take k := by
    rw [← hsame, Pool.payload, Memory.take_bytes _ (by omega)]
  have hhad : k = min (σ.shim.pool.payload ptr).length n := by
    rw [← hsame, Pool.payload, Memory.length_bytes]
    exact hk
  have hfit : 0 + (σ₁.shim.pool.mem.bytes ptr k).length ≤ (σ₁.take place p).room P place p := by
    rw [hd.room.2, Memory.length_bytes]
    omega
  have hw := hd.sound.write hd.room.1 hfit
  rw [take_shim, take_with] at hw
  obtain ⟨hin, hd'⟩ := hd.fill hw
  rw [← hk, give_take hnew]
  have hmem' : ptr ∈ ({ σ₁ with shim := (copyOut place p ptr k σ₁.shim).2 }.take place p).held := by
    rw [← take_with]
    exact hmem
  have hgive := hd'.sound.give hmem'
  refine ⟨_, length_splice hin, hgive.sound, hgive.takes.of_freed ▸ hd'.takes.moved hold ?_,
    hgive.passed.trans hd'.passed⟩
  have hread := splice_read hin
  rw [List.drop_zero, Memory.length_bytes] at hread
  rw [← hhad, ← hcopy]
  exact hread

theorem Ample.realloc_pool {ptr size : UInt64} (hA : σ.Ample P place out F bytes) (hp : ptr.toNat ∈ σ.held)
    (hm : size.toNat ≠ 0 → σ.Modest place out size.toNat)
    (hle : mappingFor P (sizeFor P (orOne size.toNat)) ≤ bytes) :
    ∃ q sh e, shimRealloc P place out ptr.toNat size.toNat σ.shim = (q, sh) ∧
      Resizes ptr.toNat size.toNat q e ∧
      σ.Does P place F bytes e ({ σ with shim := sh }.after place (.realloc ptr size) (.pointer q)) := by
  have hS := hA.toSound
  have h0 := hS.ne_zero (.inl hp)
  have hfrom := hS.fromPool_held hp
  rw [shimRealloc, if_neg h0, if_pos hfrom]
  by_cases hz : size.toNat = 0
  · rw [if_pos hz]
    refine ⟨0, σ.shim, .freed ptr.toNat, rfl, .emptied hz, ?_⟩
    rw [after_realloc h0 (.inl hp), if_neg (not_not.mpr rfl), if_pos hz]
    exact hS.give hp
  rw [if_neg hz]
  obtain ⟨p, sh, e, hrun, hg, hd⟩ := hA.malloc (hm hz) size.toNat_lt hle
  have hbody : (do
      let fresh ← shimMalloc P place out size.toNat
      if fresh = 0 then pure 0
      else do
        let had ← Prog.read fun σ => poolSizeOf σ.pool ptr.toNat
        copyOut place fresh ptr.toNat (min had size.toNat)
        pure fresh : ShimM Nat) σ.shim = if p = 0 then (0, sh) else
          (p, (copyOut place p ptr.toNat (min (poolSizeOf sh.pool ptr.toNat) size.toNat) sh).2) := by
    rw [Prog.bind_run, hrun, Prog.ite_run]
    rfl
  cases hg with
  | refused =>
    refine ⟨0, sh, .idle, hbody, .unmoved hz, ?_⟩
    rw [after_realloc h0 (.inl hp), if_neg (not_not.mpr rfl), if_neg hz]
    exact hd
  | @granted p bs hp0 hal _ hlen _ =>
    obtain ⟨bs', hlen', hd'⟩ := hd.leave hp hp0 hlen rfl
    refine ⟨p, _, _, hbody.trans (if_neg hp0), .resized hp0 hal (hlen'.symm ▸ hlen), ?_⟩
    rw [after_realloc h0 (.inl hp), if_pos hp0]
    exact hd'

theorem started_up (hup : σ.shim.ready = true) : Mars.started P place out σ.shim = (true, σ.shim) := by
  rw [Mars.started, Prog.bind_run, Prog.read_run, hup, if_pos rfl]
  rfl

theorem Sound.realloc_arena (hS : σ.Sound P place F bytes) (out : Outside) {ptr size : UInt64}
    (hp : ptr.toNat ∈ σ.out) (hle : mappingFor P (sizeFor P size.toNat) ≤ bytes) :
    ∃ q sh e, shimRealloc P place out ptr.toNat size.toNat σ.shim = (q, sh) ∧
      Resizes ptr.toNat size.toNat q e ∧
      σ.Does P place F bytes e ({ σ with shim := sh }.after place (.realloc ptr size) (.pointer q)) := by
  have h0 := hS.ne_zero (.inr hp)
  obtain ⟨hup, -⟩ := hS.out_placed hp
  have hv : (Call.realloc ptr size).okFor σ.out = true := by
    rw [Call.okFor, List.contains_iff_mem.mpr hp, Bool.or_true]
  obtain ⟨e, ht, hd⟩ := hS.through (c := .realloc ptr size) hup rfl hv hle
  obtain ⟨q, hr, hres⟩ := ht.resizes h0
  obtain ⟨h', hh⟩ : ∃ h', h' = ((Call.realloc ptr size).run P σ.shim.heap).2 := ⟨_, rfl⟩
  have hrealloc : mmRealloc P ptr.toNat size.toNat σ.shim.heap = (q, h') := by
    have hcall : (Call.realloc ptr size).run P σ.shim.heap =
        (.pointer (mmRealloc P ptr.toNat size.toNat σ.shim.heap).1,
          (mmRealloc P ptr.toNat size.toNat σ.shim.heap).2) := rfl
    rw [hcall] at hr hh
    exact Prod.ext (Reply.pointer.inj hr) hh.symm
  refine ⟨q, { σ.shim with heap := h' }, e, ?_, hres, ?_⟩
  · rw [shimRealloc, if_neg h0, hS.not_fromPool hp, if_neg Bool.false_ne_true, Prog.bind_run,
      started_up hup, Prog.bind_run, Prog.read_run, hS.ours_of_out hp, if_pos rfl, inHeap, hrealloc]
  · have hheld : σ.held.erase ptr.toNat = σ.held := List.erase_of_not_mem fun hh => hS.held_not_out hh hp
    have hgive : { σ with shim.heap := h' }.give ptr.toNat =
        { σ with shim.heap := h', out := σ.out.erase ptr.toNat } := by
      rw [Preloaded.give, hheld]
    have hthrough : σ.through P (.realloc ptr size) = { σ with
        shim.heap := h'
        out := (Call.realloc ptr size).liveAfter σ.out (.pointer q) } := by
      rw [Preloaded.through, hr, ← hh]
    rw [after_realloc h0 (.inr hp), hgive]
    rw [hthrough] at hd
    rw [Call.liveAfter] at hd
    by_cases hq : q ≠ 0
    · rw [if_pos hq] at hd ⊢
      have hout := hd.sound.not_fromPool (p := q) List.mem_cons_self
      rw [take, if_neg hq, hout, if_neg Bool.false_ne_true]
      exact hd
    · rw [if_neg hq] at hd ⊢
      by_cases hz : size.toNat = 0
      · rw [if_pos hz] at hd ⊢
        exact hd
      · rw [if_neg hz] at hd ⊢
        exact hd

end Preloaded

end Mars
