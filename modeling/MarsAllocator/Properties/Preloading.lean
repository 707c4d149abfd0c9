import MarsAllocator.Invariant.Served

namespace Mars

open ByteMemory ByteStore StateProgram

namespace LibcCall

def aligns : LibcCall → Nat
  | alignedAlloc alignment _ | posixMemalign alignment _ => alignment.toNat
  | valloc _ | pvalloc _ => 4096
  | _ => 1

def clears : LibcCall → Bool
  | calloc _ _ => true
  | _ => false

/-- Whether the arguments are such as can be met at all. -/
def valid : LibcCall → Bool
  | alignedAlloc alignment _ => powerOfTwo alignment.toNat
  | posixMemalign alignment _ => powerOfTwo alignment.toNat && alignment.toNat % 8 == 0
  | calloc nmemb size => nmemb.toNat * size.toNat < 2 ^ 64
  | pvalloc size => size.toNat + 4096 < 2 ^ 64
  | _ => true

/-- The reply of a call that has a block at `p`, or none where that is NULL. -/
def answer (c : LibcCall) (p : Nat) : LibcReply :=
  match c with
  | posixMemalign _ _ =>
      .placed (if p ≠ 0 then .ok p else .error (if c.valid then .enomem else .einval))
  | _ => .pointer p

end LibcCall

/-- What a program has of the C library's store: the bytes of each block, and whether those that
`calloc` hands out are zero for sure. -/
structure LibcStore where
  blocks : Blocks UInt8
  clears : Bool

def Preloaded.store (P : Profile) (σ : Preloaded) : LibcStore := ⟨σ.blocks P, σ.shim.clears⟩

namespace LibcStore

variable (A : LibcStore)

/-- What a call and the reply to it may come to, `clears` being whether `calloc` zeroes it all. -/
inductive Tells (clears : Bool) : LibcCall → LibcReply → Blocks.Event UInt8 → Prop
  | started : Tells clears .start .void .idle
  | asked {c : LibcCall} {n p : Nat} {e : Blocks.Event UInt8} (hn : c.asks = some n)
      (hv : c.valid = false → p = 0)
      (hg : Grants c.aligns n (if c.clears && clears then n else 0) p e) :
      Tells clears c (c.answer p) e
  | freed {ptr : UInt64} {bs : List UInt8} (hp : A.blocks ptr.toNat = some bs) :
      Tells clears (.free ptr) .void (.freed ptr.toNat)
  | ignored {ptr : UInt64} (hp : A.blocks ptr.toNat = none) : Tells clears (.free ptr) .void .idle
  | resized {ptr size : UInt64} {bs : List UInt8} {q : Nat} {e : Blocks.Event UInt8}
      (hp : A.blocks ptr.toNat = some bs) (hr : Resizes ptr.toNat size.toNat q e) :
      Tells clears (.realloc ptr size) (.pointer q) e
  | foreign {ptr size : UInt64} {q : Nat} (h0 : ptr.toNat ≠ 0) (hp : A.blocks ptr.toNat = none) :
      Tells clears (.realloc ptr size) (.pointer q) .idle
  | measured {ptr : UInt64} :
      Tells clears (.usableSize ptr) (.size ((A.blocks ptr.toNat).elim 0 List.length)) .idle

def Serves (c : LibcCall) (r : LibcReply) (B : LibcStore) : Prop :=
  ∃ e, A.Tells B.clears c r e ∧ Blocks.Takes A.blocks e B.blocks

/-- Some actions of the program, with the replies to them. -/
inductive Trace : LibcStore → List (LibcAction × LibcReply) → LibcStore → Prop
  | done {A : LibcStore} : Trace A [] A
  | called {A B C : LibcStore} {c : LibcCall} {r : LibcReply} {tr : List (LibcAction × LibcReply)}
      (hs : A.Serves c r B) (ht : Trace B tr C) : Trace A ((.call c, r) :: tr) C
  | poked {A B : LibcStore} {S : Blocks UInt8} {p off : Nat} {bs : List UInt8}
      {tr : List (LibcAction × LibcReply)} (hs : Blocks.Takes A.blocks (.wrote p off bs) S)
      (ht : Trace ⟨S, A.clears⟩ tr B) : Trace A ((.poke p off bs, .void) :: tr) B

end LibcStore

/-- A run of the program: calls that the C library allows, and stores into the blocks that it has,
with what is outside the shim and what the platform maps its own at each of them. -/
inductive Preloaded.Runs (P : Profile) (place : PoolPlace) (F : Nat → Prop) :
    Preloaded → List (LibcAction × LibcReply) → Preloaded → Prop
  | done {σ : Preloaded} : Runs P place F σ [] σ
  | called {σ σ' : Preloaded} {c : LibcCall} {tr : List (LibcAction × LibcReply)} (out : Outside)
      (supply : List (Option Nat)) (hv : c.OkFor place out F σ)
      (hs : (σ.offered supply).shim.heap.Stocked (c.mapping P) (Taken place F))
      (hr : Runs P place F ((σ.offered supply).call P place out c).2 tr σ') :
      Runs P place F σ ((.call c, ((σ.offered supply).call P place out c).1) :: tr) σ'
  | poked {σ σ' : Preloaded} {p off : Nat} {bs : List UInt8} {tr : List (LibcAction × LibcReply)}
      (hp : σ.has p) (hin : off + bs.length ≤ σ.room P place p)
      (hr : Runs P place F (σ.poke place p off bs) tr σ') :
      Runs P place F σ ((.poke p off bs, .void) :: tr) σ'

variable {P : Profile} {place : PoolPlace} {out : Outside} {F : Nat → Prop} {σ σ' : Preloaded} {sh : Shim}
  {n p bytes : Nat} {bs : List UInt8} {e : Blocks.Event UInt8} {c : LibcCall} {ptr size : UInt64}
  {tr : List (LibcAction × LibcReply)}

/-- The step from `σ` to `σ'`, pointers to `F` being all that it hands on. -/
structure Preloaded.Steps (P : Profile) (place : PoolPlace) (F : Nat → Prop) (bytes : Nat) (σ : Preloaded)
    (c : LibcCall) (r : LibcReply) (σ' : Preloaded) : Prop where
  sound : σ'.Sound P place F bytes
  serves : (σ.store P).Serves c r (σ'.store P)
  passed : ∀ q ∈ σ'.shim.passed, q ∈ σ.shim.passed ∨ F q

theorem Preloaded.Does.steps {r : LibcReply} (hd : σ.Does P place F bytes e σ')
    (ht : (σ.store P).Tells σ'.shim.clears c r e) : σ.Steps P place F bytes c r σ' :=
  ⟨hd.sound, ⟨e, ht, hd.takes⟩, fun _ hq => .inl (hd.passed ▸ hq)⟩

namespace Preloaded

theorem give_of_not_has (hp : ¬ σ.has p) : σ.give p = σ := by
  rw [has, not_or] at hp
  rw [give, List.erase_of_not_mem hp.1, List.erase_of_not_mem hp.2]

theorem blocks_none (hp : ¬ σ.has p) : σ.blocks P p = none := by
  rw [has, not_or] at hp
  rw [blocks, Blocks.join_right (Blocks.listed_of_notMem hp.1), Heap.blocks_of_notMem hp.2]

theorem Sound.not_has_zero (hS : σ.Sound P place F bytes) : ¬ σ.has 0 := fun h => hS.ne_zero h rfl

theorem Sound.passes (hS : σ.Sound P place F bytes) (passed : List Nat) :
    { σ with shim.passed := passed }.Sound P place F bytes :=
  ⟨hS.pool, hS.starting, hS.orderly, hS.down, hS.up⟩

theorem Ample.free (hA : σ.Ample P place out F bytes) (hF : ∀ a, F a → fromPool place a = false)
    (hp : ptr.toNat = 0 ∨ σ.has ptr.toNat ∨ F ptr.toNat) :
    ∃ sh, shimFree P place out ptr.toNat σ.shim = ((), sh) ∧
      σ.Steps P place F bytes (.free ptr) .void ({ σ with shim := sh }.give ptr.toNat) := by
  have hS := hA.toSound
  by_cases h0 : ptr.toNat = 0
  · refine ⟨σ.shim, ?_, ?_⟩
    · rw [shimFree, if_pos (.inl h0)]
      rfl
    · have hnot : ¬ σ.has ptr.toNat := h0 ▸ hS.not_has_zero
      rw [give_of_not_has hnot]
      exact hS.does.steps (.ignored (blocks_none hnot))
  have hnull : ∀ b : Bool, b = false → ¬ (ptr.toNat = 0 ∨ b = true) := fun b hb hor =>
    hor.elim h0 fun ht => Bool.false_ne_true (hb.symm.trans ht)
  rcases hp.resolve_left h0 with (hheld | hout) | hforeign
  · refine ⟨σ.shim, ?_, ?_⟩
    · rw [shimFree, if_pos (.inr (hS.fromPool_held hheld))]
      rfl
    · exact (hS.give hheld).steps (.freed (blocks_held hheld))
  · obtain ⟨hup, -⟩ := hS.out_placed hout
    have hv : (Call.free ptr).okFor σ.out = true := by
      rw [Call.okFor, List.contains_iff_mem.mpr hout, Bool.or_true]
    have hle : (Action.call (.free ptr)).mapping P ≤ bytes := (mapping_setMode P .libc).trans_le hA.mapping
    obtain ⟨e, ht, hd⟩ := hS.through (c := .free ptr) hup rfl hv hle
    refine ⟨{ σ.shim with heap := (mmFree P ptr.toNat σ.shim.heap).2 }, ?_, ?_⟩
    · rw [shimFree, if_neg (hnull _ (hS.not_fromPool hout)), Prog.bind_run, started_up hup, Prog.bind_run,
        Prog.read_run, hS.ours_of_out hout, if_pos rfl]
      rfl
    · have hgive : { σ with shim.heap := (mmFree P ptr.toNat σ.shim.heap).2 }.give ptr.toNat =
          σ.through P (.free ptr) := by
        rw [Preloaded.give, List.erase_of_not_mem fun hh => hS.held_not_out hh hout]
        rfl
      rw [hgive]
      have hfreed : e = .freed ptr.toNat := by
        cases ht with
        | freed _ => rfl
        | nothing hz => exact absurd hz h0
      rw [hfreed] at hd
      exact hd.steps (.freed (hS.blocks_out hout))
  · obtain ⟨sh, hrun, hb⟩ := hS.started hA.mapping hA.asks
    have hS' := hb.does.sound
    have hnot := hS.not_has hforeign (hF _ hforeign)
    have hnot' : ∀ sh : Shim, ¬ { σ with shim := sh }.has ptr.toNat := fun _ => hnot
    have hbody : shimFree P place out ptr.toNat σ.shim =
        Prog.when sh.realFree (passOn ptr.toNat) sh := by
      rw [shimFree, if_neg (hnull _ (hF _ hforeign)), Prog.bind_run, hrun, Prog.bind_run, Prog.read_run,
        hS'.not_ours hforeign, if_neg Bool.false_ne_true]
      rfl
    have htells : ∀ sh' : Shim, (σ.store P).Tells sh'.clears (.free ptr) .void .idle := fun _ =>
      .ignored (blocks_none hnot)
    rw [Prog.when_run] at hbody
    split at hbody
    · refine ⟨_, hbody, ?_⟩
      rw [give_of_not_has (hnot' _)]
      refine ⟨hS'.passes _, ⟨.idle, htells _, hb.does.takes⟩, fun q hq => ?_⟩
      rcases List.mem_cons.mp hq with rfl | hq
      · exact .inr hforeign
      · exact .inl (hb.does.passed ▸ hq)
    · refine ⟨sh, hbody, ?_⟩
      rw [give_of_not_has (hnot' sh)]
      exact hb.does.steps (htells sh)

theorem Ample.realloc (hA : σ.Ample P place out F bytes) (hF : ∀ a, F a → fromPool place a = false)
    (hp : ptr.toNat = 0 ∨ σ.has ptr.toNat ∨ F ptr.toNat)
    (hm : ptr.toNat = 0 ∨ size.toNat ≠ 0 → σ.Modest place out size.toNat)
    (hle : mappingFor P (sizeFor P (orOne size.toNat)) ≤ bytes) :
    ∃ q sh, shimRealloc P place out ptr.toNat size.toNat σ.shim = (q, sh) ∧
      σ.Steps P place F bytes (.realloc ptr size) (.pointer q)
        ({ σ with shim := sh }.after place (.realloc ptr size) (.pointer q)) := by
  have hS := hA.toSound
  by_cases h0 : ptr.toNat = 0
  · obtain ⟨q, sh, e, hrun, hg, hd⟩ := hA.malloc (hm (.inl h0)) size.toNat_lt hle
    refine ⟨q, sh, ?_, ?_⟩
    · rw [shimRealloc, if_pos h0]
      exact hrun
    · rw [after, if_pos h0]
      exact hd.steps (.asked (c := .realloc ptr size) (if_pos h0) (fun hv => absurd hv.symm Bool.false_ne_true) hg)
  rcases hp.resolve_left h0 with (hheld | hout) | hforeign
  · obtain ⟨q, sh, e, hrun, hr, hd⟩ := hA.realloc_pool hheld (fun hz => hm (.inr hz)) hle
    exact ⟨q, sh, hrun, hd.steps (.resized (blocks_held hheld) hr)⟩
  · have hmap : mappingFor P (sizeFor P size.toNat) ≤ bytes := by
      by_cases hz : size.toNat = 0
      · rw [hz]
        exact (mapping_setMode P .libc).trans_le hA.mapping
      · rwa [orOne, if_neg hz] at hle
    obtain ⟨q, sh, e, hrun, hr, hd⟩ := hS.realloc_arena out hout hmap
    exact ⟨q, sh, hrun, hd.steps (.resized (hS.blocks_out hout) hr)⟩
  · obtain ⟨sh, hrun, hb⟩ := hS.started hA.mapping hA.asks
    have hS' := hb.does.sound
    have hnot := hS.not_has hforeign (hF _ hforeign)
    have hnot' : ∀ sh : Shim, ¬ { σ with shim := sh }.has ptr.toNat := fun _ => hnot
    have hbody : shimRealloc P place out ptr.toNat size.toNat σ.shim =
        Prog.elim out.realRealloc (pure 0) (fun p => do
          passOn ptr.toNat
          pure p) sh := by
      rw [shimRealloc, if_neg h0, hF _ hforeign, if_neg Bool.false_ne_true, Prog.bind_run, hrun,
        Prog.bind_run, Prog.read_run, hS'.not_ours hforeign, if_neg Bool.false_ne_true]
    have htells : ∀ (sh' : Shim) (q : Nat),
        (σ.store P).Tells sh'.clears (.realloc ptr size) (.pointer q) .idle := fun _ _ =>
      .foreign h0 (blocks_none hnot)
    have hafter : ∀ (sh : Shim) (q : Nat), { σ with shim := sh }.after place (.realloc ptr size) (.pointer q) =
        { σ with shim := sh } := fun sh q => by rw [after, if_neg h0, if_pos (hnot' sh)]
    cases hreal : out.realRealloc with
    | none =>
      rw [hreal] at hbody
      refine ⟨0, sh, hbody, ?_⟩
      rw [hafter]
      exact hb.does.steps (htells sh 0)
    | some q =>
      rw [hreal] at hbody
      refine ⟨q, _, hbody, ?_⟩
      rw [hafter]
      refine ⟨hS'.passes _, ⟨.idle, htells _ q, hb.does.takes⟩, fun x hx => ?_⟩
      rcases List.mem_cons.mp hx with rfl | hx
      · exact .inr hforeign
      · exact .inl (hb.does.passed ▸ hx)

theorem Sound.alike {h' : Heap} (hS : σ.Sound P place F bytes) (hup : σ.shim.ready = true)
    (ha : Alike σ.shim.heap h') : σ.Does P place F bytes .idle { σ with shim.heap := h' } := by
  obtain ⟨L, hL⟩ := hS.up hup
  obtain ⟨hL', hblocks⟩ := hL.alike ha
  have horder : h'.Orderly bytes (Taken place F) := by
    obtain ⟨_, _, _, _⟩ := ha
    exact SameBooks.orderly (h := σ.shim.heap) ⟨rfl, rfl, rfl, rfl, rfl, rfl, rfl, rfl⟩ hS.orderly
  have hS' : { σ with shim.heap := h' }.Sound P place F bytes :=
    ⟨hS.pool, hS.starting, horder, fun hd => absurd (hd.symm.trans hup) Bool.false_ne_true, fun _ => ⟨L, hL'⟩⟩
  have hsame : { σ with shim.heap := h' }.blocks P = σ.blocks P := by
    rw [blocks, blocks, ← hblocks]
  exact ⟨hS', hsame ▸ .idle, rfl⟩

theorem Sound.usableSize (hS : σ.Sound P place F bytes) (hF : ∀ a, F a → fromPool place a = false)
    (hp : ptr.toNat = 0 ∨ σ.has ptr.toNat ∨ F ptr.toNat) :
    ∃ sh, mallocUsableSize P place ptr.toNat σ.shim =
        ((σ.blocks P ptr.toNat).elim 0 List.length, sh) ∧
      σ.Does P place F bytes .idle { σ with shim := sh } := by
  by_cases h0 : ptr.toNat = 0
  · refine ⟨σ.shim, ?_, hS.does⟩
    rw [mallocUsableSize, if_pos h0, blocks_none (h0 ▸ hS.not_has_zero)]
    rfl
  rcases hp.resolve_left h0 with hhas | hforeign
  · obtain ⟨bs, hbs, hlen⟩ := hS.blocks_room hhas
    rw [hbs, Option.elim_some, hlen, room]
    cases hf : fromPool place ptr.toNat with
    | true =>
      refine ⟨σ.shim, ?_, hS.does⟩
      rw [mallocUsableSize, if_neg h0, hf, if_pos rfl]
      rfl
    | false =>
      have hout := hS.out_of_not_fromPool hhas hf
      have hclear : Alike σ.shim.heap (clearError σ.shim.heap).2 := Respects.step (x := clearError) _
      have hafter : Alike σ.shim.heap (mmUsableSize P ptr.toNat σ.shim.heap).2 :=
        trans_of Alike hclear (Respects.step (x := sizeOfLive P ptr.toNat) _)
      have hvalue : (mmUsableSize P ptr.toNat σ.shim.heap).1 = (sizeOfLive P ptr.toNat σ.shim.heap).1 :=
        Observes.value (x := sizeOfLive P ptr.toNat) hclear
      refine ⟨{ σ.shim with heap := (mmUsableSize P ptr.toNat σ.shim.heap).2 }, ?_,
        hS.alike (hS.out_placed hout).1 hafter⟩
      rw [mallocUsableSize, if_neg h0, hf, if_neg Bool.false_ne_true, if_neg Bool.false_ne_true, Prog.bind_run,
        Prog.read_run, hS.ours_of_out hout, if_pos rfl, inHeap, hvalue]
  · refine ⟨σ.shim, ?_, hS.does⟩
    rw [mallocUsableSize, if_neg h0, hF _ hforeign, if_neg Bool.false_ne_true, Prog.bind_run, Prog.read_run,
      hS.not_ours hforeign, if_neg Bool.false_ne_true, blocks_none (hS.not_has hforeign (hF _ hforeign))]
    rfl

theorem Sound.pageSize (hS : σ.Sound P place F bytes) : σ.shim.heap.pageSize = 4096 := by
  cases hup : σ.shim.ready with
  | true => exact (hS.up hup).elim fun _ hL => hL.pageSize
  | false => exact (hS.down hup).2.pageSize

theorem call_of_run {r : LibcReply} (h : c.run P place out σ.shim = (r, sh)) :
    σ.call P place out c = (r, { σ with shim := sh }.after place c r) := by
  rw [call, h]

/-- A call that does nothing but ask for a new block. -/
theorem Allots.steps {zeroed : Shim → Bool} {x : ShimM Nat}
    (hx : σ.Allots P place F bytes c.aligns n zeroed x) (hn : c.asks = some n)
    (hrun : ∀ p sh, x σ.shim = (p, sh) → c.run P place out σ.shim = (c.answer p, sh))
    (hv : c.valid = false → ∀ p sh, x σ.shim = (p, sh) → p = 0)
    (hz : ∀ sh, zeroed sh = (c.clears && sh.clears))
    (hafter : ∀ (τ : Preloaded) (p : Nat), τ.after place c (c.answer p) = τ.take place p) :
    σ.Steps P place F bytes c (σ.call P place out c).1 (σ.call P place out c).2 := by
  obtain ⟨p, sh, e, hgo, hg, hd⟩ := hx
  rw [call_of_run (hrun p sh hgo), hafter]
  rw [hz] at hg
  refine hd.steps (.asked hn (fun hf => hv hf p sh hgo) ?_)
  rw [take_shim]
  exact hg

end Preloaded

namespace LibcCall

theorem OkFor.modest (hv : c.OkFor place out F σ) (hn : c.asks = some n) (hlt : n < 2 ^ 64) :
    σ.Modest place out n := by
  have hsize : c.size = n := by
    cases c with
    | realloc ptr size =>
      by_cases h0 : ptr.toNat = 0
      · rw [LibcCall.asks, if_pos h0] at hn
        exact Option.some.inj hn
      · rw [LibcCall.asks, if_neg h0] at hn
        exact absurd hn.symm (Option.some_ne_none n)
    | _ => exact congrArg (Option.getD · 0) hn
  refine ⟨fun hd => ?_, fun hd h0 => hv.spare hd (h0 ▸ hn)⟩
  have := hv.size hd
  omega

theorem roundUp_page (hn : n + 4095 < 2 ^ 64) : roundUp n 4096 = (n + 4095) / 4096 * 4096 := by
  have hm : (n + 4095) &&& 4095 = (n + 4095) % 2 ^ 12 := Nat.and_two_pow_sub_one_eq_mod (n + 4095) 12
  have h4095 : 4096 - 1 = 4095 := rfl
  rw [roundUp, h4095, uadd_of_lt hn, and_not_mask hn, hm]
  omega

end LibcCall

namespace Preloaded

theorem Ample.steps (hA : σ.Ample P place out F bytes) (hF : ∀ a, F a → fromPool place a = false)
    (hv : c.OkFor place out F σ) (hle : c.mapping P ≤ bytes) :
    σ.Steps P place F bytes c (σ.call P place out c).1 (σ.call P place out c).2 := by
  have hS := hA.toSound
  have hmap : mappingFor P (sizeFor P (c.demand P)) ≤ bytes := (Nat.le_max_right ..).trans hle
  cases c with
  | start =>
    obtain ⟨sh, hrun, hb⟩ := hS.startup hA.mapping hA.asks
    have hcall : LibcCall.start.run P place out σ.shim = (.void, sh) := by
      rw [LibcCall.run, Prog.bind_run, hrun]
      rfl
    rw [call_of_run hcall]
    exact hb.does.steps .started
  | malloc size =>
    refine (hA.malloc (hv.modest rfl size.toNat_lt) size.toNat_lt hmap).steps rfl (fun p sh hgo => ?_)
      (fun hf => absurd hf.symm Bool.false_ne_true) (fun _ => rfl) fun _ _ => rfl
    rw [LibcCall.run, Prog.bind_run, hgo]
    rfl
  | free ptr =>
    obtain ⟨sh, hrun, hs⟩ := hA.free hF hv.pointer
    have hcall : (LibcCall.free ptr).run P place out σ.shim = (.void, sh) := by
      rw [LibcCall.run, Prog.bind_run, hrun]
      rfl
    rw [call_of_run hcall]
    exact hs
  | calloc nmemb size =>
    refine (hA.calloc (fun hlt => hv.modest rfl hlt) hmap).steps rfl (fun p sh hgo => ?_)
      (fun hf p sh hgo => ?_) (fun _ => rfl) fun _ _ => rfl
    · rw [LibcCall.run, Prog.bind_run, hgo]
      rfl
    · rw [shimCalloc, if_pos (by simpa [LibcCall.valid] using hf)] at hgo
      exact (congrArg Prod.fst hgo).symm
  | realloc ptr size =>
    have hm : ptr.toNat = 0 ∨ size.toNat ≠ 0 → σ.Modest place out size.toNat := fun hm => by
      by_cases h0 : ptr.toNat = 0
      · exact hv.modest (if_pos h0) size.toNat_lt
      · refine ⟨fun hd => (hv.size hd).resolve_right ?_, fun _ hz => absurd hz (hm.resolve_left h0)⟩
        exact Nat.not_le_of_lt size.toNat_lt
    obtain ⟨q, sh, hrun, hs⟩ := hA.realloc hF hv.pointer hm hmap
    have hcall : (LibcCall.realloc ptr size).run P place out σ.shim = (.pointer q, sh) := by
      rw [LibcCall.run, Prog.bind_run, hrun]
      rfl
    rw [call_of_run hcall]
    exact hs
  | alignedAlloc alignment size =>
    refine (hA.alignedAlloc alignment.toNat_lt size.toNat_lt hmap).steps rfl (fun p sh hgo => ?_)
      (fun hf p sh hgo => ?_) (fun _ => rfl) fun _ _ => rfl
    · rw [LibcCall.run, Prog.bind_run, hgo]
      rfl
    · have hp : powerOfTwo alignment.toNat = false := hf
      rw [Mars.alignedAlloc, hp] at hgo
      exact (congrArg Prod.fst hgo).symm
  | posixMemalign alignment size =>
    have hval : (LibcCall.posixMemalign alignment size).valid = true ↔
        ¬ ((!powerOfTwo alignment.toNat) = true ∨ alignment.toNat % 8 ≠ 0) := by
      simp [LibcCall.valid]
    by_cases hok : (!powerOfTwo alignment.toNat) = true ∨ alignment.toNat % 8 ≠ 0
    · have hcall : (LibcCall.posixMemalign alignment size).run P place out σ.shim =
          (.placed (.error .einval), σ.shim) := by
        rw [LibcCall.run, Prog.bind_run, Mars.posixMemalign, if_pos hok]
        rfl
      have hinval : (LibcCall.posixMemalign alignment size).valid = false :=
        Bool.eq_false_iff.mpr fun ht => hval.mp ht hok
      rw [call_of_run hcall]
      refine hS.does.steps ?_
      have hanswer : (LibcCall.posixMemalign alignment size).answer 0 = .placed (.error .einval) := by
        rw [LibcCall.answer, if_neg (not_not.mpr rfl), hinval, if_neg Bool.false_ne_true]
      rw [← hanswer]
      exact .asked (c := .posixMemalign alignment size) rfl (fun _ => rfl) .refused
    · refine (hA.alignedAlloc alignment.toNat_lt size.toNat_lt hmap).steps rfl (fun p sh hgo => ?_)
        (fun hf => absurd (hf.symm.trans (hval.mpr hok)) Bool.false_ne_true) (fun _ => rfl) fun τ p => ?_
      · rw [LibcCall.run, Prog.bind_run, Mars.posixMemalign, if_neg hok, Prog.bind_run, hgo, LibcCall.answer,
          hval.mpr hok]
        by_cases hp : p = 0
        · rw [if_pos hp, if_neg (not_not.mpr hp)]
          rfl
        · rw [if_neg hp, if_pos hp]
          rfl
      · by_cases hp : p = 0
        · rw [hp, LibcCall.answer, if_neg (not_not.mpr rfl)]
          rfl
        · rw [LibcCall.answer, if_pos hp]
          rfl
  | valloc size =>
    refine (hA.alignedAlloc (by decide) size.toNat_lt hmap).steps rfl (fun p sh hgo => ?_)
      (fun hf => absurd hf.symm Bool.false_ne_true) (fun _ => rfl) fun _ _ => rfl
    rw [LibcCall.run, Prog.bind_run, Mars.valloc, Prog.bind_run, Mars.pageSize, Prog.read_run, hS.pageSize, hgo]
    rfl
  | pvalloc size =>
    have hrun : ∀ x : Nat × Shim, (if sizeMax - 4096 < size.toNat then pure 0
        else Mars.alignedAlloc P place out 4096 (roundUp size.toNat 4096) : ShimM Nat) σ.shim = x →
          (LibcCall.pvalloc size).run P place out σ.shim = (.pointer x.1, x.2) := fun x hx => by
      rw [LibcCall.run, Prog.bind_run, Mars.pvalloc, Prog.bind_run, Mars.pageSize, Prog.read_run, hS.pageSize, hx]
      rfl
    have hmax : sizeMax = 2 ^ 64 - 1 := rfl
    by_cases hbig : sizeMax - 4096 < size.toNat
    · rw [call_of_run (hrun (0, σ.shim) (by rw [if_pos hbig]; rfl))]
      exact hS.does.steps (.asked (c := .pvalloc size) rfl (fun _ => rfl) .refused)
    · have hround : roundUp size.toNat 4096 = (size.toNat + 4095) / 4096 * 4096 :=
        LibcCall.roundUp_page (by omega)
      have hx : σ.Allots P place F bytes 4096 (roundUp size.toNat 4096) (fun _ => false)
          (Mars.alignedAlloc P place out 4096 (roundUp size.toNat 4096)) :=
        hA.alignedAlloc (by decide) (by omega) hmap
      rw [hround] at hx
      refine hx.steps (c := .pvalloc size) rfl (fun p sh hgo => ?_) (fun hf => ?_) (fun _ => rfl) fun _ _ => rfl
      · exact hrun (p, sh) (by rw [if_neg hbig, hround, hgo])
      · rw [LibcCall.valid, decide_eq_false_iff_not] at hf
        omega
  | usableSize ptr =>
    obtain ⟨sh, hrun, hd⟩ := hS.usableSize hF hv.pointer
    have hcall : (LibcCall.usableSize ptr).run P place out σ.shim =
        (.size ((σ.blocks P ptr.toNat).elim 0 List.length), sh) := by
      rw [LibcCall.run, Prog.bind_run, hrun]
      rfl
    rw [call_of_run hcall]
    exact hd.steps .measured

theorem Sound.offered (hS : σ.Sound P place F bytes) {supply : List (Option Nat)} {more : Nat}
    (hs : (σ.offered supply).shim.heap.Stocked more (Taken place F)) :
    (σ.offered supply).Sound P place F more ∧ (σ.offered supply).blocks P = σ.blocks P := by
  have hb := hS.orderly.booked
  have horder : (σ.offered supply).shim.heap.Orderly more (Taken place F) :=
    ⟨⟨hb.registry, hb.spanCount, hb.totalBytes, hb.freshSpans, hb.filled, hb.apart, hb.numbered, hb.below⟩, hs,
      hS.orderly.aside⟩
  refine ⟨⟨hS.pool, hS.starting, horder, fun hd => ⟨(hS.down hd).1, ?_⟩, fun hup => ?_⟩, ?_⟩
  · have hz := (hS.down hd).2
    exact ⟨hz.registry, hz.spans, hz.stats, hz.pageSize⟩
  · obtain ⟨L, hL⟩ := hS.up hup
    exact ⟨L, hL.kempt.asked supply, hL.kept, hL.mode, hL.pageSize⟩
  · refine congrArg (Blocks.join _) ?_
    cases hup : σ.shim.ready with
    | true =>
      obtain ⟨L, hL⟩ := hS.up hup
      exact hL.kempt.blocks_asked hL.kept supply
    | false =>
      have hout : (σ.offered supply).out = [] := (hS.down hup).1
      rw [hout, (hS.down hup).1, Heap.blocks_nil, Heap.blocks_nil]

theorem sound_start (mem : Memory) : (start mem).Sound P place F 0 := by
  refine ⟨⟨[], Pool.backs_start⟩, rfl, ⟨Heap.Emptied.booked ⟨rfl, rfl, rfl, rfl, rfl⟩, Heap.stocked_nil rfl,
    fun t ht => absurd ht List.not_mem_nil⟩, fun _ => ⟨rfl, rfl, rfl, rfl, rfl⟩,
    fun hup => absurd hup Bool.false_ne_true⟩

theorem store_start (mem : Memory) : (start mem).store P = ⟨Blocks.empty, true⟩ := rfl

theorem Runs.traces (hr : σ.Runs P place F tr σ') (hF : ∀ a, F a → fromPool place a = false)
    (hS : σ.Sound P place F bytes) :
    (σ.store P).Trace tr (σ'.store P) ∧ (∃ bytes, σ'.Sound P place F bytes) ∧
      ∀ q ∈ σ'.shim.passed, q ∈ σ.shim.passed ∨ F q := by
  induction hr generalizing bytes with
  | done => exact ⟨.done, ⟨bytes, hS⟩, fun q hq => .inl hq⟩
  | @called σ σ' c tr out supply hv hs _ ih =>
    obtain ⟨hS₁, hblocks⟩ := hS.offered hs
    have hv₁ : c.OkFor place out F (σ.offered supply) := ⟨hv.pointer, hv.size, hv.asks, hv.spare⟩
    have hA : (σ.offered supply).Ample P place out F (c.mapping P) :=
      ⟨hS₁, Nat.le_max_left .., hv₁.asks⟩
    have hst := hA.steps hF hv₁ le_rfl
    obtain ⟨ht, hS', hpassed⟩ := ih hst.sound
    have hserves := hst.serves
    rw [Preloaded.store, hblocks] at hserves
    refine ⟨.called hserves ht, hS', fun q hq => ?_⟩
    rcases hpassed q hq with hq | hq
    · exact hst.passed q hq
    · exact .inr hq
  | @poked σ σ' p off bs tr hp hin _ ih =>
    have hd := hS.write hp hin
    obtain ⟨ht, hS', hpassed⟩ := ih hd.sound
    have hstore : (σ.poke place p off bs).store P = ⟨(σ.poke place p off bs).blocks P, (σ.store P).clears⟩ :=
      congrArg (LibcStore.mk _) (Shim.write_clears ..)
    exact ⟨.poked hd.takes (hstore ▸ ht), hS', fun q hq => hd.passed ▸ hpassed q hq⟩

end Preloaded

theorem poolPlace_fits : 65536 + bootstrapBytes < 2 ^ 64 := by decide

def poolPlace : PoolPlace := ⟨65536, rfl, poolPlace_fits⟩

def libcEnv : Outside := ⟨1, false, [8], true, none⟩

namespace Preloaded

def told (σ : Preloaded) (supply : List (Option Nat)) (c : LibcCall) : LibcReply :=
  ((σ.offered supply).call .fast poolPlace libcEnv c).1

def later (σ : Preloaded) (supply : List (Option Nat)) (c : LibcCall) : Preloaded :=
  ((σ.offered supply).call .fast poolPlace libcEnv c).2

theorem Runs.told {r : LibcReply} {supply : List (Option Nat)}
    (hp : c.pointer = 0 ∨ σ.has c.pointer ∨ c.pointer = 32) (hc : c.size < 2 ^ 63 ∧ c.asks ≠ some 0)
    (hs : (σ.offered supply).shim.heap.Stocked (c.mapping .fast) (Taken poolPlace (· = 32)))
    (hreply : σ.told supply c = r) (hr : (σ.later supply c).Runs .fast poolPlace (· = 32) tr σ') :
    σ.Runs .fast poolPlace (· = 32) ((.call c, r) :: tr) σ' := by
  have hasks : ∀ n ∈ libcEnv.asks, n.toNat < 2 ^ 63 := fun n hn => by
    rw [List.mem_singleton.mp hn]
    decide
  rw [← hreply]
  exact .called libcEnv supply ⟨hp, fun _ => .inl hc.1, fun _ => hasks, fun _ h0 => absurd h0 hc.2⟩ hs hr

end Preloaded

/-- No arena can be had yet, and the pool answers. -/
def pooledProgram : Preloaded := (Preloaded.start ⟨0⟩).later [] (.malloc 24)

def storedProgram : Preloaded := pooledProgram.poke poolPlace 65584 0 [1, 2, 3]

def risenProgram : Preloaded := storedProgram.later [some 131072] .start

def movedProgram : Preloaded := risenProgram.later [] (.realloc 65584 40)

def clearedProgram : Preloaded := movedProgram.later [] (.calloc 3 5)

/-- A pointer to another allocator's memory is freed. -/
def lastProgram : Preloaded := clearedProgram.later [] (.free 32)

def programTrace : List (LibcAction × LibcReply) :=
  [(.call (.malloc 24), .pointer 65584), (.poke 65584 0 [1, 2, 3], .void), (.call .start, .void),
    (.call (.realloc 65584 40), .pointer 2097168), (.call (.calloc 3 5), .pointer 2097216),
    (.call (.free 32), .void)]

theorem program_told : (Preloaded.start ⟨0⟩).told [] (.malloc 24) = .pointer 65584 ∧
    (pooledProgram.has 65584 ∧ 0 + 3 ≤ pooledProgram.room .fast poolPlace 65584) ∧
    storedProgram.shim.heap.spans.isEmpty = true ∧
    (0 < 131072 ∧ 131072 + LibcCall.start.mapping .fast ≤ 2 ^ 56) ∧ risenProgram.has 65584 ∧
    risenProgram.told [] (.realloc 65584 40) = .pointer 2097168 ∧
    movedProgram.told [] (.calloc 3 5) = .pointer 2097216 ∧ lastProgram.shim.ready = true := by
  decide +kernel

theorem risen_stocked : (storedProgram.offered [some 131072]).shim.heap.Stocked (LibcCall.start.mapping .fast)
    (Taken poolPlace (· = 32)) := by
  obtain ⟨-, -, hempty, hlow, -⟩ := program_told
  refine Heap.stocked_one rfl hlow (fun t ht => ?_) fun a ha => .inl ?_
  · have hbare : (storedProgram.offered [some 131072]).shim.heap.spans = [] := List.isEmpty_iff.mp hempty
    rw [hbare] at ht
    exact absurd ht List.not_mem_nil
  · rcases ha with rfl | ha
    · decide
    · exact (fromPool_iff.mp ha).2

theorem foreign_beside (a : Nat) (ha : a = 32) : fromPool poolPlace a = false := by
  rw [ha]
  decide

theorem program_runs :
    (Preloaded.start ⟨0⟩).Runs .fast poolPlace (· = 32) programTrace lastProgram := by
  obtain ⟨hpooled, hroom, -, -, hhas, hmoved, hcleared, -⟩ := program_told
  refine .told (.inl rfl) (by decide) (Heap.stocked_nil rfl) hpooled ?_
  refine .poked hroom.1 hroom.2 ?_
  refine .told (.inl rfl) (by decide) risen_stocked rfl ?_
  refine .told (.inr (.inl hhas)) (by decide) (Heap.stocked_nil rfl) hmoved ?_
  refine .told (.inl rfl) (by decide) (Heap.stocked_nil rfl) hcleared ?_
  exact .told (.inr (.inr rfl)) (by decide) (Heap.stocked_nil rfl) rfl .done

end Mars
