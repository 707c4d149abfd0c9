import MarsAllocator.Library.ByteStore
import MarsAllocator.Model.Shim
import MarsAllocator.Properties.Bootstrap
import Mathlib.Data.List.Pairwise

namespace Mars

open ByteMemory ByteStore

variable {place : PoolPlace} {pool : Pool} {grants : List PoolGrant} {held : List Nat} {n off p q : Nat}
  {bs : List UInt8}

def Pool.payload (pool : Pool) (p : Nat) : List UInt8 := pool.mem.bytes p (poolSizeOf pool p)

/-- The pool, and the blocks of it that a program has. -/
structure Pool.Backs (place : PoolPlace) (pool : Pool) (grants : List PoolGrant) (held : List Nat) :
    Prop where
  tight : (PoolRun.mk pool grants).Tight place
  blank : ∀ a, place.base + pool.used ≤ a → pool.mem.byte a = 0
  granted : ∀ p ∈ held, ∃ g ∈ grants, g.ptr = p
  inside : ∀ p ∈ held, fromPool place p = true
  nodup : held.Nodup

theorem fromPool_iff : fromPool place p = true ↔ place.base ≤ p ∧ p < place.base + bootstrapBytes := by
  rw [fromPool, Bool.and_eq_true, decide_eq_true_eq, decide_eq_true_eq]

theorem Pool.backs_start : Pool.start.Backs place [] [] := by
  refine ⟨PoolRun.tight_start, fun a _ => ?_, fun p hp => ?_, fun p hp => ?_, List.nodup_nil⟩
  · simp [Pool.start, Memory.byte, Memory.load]
  · exact absurd hp List.not_mem_nil
  · exact absurd hp List.not_mem_nil

namespace Pool.Backs

variable (hB : pool.Backs place grants held)
include hB

theorem bounds (hp : p ∈ held) : p % 16 = 0 ∧ place.base + poolHdrSize ≤ p ∧
    p + poolSizeOf pool p ≤ place.base + pool.used ∧ pool.used ≤ bootstrapBytes := by
  obtain ⟨g, hg, rfl⟩ := hB.granted p hp
  have hsize := hB.tight.sized g hg
  have hbelow := hB.tight.below g hg
  dsimp only at hsize hbelow
  rw [hsize]
  exact ⟨hB.tight.aligned g hg, (hB.tight.inside g hg).1, hbelow, hB.tight.room⟩

theorem drop (p : Nat) : pool.Backs place grants (held.erase p) :=
  ⟨hB.tight, hB.blank, fun q hq => hB.granted q (List.mem_of_mem_erase hq),
    fun q hq => hB.inside q (List.mem_of_mem_erase hq), hB.nodup.erase p⟩

theorem apart (hp : p ∈ held) (hq : q ∈ held) (hne : p ≠ q) :
    p + poolSizeOf pool p + poolHdrSize ≤ q ∨ q + poolSizeOf pool q + poolHdrSize ≤ p := by
  obtain ⟨g, hg, rfl⟩ := hB.granted p hp
  obtain ⟨g', hg', rfl⟩ := hB.granted q hq
  have hsym : Std.Symm PoolGrant.Apart := ⟨fun _ _ => Or.symm⟩
  have hap := hB.tight.disjoint.forall hg hg' fun he => hne (congrArg PoolGrant.ptr he)
  have hin := (hB.tight.inside g hg).1
  have hin' := (hB.tight.inside g' hg').1
  have hs := hB.tight.sized g hg
  have hs' := hB.tight.sized g' hg'
  dsimp only at hs hs'
  rw [hs, hs']
  rw [PoolGrant.Apart] at hap
  omega

theorem alloc (hn : n < 2 ^ 63) : poolAlloc place n pool = (0, pool) ∨
    ∃ p pool' grants', poolAlloc place n pool = (p, pool') ∧ p = place.base + pool.used + poolHdrSize ∧
      p + n ≤ place.base + bootstrapBytes ∧ pool'.Backs place grants' held ∧
      (∃ g ∈ grants', g.ptr = p) ∧ pool'.payload p = List.replicate n 0 ∧
      ∀ q ∈ held, pool'.payload q = pool.payload q := by
  have hroom := hB.tight.room
  rw [bootstrapBytes] at hroom
  have hto : (UInt64.ofNat n).toNat = n := by
    rw [UInt64.toNat_ofNat']
    exact Nat.mod_eq_of_lt (by omega)
  have hw : pool.Unwrapped n := .inr (by
    dsimp only at hroom
    rw [poolHdrSize]
    omega)
  rcases poolAlloc_cases place (by omega) hw with hnull | ⟨used, peak, hlen, hfit, -, heq⟩
  · exact .inl hnull
  obtain ⟨pool', hpool⟩ : ∃ pool' : Pool, pool' =
      ⟨(pool.mem.store (place.base + pool.used) 8 n).store (place.base + pool.used + 8) 8 0, used, peak⟩ :=
    ⟨_, rfl⟩
  obtain ⟨p, hp⟩ : ∃ p, p = place.base + pool.used + poolHdrSize := ⟨_, rfl⟩
  rw [← hpool, ← hp] at heq
  obtain ⟨grants', hgrants⟩ : ∃ grants' : List PoolGrant, grants' = grants ++ [⟨p, UInt64.ofNat n⟩] :=
    ⟨_, rfl⟩
  have hp0 : p ≠ 0 := by
    rw [hp, poolHdrSize]
    omega
  have hnext : (PoolRun.mk pool grants).next place (UInt64.ofNat n) = ⟨pool', grants'⟩ := by
    rw [PoolRun.next, hto, heq, hgrants]
    cases p with
    | zero => exact absurd rfl hp0
    | succ p => rfl
  have htight : (PoolRun.mk pool' grants').Tight place := by
    rw [← hnext]
    exact (hB.tight.next (hto.symm ▸ hw)).1
  have hagree : Memory.AgreeOff pool.mem pool'.mem (place.base + pool.used) p := by
    rw [hpool, hp, poolHdrSize]
    exact ((Memory.agreeOff_store _ _ _ _).mono le_rfl (by omega)).store (by omega) (by omega)
  have hused : pool'.used = used := by rw [hpool]
  have hmem : ∀ g ∈ grants, g ∈ grants' := fun g hg => hgrants ▸ List.mem_append_left _ hg
  have hnew : ⟨p, UInt64.ofNat n⟩ ∈ grants' := hgrants ▸ List.mem_append_right _ (List.mem_singleton.mpr rfl)
  refine .inr ⟨p, pool', grants', heq, hp, by omega, ⟨htight, fun a ha => ?_, fun q hq => ?_, hB.inside,
    hB.nodup⟩, ⟨_, hnew, rfl⟩, ?_, fun q hq => ?_⟩
  · exact (hagree a (.inr (by omega))).trans (hB.blank a (by omega))
  · exact (hB.granted q hq).imp fun g hg => ⟨hmem g hg.1, hg.2⟩
  · have hs := htight.sized _ hnew
    dsimp only at hs
    rw [Pool.payload, hs, hto]
    refine Memory.bytes_eq_replicate fun i hi => ?_
    exact (hagree _ (.inr (by omega))).trans (hB.blank _ (by omega))
  · obtain ⟨-, -, hhi, -⟩ := hB.bounds hq
    obtain ⟨g, hg, rfl⟩ := hB.granted q hq
    have hs := hB.tight.sized g hg
    have hs' := htight.sized g (hmem g hg)
    dsimp only at hs hs'
    rw [Pool.payload, Pool.payload, hs', hs]
    exact Memory.bytes_eq_iff.mpr (hagree.load (.inl (hs ▸ hhi)))

theorem take {pool' : Pool} {grants' : List PoolGrant} (hB' : pool'.Backs place grants' held)
    (hp : p = place.base + pool.used + poolHdrSize) (hg : ∃ g ∈ grants', g.ptr = p)
    (hin : fromPool place p = true) (hsame : ∀ q ∈ held, pool'.payload q = pool.payload q) :
    pool'.Backs place grants' (p :: held) ∧ Blocks.Takes (Blocks.listed held pool.payload)
      (.allocated p (pool'.payload p)) (Blocks.listed (p :: held) pool'.payload) := by
  have hpast : ∀ q ∈ held, q + poolSizeOf pool q + poolHdrSize ≤ p := fun q hq => by
    have := (hB.bounds hq).2.2.1
    omega
  have hout : p ∉ held := fun hmem => by
    have := hpast p hmem
    rw [poolHdrSize] at this
    omega
  refine ⟨⟨hB'.tight, hB'.blank, fun q hq => ?_, fun q hq => ?_, List.nodup_cons.mpr ⟨hout, hB.nodup⟩⟩, ?_⟩
  · rcases List.mem_cons.mp hq with rfl | hq
    · exact hg
    · exact hB'.granted q hq
  · rcases List.mem_cons.mp hq with rfl | hq
    · exact hin
    · exact hB.inside q hq
  · rw [Blocks.listed_cons, Blocks.listed_congr hsame]
    refine .allocated ⟨Blocks.listed_of_notMem hout, fun q cs hq => .inr ?_⟩
    obtain ⟨hmem, rfl⟩ := Blocks.mem_of_listed hq
    have := hpast q hmem
    rw [Pool.payload, Memory.length_bytes]
    omega

theorem free (hp : p ∈ held) : Blocks.Takes (Blocks.listed held pool.payload) (.freed p)
    (Blocks.listed (held.erase p) pool.payload) := by
  rw [Blocks.listed_erase hB.nodup]
  exact .freed (Blocks.listed_of_mem hp)

theorem write (hp : p ∈ held) (hin : off + bs.length ≤ poolSizeOf pool p) :
    { pool with mem := pool.mem.storeBytes (p + off) bs }.Backs place grants held ∧
      Blocks.Takes (Blocks.listed held pool.payload) (.wrote p off bs)
        (Blocks.listed held (Pool.payload { pool with mem := pool.mem.storeBytes (p + off) bs })) := by
  obtain ⟨-, hlo, hhi, -⟩ := hB.bounds hp
  obtain ⟨pool', hpool⟩ : ∃ pool' : Pool, pool' = { pool with mem := pool.mem.storeBytes (p + off) bs } :=
    ⟨_, rfl⟩
  rw [← hpool]
  have hagree : Memory.AgreeOff pool.mem pool'.mem (p + off) (p + off + bs.length) := by
    rw [hpool]
    exact Memory.agreeOff_store _ _ _ _
  have hsame : ∀ g ∈ grants, poolSizeOf pool' g.ptr = poolSizeOf pool g.ptr := by
    intro g hg
    obtain ⟨g', hg', rfl⟩ := hB.granted p hp
    have hs' := hB.tight.sized g' hg'
    have hlo' := (hB.tight.inside g hg).1
    dsimp only at hs'
    rw [poolHdrSize] at hlo'
    refine hagree.load ?_
    by_cases he : g' = g
    · rw [← he] at hlo' ⊢
      rw [poolHdrSize]
      omega
    · have hsym : Std.Symm PoolGrant.Apart := ⟨fun _ _ => Or.symm⟩
      have hap := hB.tight.disjoint.forall hg' hg he
      rw [PoolGrant.Apart, poolHdrSize] at hap
      rw [poolHdrSize]
      omega
  have hused : pool'.used = pool.used := by rw [hpool]
  have htight : (PoolRun.mk pool' grants).Tight place := by
    have ht := hB.tight
    refine ⟨⟨hused ▸ ht.room, ht.aligned, ht.inside, ht.disjoint, fun g hg => ?_⟩, hused ▸ ht.whole,
      hused ▸ ht.below⟩
    exact (hsame g hg).trans (ht.sized g hg)
  refine ⟨⟨htight, fun a ha => ?_, hB.granted, hB.inside, hB.nodup⟩, ?_⟩
  · rw [hused] at ha
    exact (hagree a (.inr (by omega))).trans (hB.blank a ha)
  have hsize : ∀ q ∈ held, poolSizeOf pool' q = poolSizeOf pool q := fun q hq => by
    obtain ⟨g, hg, rfl⟩ := hB.granted q hq
    exact hsame g hg
  have hput : Blocks.listed held pool'.payload = (Blocks.listed held pool.payload).put p (pool'.payload p) := by
    refine Blocks.listed_put hp fun q hq hne => ?_
    have := hB.apart hp hq hne.symm
    rw [Pool.payload, Pool.payload, hsize q hq]
    refine Memory.bytes_eq_iff.mpr (hagree.load ?_)
    omega
  have hnow : pool'.payload p = splice (pool.payload p) off bs := by
    rw [Pool.payload, hsize p hp, hpool]
    exact Memory.bytes_storeBytes_within _ hin
  rw [hput, hnow]
  refine .wrote (Blocks.listed_of_mem hp) ?_
  rw [Pool.payload, Memory.length_bytes]
  exact hin

end Pool.Backs

end Mars
