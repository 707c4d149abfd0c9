import MarsAllocator.Model.Bootstrap
import MarsAllocator.Steps.Sizes
import Mathlib.Data.List.Induction

namespace Mars

open ByteMemory

variable {place : PoolPlace} {σ : PoolRun} {size : UInt64} {sizes : List UInt64}

/-- The bytes a result stands for, its header first. -/
def PoolGrant.Apart (g g' : PoolGrant) : Prop :=
  g.ptr + g.size.toNat ≤ g'.ptr - poolHdrSize ∨ g'.ptr + g'.size.toNat ≤ g.ptr - poolHdrSize

structure PoolRun.Sound (place : PoolPlace) (σ : PoolRun) : Prop where
  room : σ.pool.used ≤ bootstrapBytes
  aligned : ∀ g ∈ σ.grants, g.ptr % 16 = 0
  inside : ∀ g ∈ σ.grants, place.base + poolHdrSize ≤ g.ptr ∧
    g.ptr + g.size.toNat ≤ place.base + bootstrapBytes
  disjoint : σ.grants.Pairwise PoolGrant.Apart
  sized : ∀ g ∈ σ.grants, poolSizeOf σ.pool g.ptr = g.size.toNat

/-- Every state of the run is sound and no request takes `g_pool_used` back. -/
structure PoolServes (place : PoolPlace) (sizes : List UInt64) : Prop where
  sound : ∀ lead, lead <+: sizes → (PoolRun.play place lead).Sound place
  grows : ∀ lead size, lead ++ [size] <+: sizes →
    (PoolRun.play place lead).pool.used ≤ (PoolRun.play place (lead ++ [size])).pool.used

/-- The request is refused as too large by itself, or does not carry `g_pool_used` round. -/
def Pool.Unwrapped (pool : Pool) (size : Nat) : Prop :=
  2 ^ 64 - 32 < size ∨ pool.used + poolHdrSize + (size + 15) / 16 * 16 < 2 ^ 64

theorem poolNeed_of_le {n : Nat} (h : n ≤ 2 ^ 64 - 32) :
    poolNeed n = poolHdrSize + (n + 15) / 16 * 16 := by
  have hr : roundUp n 16 = (n + 15) / 16 * 16 := roundUp_alignment (by omega)
  rw [poolNeed, hr, uadd_of_lt (by rw [poolHdrSize]; omega)]

theorem poolNeed_lt {n : Nat} (h : 2 ^ 64 - 32 < n) (hn : n < 2 ^ 64) : poolNeed n < n := by
  rcases Nat.lt_or_ge (n + 15) (2 ^ 64) with hs | hs
  · have hr : roundUp n 16 = (n + 15) / 16 * 16 := roundUp_alignment hs
    rw [poolNeed, hr, uadd, poolHdrSize]
    omega
  · have hm : uadd n 15 < 2 ^ 4 := by
      rw [uadd]
      omega
    have hx : uadd n 15 &&& 15 = uadd n 15 :=
      (Nat.and_two_pow_sub_one_eq_mod _ 4).trans (Nat.mod_eq_of_lt hm)
    have h0 : roundUp n 16 = 0 := by
      rw [roundUp, and_not_mask (uadd_lt _ _), hx, Nat.sub_self]
    rw [poolNeed, h0, uadd, poolHdrSize]
    omega

variable (place) in
theorem poolAlloc_cases {pool : Pool} {n : Nat} (hn : n < 2 ^ 64) (hw : pool.Unwrapped n) :
    poolAlloc place n pool = (0, pool) ∨
      ∃ used peak, pool.used + poolHdrSize + n ≤ used ∧ used ≤ bootstrapBytes ∧
        (pool.used % 16 = 0 → used % 16 = 0) ∧
        poolAlloc place n pool = (place.base + pool.used + poolHdrSize,
          ⟨(pool.mem.store (place.base + pool.used) 8 n).store (place.base + pool.used + 8) 8 0,
            used, peak⟩) := by
  rw [poolAlloc]
  dsimp only
  split_ifs with hc
  · exact .inl rfl
  obtain ⟨hneed, hroom⟩ := not_or.mp hc
  rcases hw with hbig | hfit
  · exact absurd (poolNeed_lt hbig hn) hneed
  have hle : n ≤ 2 ^ 64 - 32 := by
    by_contra hgt
    exact hneed (poolNeed_lt (by omega) hn)
  have hlen := poolNeed_of_le hle
  have hu : uadd pool.used (poolNeed n) = pool.used + poolNeed n :=
    uadd_of_lt (by rw [hlen]; omega)
  rw [hu] at hroom ⊢
  refine .inr ⟨_, _, ?_, Nat.le_of_not_lt hroom, fun h => ?_, rfl⟩
  · rw [hlen]
    omega
  · rw [hlen, poolHdrSize]
    omega

variable (place) in
theorem poolAlloc_wraps {pool : Pool} {n : Nat} (hroom : pool.used ≤ bootstrapBytes)
    (hw : ¬ pool.Unwrapped n) : (poolAlloc place n pool).2.used < pool.used := by
  obtain ⟨hle, hwrap⟩ := not_or.mp hw
  have hlen := poolNeed_of_le (Nat.le_of_not_lt hle)
  rw [bootstrapBytes] at hroom
  rw [poolHdrSize] at hwrap hlen
  have hu : uadd pool.used (poolNeed n) = pool.used + poolNeed n - 2 ^ 64 := by
    rw [uadd, hlen]
    omega
  rw [poolAlloc]
  dsimp only
  rw [if_neg, hu, hlen]
  · dsimp only
    omega
  · rw [hu, hlen, bootstrapBytes]
    omega

/-- Where the requests so far have left the pool. -/
structure PoolRun.Tight (place : PoolPlace) (σ : PoolRun) : Prop extends σ.Sound place where
  whole : σ.pool.used % 16 = 0
  below : ∀ g ∈ σ.grants, g.ptr + g.size.toNat ≤ place.base + σ.pool.used

namespace PoolRun

theorem tight_start : PoolRun.start.Tight place where
  room := Nat.zero_le _
  aligned := by simp [PoolRun.start]
  inside := by simp [PoolRun.start]
  disjoint := .nil
  sized := by simp [PoolRun.start]
  whole := rfl
  below := by simp [PoolRun.start]

theorem Tight.next (h : σ.Tight place) (hw : σ.pool.Unwrapped size.toNat) :
    (σ.next place size).Tight place ∧ σ.pool.used ≤ (σ.next place size).pool.used := by
  have hn : size.toNat < 2 ^ 64 := size.toNat_lt
  rcases poolAlloc_cases place hn hw with hnull | ⟨used, peak, hlen, hroom, hw16, heq⟩
  · rw [PoolRun.next, hnull]
    exact ⟨h, Nat.le_refl _⟩
  have hp : place.base + σ.pool.used + poolHdrSize ≠ 0 := by rw [poolHdrSize]; omega
  have hnext : σ.next place size = ⟨⟨(σ.pool.mem.store (place.base + σ.pool.used) 8
      size.toNat).store (place.base + σ.pool.used + 8) 8 0, used, peak⟩,
      σ.grants ++ [⟨place.base + σ.pool.used + poolHdrSize, size⟩]⟩ := by
    rw [PoolRun.next, heq]
    rfl
  rw [hnext]
  have hin := h.inside
  have hal := place.aligned
  have hwh := h.whole
  rw [poolHdrSize] at hlen hin
  refine ⟨⟨⟨hroom, ?_, ?_, ?_, ?_⟩, hw16 hwh, ?_⟩, by dsimp only; omega⟩
  · intro g hg
    rcases List.mem_append.mp hg with hg | hg
    · exact h.aligned g hg
    · obtain rfl := List.mem_singleton.mp hg
      rw [poolHdrSize]
      dsimp only
      omega
  · intro g hg
    rcases List.mem_append.mp hg with hg | hg
    · exact h.inside g hg
    · obtain rfl := List.mem_singleton.mp hg
      rw [poolHdrSize]
      dsimp only
      omega
  · refine List.pairwise_append.mpr ⟨h.disjoint, List.pairwise_singleton _ _, ?_⟩
    intro g hg g' hg'
    obtain rfl := List.mem_singleton.mp hg'
    exact .inl (by simpa using h.below g hg)
  · intro g hg
    rcases List.mem_append.mp hg with hg | hg
    · have hbel := h.below g hg
      have hlo := hin g hg
      rw [← h.sized g hg, poolSizeOf, poolSizeOf, poolHdrSize,
        Memory.load_store_of_disjoint (.inl (by omega)), Memory.load_store_of_disjoint (.inl (by omega))]
    · obtain rfl := List.mem_singleton.mp hg
      dsimp only
      rw [poolSizeOf, Nat.add_sub_cancel, Memory.load_store_of_disjoint (.inl (by omega)),
        Memory.load_store_self]
      exact Nat.mod_eq_of_lt hn
  · intro g hg
    rcases List.mem_append.mp hg with hg | hg
    · exact (h.below g hg).trans (by dsimp only; omega)
    · obtain rfl := List.mem_singleton.mp hg
      rw [poolHdrSize]
      dsimp only
      omega

theorem play_snoc : play place (sizes ++ [size]) = (play place sizes).next place size := by
  rw [play, List.foldl_append]
  rfl

theorem tight_play (hw : ∀ lead size, lead ++ [size] <+: sizes →
    (play place lead).pool.Unwrapped size.toNat) : (play place sizes).Tight place := by
  induction sizes using List.reverseRecOn with
  | nil => exact tight_start
  | append_singleton sizes size ih =>
    rw [play_snoc]
    refine (Tight.next (ih fun lead s hs => ?_) (hw sizes size List.prefix_rfl)).1
    exact hw lead s (hs.trans (List.prefix_append _ _))

end PoolRun

theorem bootstrap_pool_iff (place : PoolPlace) (sizes : List UInt64) :
    PoolServes place sizes ↔ ∀ lead size, lead ++ [size] <+: sizes →
      (PoolRun.play place lead).pool.Unwrapped size.toNat := by
  constructor
  · intro hs lead size hl
    by_contra hw
    have hlead : lead <+: sizes := (List.prefix_append _ _).trans hl
    have hback := poolAlloc_wraps place (hs.sound lead hlead).room hw
    have hgrow := hs.grows lead size hl
    rw [PoolRun.play_snoc, PoolRun.next] at hgrow
    split at hgrow <;> rename_i heq <;> rw [heq] at hback <;> exact absurd hgrow hback.not_ge
  · intro hw
    have htight : ∀ lead, lead <+: sizes → (PoolRun.play place lead).Tight place :=
      fun lead hl => PoolRun.tight_play fun l s hs => hw l s (hs.trans hl)
    refine ⟨fun lead hl => (htight lead hl).toSound, fun lead size hl => ?_⟩
    rw [PoolRun.play_snoc]
    exact ((htight lead ((List.prefix_append _ _).trans hl)).next (hw lead size hl)).2

/-- After 32 bytes, all the address space but 64 of them. -/
theorem bootstrap_pool_wraps : ¬ ∀ place sizes, PoolServes place sizes := by
  intro hall
  have hgrow := (hall ⟨4096, by decide, by decide⟩ [32, 0xFFFFFFFFFFFFFFC0]).grows [32]
    0xFFFFFFFFFFFFFFC0 List.prefix_rfl
  revert hgrow
  decide

end Mars
