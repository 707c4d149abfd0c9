import MarsAllocator.Model.Session
import MarsAllocator.Steps.FastCalls
import MarsAllocator.Steps.Loops

namespace Mars

open ByteMemory StateProgram

variable {s : Span} {m : Memory} {h h' : Heap} {b : Nat}

theorem confined_load {n a : Nat} (hc : Confined s m h) (hlo : s.lo ≤ a) (hhi : a + n ≤ s.hi) :
    Still (loadN a n) h := Still.loadN (hc.covers hlo hhi)

theorem confined_memcpy (hc : Confined s m h) {dst src n : Nat} (hd : s.lo ≤ dst)
    (hd' : dst + n ≤ s.hi) (hsrc : s.lo ≤ src) (hsrc' : src + n ≤ s.hi) :
    Confined s m (memcpy dst src n h).2 := by
  rw [memcpy, bind_still (confined_load hc hsrc hsrc'), storeN_run hc hd hd']
  exact hc.store hd hd'

section Sized

variable (hs : s.hi - s.lo < 2 ^ 58)
include hs

theorem confined_reallocInPlace (hc : Confined s m h) (p newSize : Nat) :
    wp (reallocInPlace .fast p newSize) (fun r h' => Confined s m h' ∧
      ∀ oldSize oldSum, r = .move oldSize oldSum → s.lo ≤ p ∧ p + oldSize ≤ s.hi) h := by
  have hdone {h' : Heap} (hc' : Confined s m h') : Confined s m h' ∧
      ∀ oldSize oldSum, (Resize.done 0) = .move oldSize oldSum → s.lo ≤ p ∧ p + oldSize ≤ s.hi :=
    ⟨hc', fun _ _ hr => absurd hr (by simp)⟩
  refine wp_seq (confined_liveBlock hs hc p) fun b h₁ ⟨hc₁, hl⟩ => ?_
  rw [wp_ite]
  split
  · exact hdone hc₁
  rename_i hb0
  obtain ⟨hp, he, hmin⟩ := hl.resolve_left hb0
  refine wp_still (still_isUsed (he.room.covers8 hc₁)) ?_
  rw [wp_ite]
  split
  · exact wp_aside hc₁ fun _ h₂ hc₂ _ => hdone hc₂
  rw [fast_canaryOk, pure_bind_run, wp_ite, if_neg (by decide), wp_ite]
  split
  · exact wp_aside hc₁ fun _ h₂ hc₂ _ => hdone hc₂
  refine wp_mono (confined_resizeLive hs hc₁ he hmin newSize) fun r h₂ ⟨hc₂, hr⟩ => ⟨hc₂, ?_⟩
  intro oldSize oldSum hmove
  have := hr oldSize oldSum hmove
  have := he.room.1
  omega

theorem confined_reallocCopy (hc : Confined s m h) {p oldSize : Nat} (hp : s.lo ≤ p)
    (hp' : p + oldSize ≤ s.hi) (oldSum newSize : Nat) :
    Confined s m (reallocCopy .fast p oldSize oldSum newSize h).2 := by
  have hw : wp (reallocCopy .fast p oldSize oldSum newSize) (fun _ h' => Confined s m h') h := by
    refine wp_seq (confined_mallocUnlocked hs hc newSize) fun fresh h₁ hpost => ?_
    obtain ⟨hc₁, hg⟩ := hpost
    rw [wp_ite]
    split
    · exact hc₁
    rename_i h0
    obtain ⟨hlo, hhi⟩ := (hg.resolve_left h0).bounds
    rw [wp_bind, wp]
    have hc₂ := confined_memcpy hc₁ (n := min oldSize newSize) hlo (by omega) hp (by omega)
    generalize (memcpy fresh.1 p (min oldSize newSize) h₁).2 = h₂ at hc₂
    refine wp_seq (confined_blockOf hc₂ fresh.1) fun fb h₃ hpost => ?_
    have hc₃ := hpost.1
    have hcarry : wp (Prog.when (fb ≠ 0) do
        carryPayloadCrc .fast fb (min oldSize newSize) oldSum newSize
        sealHeader .fast fb) (fun _ h' => Confined s m h') h₃ := by
      rw [wp_when]
      split
      · rw [wp_bind, wp, fast_sealHeader]
        exact confined_carryPayloadCrc hc₃ fb (min oldSize newSize) oldSum newSize
      · exact hc₃
    exact wp_seq hcarry fun _ h₄ hc₄ => hc₄
  exact hw

variable (hu : s.kind = .user)
include hu

theorem confined_reallocUnlocked (hc : Confined s m h) (p newSize : Nat) :
    Confined s m (reallocUnlocked .fast p newSize h).2 := by
  have hw : wp (reallocUnlocked .fast p newSize) (fun _ h' => Confined s m h') h := by
    refine wp_aside hc fun _ h₁ hc₁ _ => ?_
    rw [wp_ite]
    split
    · exact wp_seq (confined_mallocUnlocked hs hc₁ newSize) fun _ h₂ hc₂ => hc₂.1
    rw [wp_ite]
    split
    · rw [wp_bind, wp]
      exact confined_freeUnlocked hs hu hc₁ p
    refine wp_seq (confined_reallocInPlace hs hc₁ p newSize) fun r h₂ hpost => ?_
    obtain ⟨hc₂, hr⟩ := hpost
    rcases r with q | ⟨oldSize, oldSum⟩
    · exact hc₂
    obtain ⟨hlo, hhi⟩ := hr oldSize oldSum rfl
    change wp (reallocMove .fast p oldSize oldSum newSize) (fun _ h' => Confined s m h') h₂
    rw [reallocMove, wp_bind, wp]
    have hc₃ := confined_reallocCopy hs hc₂ hlo hhi oldSum newSize
    generalize (reallocCopy .fast p oldSize oldSum newSize h₂).1 = fresh
    generalize (reallocCopy .fast p oldSize oldSum newSize h₂).2 = h₃ at hc₃
    have hfree : wp (Prog.when (fresh ≠ 0) (freeUnlocked .fast p)) (fun _ h' => Confined s m h')
        h₃ := by
      rw [wp_when]
      split
      · exact confined_freeUnlocked hs hu hc₃ p
      · exact hc₃
    exact wp_seq hfree fun _ h₄ hc₄ => hc₄
  exact hw

omit hs hu in
theorem size_writeTail {n : Nat} (hn : n < 2 ^ 58) :
    wordSize ((writeTail .fast b n h).2.word b) = n / 16 * 16 := by
  change wordSize ((setPrevInUse b true (setWord b n Profile.fast.trail true false
    (store64 b 0 h).2).2).2.word b) = _
  rw [size_setPrevInUse, word_setWord hn (by decide), wordSize_mkWord_div (by decide)]

theorem confined_memalignCut (hc : Confined s m h) {total front want need : Nat}
    (he : Extent s b total) (hwant : want = b + front + 8) (hmin : 32 ≤ need)
    (hd : need % 16 = 0) (hle : front + need ≤ total) (size : Nat) :
    Confined s m (memalignCut .fast b total front want need size h).2 := by
  have hw : wp (memalignCut .fast b total front want need size) (fun _ h' => Confined s m h') h := by
    have hb := he.room
    have hend := he.end_le
    have hlt := he.lt
    have hlo := hb.1
    have htail : want - Profile.fast.hdrSize = b + front := by
      have hhdr : Profile.fast.hdrSize = 8 := rfl
      omega
    have hroom : Room .fast s (b + front) := by
      have hmin32 : Profile.fast.minBlock = 32 := rfl
      exact ⟨by omega, by omega⟩
    rw [memalignCut, htail, wp_bind, wp]
    have hc₁ := (confined_statSub hc hb).1
    generalize (statSub .fast b h).2 = h₁ at hc₁
    rw [wp_bind, wp]
    have hc₂ := confined_setBlockSize hc₁ hb front
    generalize (setBlockSize b front h₁).2 = h₂ at hc₂
    rw [fast_sealHeader, pure_bind_run, wp_bind, wp]
    have hc₃ := confined_writeTail hc₂ hroom (total - front)
    have hw₃ := size_writeTail (b := b + front) (h := h₂) (n := total - front) (by omega)
    generalize (writeTail .fast (b + front) (total - front) h₂).2 = h₃ at hc₃ hw₃
    rw [wp_bind, wp]
    have hc₄ := confined_splitBlock hs hc₃ hroom (by rw [hw₃]; omega)
      (show need ≤ _ by rw [hw₃]; omega)
    generalize (splitBlock .fast (b + front) need h₃).2 = h₄ at hc₄
    rw [wp_bind, wp]
    have hc₅ := confined_finishAllocation hs hc₄ hroom size
    generalize (finishAllocation .fast (b + front) size h₄).1 = ok
    generalize (finishAllocation .fast (b + front) size h₄).2 = h₅ at hc₅
    rw [wp_ite]
    split
    · rw [wp_bind, wp]
      have hc₆ := (confined_statAdd hc₅ hroom).1
      generalize (statAdd .fast (b + front) h₅).2 = h₆ at hc₆
      exact confined_release hs hu hc₆ hb
    · rw [wp_bind, wp]
      exact confined_scrubTick hs hc₅
  exact hw

variable (h64 : s.hi < 2 ^ 64)
include h64

theorem confined_memalignUnlocked (hc : Confined s m h) {align : Nat} (ha : align ≤ 2 ^ 63)
    (size : Nat) : Confined s m (memalignUnlocked .fast align size h).2 := by
  have hw : wp (memalignUnlocked .fast align size) (fun _ h' => Confined s m h') h := by
    have hhdr : Profile.fast.hdrSize = 8 := rfl
    have hmin32 : Profile.fast.minBlock = 32 := rfl
    have htrail : Profile.fast.trail = 0 := rfl
    rw [memalignUnlocked, wp_ite]
    split
    · exact wp_seq (confined_mallocUnlocked hs hc size) fun _ h₁ hq => hq.1
    rename_i halign
    rw [alignment] at halign
    rw [wp_ite]
    split
    · exact wp_aside hc fun _ h₁ hc₁ _ => confined_aside (x := do
        fail .nomem
        pure 0) hc₁
    refine wp_seq (confined_mallocUnlocked hs hc _) fun raw h₁ hpost => ?_
    obtain ⟨hc₁, hg⟩ := hpost
    rw [wp_ite]
    split
    · exact hc₁
    rename_i hr0
    have hg := hg.resolve_left hr0
    have hsize : size < 2 ^ 58 := by
      obtain ⟨b, n, -, he, hn, h0⟩ := hg
      have hspec := (sizeFor_spec .fast h0).1
      have := he.lt
      omega
    have hraw : raw.1 < 2 ^ 64 := by
      have := hg.bounds
      omega
    obtain ⟨hwant, hfront, hfront'⟩ := alignedIn_spec .fast _ (by omega) ha hraw
    refine wp_seq (confined_blockOf hc₁ raw.1) fun b h₂ hpost => ?_
    obtain ⟨hc₂, hl⟩ := hpost
    rw [wp_ite]
    split
    · exact hc₂
    rename_i hb0
    obtain ⟨hb, he, -⟩ := hl.resolve_left hb0
    refine wp_still_eq (still_blockSize (he.room.covers8 hc₂))
      (show _ = wordSize (h₂.word b) from rfl) ?_
    generalize wordSize (h₂.word b) = total at he
    rw [wp_ite]
    split
    · rw [wp_bind, wp]
      exact confined_aside (x := do
        fail .nomem
        pure 0) (confined_freeUnlocked hs hu hc₂ _)
    rename_i hfit
    have h0 : sizeFor .fast size ≠ 0 := fun h0 => hfit (Or.inl h0)
    obtain ⟨-, hmin, hd, -, hmax⟩ := sizeFor_spec .fast h0
    have hle : frontIn .fast align raw.1 + sizeFor .fast size ≤ total := by
      have hsum : ¬ total < uadd (frontIn .fast align raw.1) (sizeFor .fast size) := fun hlt =>
        hfit (Or.inr hlt)
      rw [uadd_of_lt (by omega)] at hsum
      omega
    have hat : alignedIn .fast align raw.1 = b + frontIn .fast align raw.1 + 8 := by
      have hend := he.end_le
      rw [frontIn, usub] at *
      omega
    exact confined_memalignCut hs hu hc₂ he hat (by omega) hd hle size
  exact hw

end Sized

end Mars
