import MarsAllocator.Invariant.Tiled
import MarsAllocator.Steps.BinChecks
import MarsAllocator.Steps.Bins

namespace Mars

open ByteMemory StateProgram LinkedChain

variable {P : Profile} {h h' : Heap} {s : Span} {b b' n i : Nat} {u : Bool} {c : Cell}
  {mirrors : Prop} {L : Span → List Cell} {M : Nat → Nat → Prop} {which : Link}

theorem bitAt_set (f : Nat → BitVec 64) (i j : Nat) :
    bitAt (Function.update f (i / 64) (f (i / 64) ||| (1#64 <<< (i % 64)))) j =
      (bitAt f j || decide (j = i)) := by
  have hlt : j % 64 < 64 := Nat.mod_lt _ (by decide)
  unfold bitAt
  by_cases hw : j / 64 = i / 64
  · rw [hw, Function.update_self, BitVec.getLsbD_or, BitVec.getLsbD_shiftLeft, BitVec.getLsbD_one,
      decide_eq_true hlt]
    congr 1
    by_cases he : j = i
    · subst he
      simp
    · rw [decide_eq_false he, Bool.true_and]
      by_cases hlt' : j % 64 < i % 64
      · simp [hlt']
      · have : ¬ j % 64 - i % 64 = 0 := by omega
        simp [this]
  · rw [Function.update_of_ne hw, decide_eq_false (fun he => hw (congrArg (· / 64) he)), Bool.or_false]

theorem bitAt_clear (f : Nat → BitVec 64) (i j : Nat) :
    bitAt (Function.update f (i / 64) (f (i / 64) &&& ~~~(1#64 <<< (i % 64)))) j =
      (bitAt f j && !decide (j = i)) := by
  have hlt : j % 64 < 64 := Nat.mod_lt _ (by decide)
  unfold bitAt
  by_cases hw : j / 64 = i / 64
  · rw [hw, Function.update_self, BitVec.getLsbD_and, BitVec.getLsbD_not, BitVec.getLsbD_shiftLeft,
      BitVec.getLsbD_one, decide_eq_true hlt]
    congr 1
    by_cases he : j = i
    · subst he
      simp
    · rw [decide_eq_false he, Bool.true_and]
      by_cases hlt' : j % 64 < i % 64
      · simp [hlt']
      · have : ¬ j % 64 - i % 64 = 0 := by omega
        simp [this]
  · rw [Function.update_of_ne hw, decide_eq_false (fun he => hw (congrArg (· / 64) he)),
      Bool.not_false, Bool.and_true]

theorem run_freeLinkGet (hc : h.Covers b P.minBlock) (which : Link) :
    freeLinkGet P b which h = (h.link P which b, h) :=
  Prod.ext rfl (still_freeLinkGet hc which)

def Heap.setLink (P : Profile) (h : Heap) (which : Link) (b v : Nat) : Heap :=
  h.withMem (h.mem.store (b + P.hdrSize + which.offset) 8 (v ^^^ h.secret))

theorem run_freeLinkSet (hc : h.Covers b P.minBlock) (which : Link) (v : Nat) :
    freeLinkSet P b which v h = ((), h.setLink P which b v) := by
  have hp := P.sizes
  have ho : which.offset ≤ 8 := by cases which <;> decide
  rw [freeLinkSet, Prog.bind_run, Prog.read_run]
  exact run_store64 (hc.sub (by rw [payloadOf]; omega) (by rw [payloadOf]; omega))

theorem link_setLink (hκ : h.secret < 2 ^ 64) {v : Nat} (hv : v < 2 ^ 64) :
    (h.setLink P which b v).link P which b = v := by
  change Memory.load (Memory.store _ _ _ _) _ 8 ^^^ h.secret = v
  rw [payloadOf, Memory.load_store_self, Nat.mod_eq_of_lt (Nat.xor_lt_two_pow hv hκ),
    Nat.xor_assoc, Nat.xor_self, Nat.xor_zero]

theorem link_setLink_of_ne {which' : Link} {v : Nat}
    (hne : b' = b → which' ≠ which) (hapart : b' ≠ b → b' + 16 ≤ b ∨ b + 16 ≤ b') :
    (h.setLink P which b v).link P which' b' = h.link P which' b' := by
  change Memory.load (Memory.store _ _ _ _) _ 8 ^^^ h.secret = Memory.load _ _ 8 ^^^ h.secret
  congr 1
  refine Memory.load_store_of_disjoint ?_
  rw [payloadOf]
  by_cases he : b' = b
  · have hn := hne he
    cases which <;> cases which' <;> simp_all [Link.offset]
  · have := hapart he
    cases which <;> cases which' <;> simp only [Link.offset] <;> omega

/-- A free block of `n` bytes stands at `b` in `s`. -/
structure Heap.NodeIn (P : Profile) (h : Heap) (s : Span) (b n : Nat) : Prop where
  span : s ∈ h.spans
  top : s.hi < 2 ^ 64
  header : h.HeaderOk P s b
  free : wordUsed (h.word b) = false
  extent : h.extent b = n

/-- A free block of `n` bytes stands at `b`. -/
def Heap.Node (P : Profile) (h : Heap) (b n : Nat) : Prop := ∃ s, h.NodeIn P s b n

theorem Heap.Holds.node (hh : h.Holds P s b u c) (hk : c.kind = .free) : h.Node P b c.size := by
  refine ⟨s, hh.room.span, hh.room.top, hh.headerOk_of, ?_, ?_⟩
  · rw [hh.word_eq, Cell.wordUsed_word, Cell.not_used_iff.mpr hk]
  · rw [Heap.extent, hh.word_eq, Cell.wordSize_word hh.fits]

/-- The blocks of `M` are free and lie apart. -/
structure Heap.Stock (P : Profile) (h : Heap) (M : Nat → Nat → Prop) : Prop where
  secret_lt : h.secret < 2 ^ 64
  node : ∀ b n, M b n → h.Node P b n
  apart : ∀ b n b' n', M b n → M b' n' → b ≠ b' → b + n ≤ b' ∨ b' + n' ≤ b

/-- The bins hold the blocks of `M`, each in the one bin its extent asks for, and nothing else. -/
structure Heap.Filed (P : Profile) (h : Heap) (M : Nat → Nat → Prop) : Prop extends h.Stock P M where
  bins : ∀ i < binCount, ∃ nodes,
    Linked 0 (h.link P .next) (h.link P .prev) 0 (h.bins i) nodes ∧
      ∀ b, b ∈ nodes ↔ ∃ n, M b n ∧ binOf P n = i
  bitmap : ∀ i < binCount, (bitAt h.binBitmap i = true ↔ h.bins i ≠ 0)

/-- The first sixteen bytes of the payload of a block in `M`. -/
def LinkBytes (P : Profile) (M : Nat → Nat → Prop) (a : Nat) : Prop :=
  ∃ b n, M b n ∧ b + P.hdrSize ≤ a ∧ a < b + P.hdrSize + 16

/-- Only the bins and link words of blocks in `M` have changed. -/
structure Heap.Rebinned (P : Profile) (M : Nat → Nat → Prop) (h h' : Heap) : Prop where
  eq : h' = { h with mem := h'.mem, bins := h'.bins, binBitmap := h'.binBitmap }
  same : ∀ a, ¬ LinkBytes P M a → h'.mem.byte a = h.mem.byte a

theorem Heap.Rebinned.trans {h₁ h₂ h₃ : Heap} (hr : h₁.Rebinned P M h₂) (hr' : h₂.Rebinned P M h₃) :
    h₁.Rebinned P M h₃ := by
  refine ⟨?_, fun a ha => (hr'.same a ha).trans (hr.same a ha)⟩
  rw [hr'.eq, hr.eq]

theorem Heap.rebinned_refl (P : Profile) (M : Nat → Nat → Prop) (h : Heap) : h.Rebinned P M h :=
  ⟨rfl, fun _ _ => rfl⟩

theorem Heap.rebinned_setLink (h : Heap) (hb : M b n) (which : Link) (v : Nat) :
    h.Rebinned P M (h.setLink P which b v) := by
  refine ⟨rfl, fun a ha => Memory.byte_store_of_notMem ?_⟩
  by_contra hin
  refine ha ⟨b, n, hb, ?_⟩
  cases which <;> simp only [Link.offset] at hin <;> omega

theorem Heap.Rebinned.kin (hr : h.Rebinned P M h') : h.Kin h' := by
  rw [hr.eq]
  exact ⟨rfl, rfl, rfl⟩

namespace Heap.Node

variable (hb : h.Node P b n)
include hb

theorem extent : h.extent b = n := by
  obtain ⟨s, hn⟩ := hb
  exact hn.extent

theorem unique {n' : Nat} (hb' : h.Node P b n') : n = n' := hb.extent.symm.trans hb'.extent

theorem min_le : P.minBlock ≤ n := by
  obtain ⟨s, hn⟩ := hb
  exact hn.extent ▸ hn.header.min_le

theorem ne_zero : b ≠ 0 := by
  obtain ⟨s, hn⟩ := hb
  exact hn.header.ne_zero

theorem lt : b < 2 ^ 64 := by
  obtain ⟨s, hn⟩ := hb
  have := (spanOf_bounds hn.header.span).2.2
  have := hn.top
  omega

theorem covers_all : h.Covers b n := by
  obtain ⟨s, hn⟩ := hb
  obtain ⟨-, hlo, hhi⟩ := spanOf_bounds hn.header.span
  have hle := hn.header.le
  change h.extent b ≤ s.hi - b at hle
  rw [hn.extent] at hle
  exact ⟨s, hn.span, hlo, by omega⟩

theorem covers : h.Covers b P.minBlock := hb.covers_all.sub (le_refl b) (by have := hb.min_le; omega)

theorem covers8 : h.Covers b 8 := by
  have hp := P.sizes
  exact hb.covers.sub (le_refl b) (by omega)

theorem own : h.Own b := by
  obtain ⟨s, hn⟩ := hb
  intro s' hs'
  rw [hn.header.span] at hs'
  exact Option.some.inj hs' ▸ hn.span

theorem run_blockSize : blockSize b h = (n, h) := by
  refine Prod.ext ?_ (still_blockSize hb.covers8)
  exact hb.extent

theorem run_nodeOk (bin : Nat) : nodeOk P b bin h = (binOf P n == bin, h) := by
  have hown := hb.own
  have hcov := hb.covers8
  have hsize := hb.run_blockSize
  obtain ⟨s, hn⟩ := hb
  have hblock : isBlock P b h = (true, h) :=
    Prod.ext ((isBlock_fst h b).mpr ⟨s, hn.header.toLegible⟩) (still_isBlock hown)
  have hhead : headerOk P b h = (true, h) :=
    Prod.ext ((headerOk_fst h b).mpr ⟨s, hn.header⟩) (still_headerOk hown)
  have hused : isUsed b h = (false, h) := Prod.ext hn.free (still_isUsed hcov)
  rw [nodeOk, Prog.bind_run_of_eq hblock]
  change (headerOk P b >>= _) h = _
  rw [Prog.bind_run_of_eq hhead]
  change (isUsed b >>= _) h = _
  rw [Prog.bind_run_of_eq hused]
  change (blockSize b >>= _) h = _
  rw [Prog.bind_run_of_eq hsize]
  rfl

theorem congr (hk : h.Kin h') (hm : ∀ a, b ≤ a → a < b + P.hdrSize → h'.mem.byte a = h.mem.byte a) :
    h'.Node P b n := by
  have hp := P.sizes
  obtain ⟨s, hn⟩ := hb
  have hload : ∀ a k, b ≤ a → a + k ≤ b + P.hdrSize → h'.mem.load a k = h.mem.load a k :=
    fun a k h₁ h₂ => Memory.load_congr fun x _ _ => hm x (by omega) (by omega)
  have hword : h'.word b = h.word b := hload b 8 (le_refl b) (by omega)
  refine ⟨s, hk.spans ▸ hn.span, hn.top, ⟨⟨hn.header.ne_zero, ?_, hn.header.start, ?_, ?_⟩, ?_⟩, ?_, ?_⟩
  · rw [hk.spanOf]
    exact hn.header.span
  · rw [hword]
    exact hn.header.min_le
  · rw [hword]
    exact hn.header.le
  · intro hcrc
    have h16 := Profile.hdrSize_of_crc hcrc
    rw [hword, hk.secret, hload _ _ (by omega) (by omega), hload _ _ (by omega) (by omega)]
    exact hn.header.sealed hcrc
  · rw [hword]
    exact hn.free
  · rw [Heap.extent, hword]
    exact hn.extent

end Heap.Node

theorem Heap.Stock.rebinned (hS : h.Stock P M) (hr : h.Rebinned P M h') : h'.Stock P M := by
  have hp := P.sizes
  refine ⟨hr.kin.secret ▸ hS.secret_lt, fun b n hb => (hS.node b n hb).congr hr.kin ?_, hS.apart⟩
  intro a h₁ h₂
  refine hr.same a ?_
  rintro ⟨x, k, hx, h₃, h₄⟩
  have := (hS.node b n hb).min_le
  have := (hS.node x k hx).min_le
  by_cases he : b = x
  · omega
  · have := hS.apart b n x k hb hx he
    omega

theorem Heap.Filed.frame (hF : h.Filed P M) (hκ : h'.secret = h.secret) (hbins : h'.bins = h.bins)
    (hbits : h'.binBitmap = h.binBitmap) (hnode : ∀ b n, M b n → h'.Node P b n)
    (hm : ∀ a, LinkBytes P M a → h'.mem.byte a = h.mem.byte a) : h'.Filed P M := by
  have hlink : ∀ which b n, M b n → h'.link P which b = h.link P which b := by
    intro which b n hb
    change h'.mem.load _ 8 ^^^ h'.secret = h.mem.load _ 8 ^^^ h.secret
    rw [hκ]
    congr 1
    refine Memory.load_congr fun a h₁ h₂ => hm a ⟨b, n, hb, ?_⟩
    rw [payloadOf] at h₁ h₂
    cases which <;> simp only [Link.offset] at h₁ h₂ <;> omega
  refine ⟨⟨hκ ▸ hF.secret_lt, hnode, hF.apart⟩, fun i hi => ?_, fun i hi => ?_⟩
  · obtain ⟨nodes, hl, hmem⟩ := hF.bins i hi
    refine ⟨nodes, ?_, hmem⟩
    rw [hbins]
    refine hl.congr (fun b hb => ?_) fun b hb => ?_
    all_goals
      obtain ⟨n, hn, -⟩ := (hmem b).mp hb
      exact hlink _ b n hn
  · rw [hbins, hbits]
    exact hF.bitmap i hi

theorem Heap.Filed.of_iff {M' : Nat → Nat → Prop} (hF : h.Filed P M)
    (hM : ∀ b n, M b n ↔ M' b n) : h.Filed P M' := by
  obtain rfl : M = M' := funext fun b => funext fun n => propext (hM b n)
  exact hF

section Links

variable (hS : h.Stock P M)
include hS

theorem Heap.Stock.apart16 {n' : Nat} (hb : M b n) (hb' : M b' n') (hne : b' ≠ b) :
    b' + 16 ≤ b ∨ b + 16 ≤ b' := by
  have hp := P.sizes
  have := (hS.node b n hb).min_le
  have := (hS.node b' n' hb').min_le
  have := hS.apart b' n' b n hb' hb hne
  omega

theorem link_setLink_same {v n' : Nat} (hb : M b n) (hb' : M b' n') (hv : v < 2 ^ 64)
    (which : Link) :
    (h.setLink P which b v).link P which b' = if b' = b then v else h.link P which b' := by
  by_cases he : b' = b
  · subst he
    rw [if_pos rfl]
    exact link_setLink hS.secret_lt hv
  · rw [if_neg he]
    exact link_setLink_of_ne (fun h' => absurd h' he) (hS.apart16 hb hb')

theorem link_setLink_other {v n' : Nat} (hb : M b n) (hb' : M b' n') {which' : Link}
    (hw : which' ≠ which) :
    (h.setLink P which b v).link P which' b' = h.link P which' b' :=
  link_setLink_of_ne (fun _ => hw) (hS.apart16 hb hb')

end Links

namespace Heap.Filed

variable (hF : h.Filed P M)
include hF

theorem ends (hb : M b n) :
    (h.link P .next b = 0 ∨ (∃ n', M (h.link P .next b) n' ∧ binOf P n' = binOf P n) ∧
        h.link P .prev (h.link P .next b) = b) ∧
      (h.link P .prev b = 0 ∧ h.bins (binOf P n) = b ∨
        (∃ n', M (h.link P .prev b) n' ∧ binOf P n' = binOf P n) ∧
          h.link P .next (h.link P .prev b) = b) := by
  obtain ⟨nodes, hl, hmem⟩ := hF.bins _ (binOf_lt P n)
  have hin : b ∈ nodes := (hmem b).mpr ⟨n, hb, rfl⟩
  constructor
  · rcases hl.next_mem hin with hz | hm
    · exact .inl hz
    · exact .inr ⟨(hmem _).mp hm, hl.prev_next hin (hl.ne_null hm)⟩
  · rcases hl.prev_mem hin with ⟨hc, hz⟩ | ⟨hm, hn⟩
    · exact .inl ⟨hz, hc⟩
    · exact .inr ⟨(hmem _).mp hm, hn⟩

theorem run_linksOk (hb : M b n) : linksOk P b (binOf P n) h = (true, h) := by
  have hfree := hF.node b n hb
  have hcov := hfree.covers
  obtain ⟨hnext, hprev⟩ := hF.ends hb
  have hn : nextLinkOk P b (binOf P n) (h.link P .next b) h = (true, h) := by
    rw [nextLinkOk, Prog.ite_run]
    rcases hnext with hz | ⟨⟨n', hm, hbin⟩, hback⟩
    · rw [if_pos hz]
      rfl
    · have hf' := hF.node _ _ hm
      rw [if_neg hf'.ne_zero, Prog.and_run, hf'.run_nodeOk, if_pos (by simp [hbin]),
        Prog.bind_run_of_eq (run_freeLinkGet hf'.covers .prev), hback, beq_self_eq_true]
      rfl
  have hp : prevLinkOk P b (binOf P n) (h.link P .prev b) h = (true, h) := by
    rw [prevLinkOk, Prog.ite_run]
    rcases hprev with ⟨hz, hhead⟩ | ⟨⟨n', hm, hbin⟩, hfwd⟩
    · rw [if_pos hz, Prog.read_run, hhead, beq_self_eq_true]
    · have hf' := hF.node _ _ hm
      rw [if_neg hf'.ne_zero, Prog.and_run, hf'.run_nodeOk, if_pos (by simp [hbin]),
        Prog.bind_run_of_eq (run_freeLinkGet hf'.covers .next), hfwd, beq_self_eq_true]
      rfl
  rw [linksOk, Prog.bind_run_of_eq (hfree.run_nodeOk _), beq_self_eq_true, if_pos rfl,
    Prog.bind_run_of_eq (run_freeLinkGet hcov .next),
    Prog.bind_run_of_eq (run_freeLinkGet hcov .prev), Prog.and_run, hn, if_pos rfl]
  exact hp

end Heap.Filed

def DropFrom (M : Nat → Nat → Prop) (b : Nat) : Nat → Nat → Prop := fun x k => M x k ∧ x ≠ b

def Heap.setHead (h : Heap) (i v : Nat) : Heap :=
  { h with
    bins := Function.update h.bins i v
    binBitmap := if v = 0 then Function.update h.binBitmap (i / 64)
      (h.binBitmap (i / 64) &&& ~~~(1#64 <<< (i % 64))) else h.binBitmap }

/-- The first half of an unlink: what leads to `b` leads past it. -/
def Heap.passOver (P : Profile) (h : Heap) (b i : Nat) : Heap :=
  if h.link P .prev b = 0 then h.setHead i (h.link P .next b)
  else h.setLink P .next (h.link P .prev b) (h.link P .next b)

/-- `b` spliced out of bin `i`. -/
def Heap.unlinked (P : Profile) (h : Heap) (b i : Nat) : Heap :=
  if h.link P .next b = 0 then h.passOver P b i
  else (h.passOver P b i).setLink P .prev (h.link P .next b) (h.link P .prev b)

namespace Heap.Filed

variable (hF : h.Filed P M)
include hF

theorem run_binUnlink (hb : M b n) :
    binUnlink P b (binOf P n) h = ((), h.unlinked P b (binOf P n)) := by
  have hcov := (hF.node b n hb).covers
  obtain ⟨hnext, hprev⟩ := hF.ends hb
  rw [binUnlink, Prog.bind_run_of_eq (run_freeLinkGet hcov .next),
    Prog.bind_run_of_eq (run_freeLinkGet hcov .prev), Heap.unlinked]
  have hpass : ((if h.link P .prev b ≠ 0 then
      freeLinkSet P (h.link P .prev b) .next (h.link P .next b) else do
        setBin (binOf P n) (h.link P .next b)
        Prog.when (h.link P .next b = 0) (bitmapClear (binOf P n))) : HeapM Unit) h =
      ((), h.passOver P b (binOf P n)) := by
    rw [Prog.ite_run, Heap.passOver]
    rcases hprev with ⟨hz, -⟩ | ⟨⟨n', hm, -⟩, -⟩
    · rw [if_neg (not_not.mpr hz), if_pos hz, Prog.bind_run, Prog.when_run, Heap.setHead]
      by_cases hn : h.link P .next b = 0
      · rw [if_pos hn, if_pos hn]
        rfl
      · rw [if_neg hn, if_neg hn]
        rfl
    · have hf := hF.node _ _ hm
      rw [if_pos hf.ne_zero, if_neg hf.ne_zero, run_freeLinkSet hf.covers]
  rw [Prog.bind_run_of_eq hpass, Prog.when_run]
  rcases hnext with hz | ⟨⟨n', hm, -⟩, -⟩
  · rw [if_neg (not_not.mpr hz), if_pos hz]
  · have hf := hF.node _ _ hm
    rw [if_pos hf.ne_zero, if_neg hf.ne_zero]
    refine run_freeLinkSet ?_ _ _
    rw [Heap.passOver]
    have hcov' : h.Covers (h.link P .next b) P.minBlock := hf.covers
    split <;> exact hcov'

theorem run_binRemove (hb : M b n) :
    binRemove P b h = ((), h.unlinked P b (binOf P n)) := by
  have hbin : binOfBlock P b h = (binOf P n, h) := by
    rw [binOfBlock, Prog.bind_run_of_eq (hF.node b n hb).run_blockSize]
    rfl
  rw [binRemove, Prog.bind_run_of_eq hbin, Prog.bind_run_of_eq (hF.run_linksOk hb), if_pos rfl,
    hF.run_binUnlink hb]

theorem passOver_spec (hb : M b n) :
    h.Rebinned P M (h.passOver P b (binOf P n)) ∧
      (∀ x k, M x k → (h.passOver P b (binOf P n)).link P .next x =
        if x = h.link P .prev b then h.link P .next b else h.link P .next x) ∧
      (∀ x k, M x k → (h.passOver P b (binOf P n)).link P .prev x = h.link P .prev x) ∧
      (∀ i, (h.passOver P b (binOf P n)).bins i =
        if i = binOf P n ∧ h.link P .prev b = 0 then h.link P .next b else h.bins i) ∧
      ∀ i, bitAt (h.passOver P b (binOf P n)).binBitmap i =
        (bitAt h.binBitmap i &&
          !decide (i = binOf P n ∧ h.link P .prev b = 0 ∧ h.link P .next b = 0)) := by
  obtain ⟨hnext, hprev⟩ := hF.ends hb
  have hnlt : h.link P .next b < 2 ^ 64 := by
    rcases hnext with hz | ⟨⟨n', hm, -⟩, -⟩
    · rw [hz]
      exact Nat.two_pow_pos 64
    · exact (hF.node _ _ hm).lt
  rw [Heap.passOver]
  by_cases hp0 : h.link P .prev b = 0
  · rw [if_pos hp0]
    refine ⟨⟨rfl, fun _ _ => rfl⟩, fun x k hx => ?_, fun _ _ _ => rfl, fun i => ?_, fun i => ?_⟩
    · rw [if_neg fun he => (hF.node x k hx).ne_zero (he.trans hp0)]
      rfl
    · change Function.update h.bins _ _ i = _
      by_cases hi : i = binOf P n
      · rw [hi, Function.update_self, if_pos ⟨rfl, hp0⟩]
      · rw [Function.update_of_ne hi, if_neg fun he => hi he.1]
    · rw [Heap.setHead]
      by_cases hn0 : h.link P .next b = 0
      · rw [if_pos hn0, bitAt_clear]
        simp [hp0, hn0]
      · rw [if_neg hn0]
        simp [hn0]
  · have hpm := (hprev.resolve_left fun hz => hp0 hz.1).1
    obtain ⟨n', hm, -⟩ := hpm
    rw [if_neg hp0]
    refine ⟨h.rebinned_setLink hm _ _, fun x k hx => ?_, fun x k hx => ?_, fun i => ?_, fun i => ?_⟩
    · exact link_setLink_same hF.toStock hm hx hnlt .next
    · exact link_setLink_other hF.toStock hm hx nofun
    · rw [if_neg fun he => hp0 he.2]
      rfl
    · rw [decide_eq_false fun he => hp0 he.2.1, Bool.not_false, Bool.and_true]
      rfl

theorem unlinked_spec (hb : M b n) :
    h.Rebinned P M (h.unlinked P b (binOf P n)) ∧
      (∀ x k, M x k → (h.unlinked P b (binOf P n)).link P .next x =
        if x = h.link P .prev b then h.link P .next b else h.link P .next x) ∧
      (∀ x k, M x k → (h.unlinked P b (binOf P n)).link P .prev x =
        if x = h.link P .next b then h.link P .prev b else h.link P .prev x) ∧
      (∀ i, (h.unlinked P b (binOf P n)).bins i =
        if i = binOf P n ∧ h.link P .prev b = 0 then h.link P .next b else h.bins i) ∧
      ∀ i, bitAt (h.unlinked P b (binOf P n)).binBitmap i =
        (bitAt h.binBitmap i &&
          !decide (i = binOf P n ∧ h.link P .prev b = 0 ∧ h.link P .next b = 0)) := by
  obtain ⟨hnext, hprev⟩ := hF.ends hb
  have hplt : h.link P .prev b < 2 ^ 64 := by
    rcases hprev with ⟨hz, -⟩ | ⟨⟨n', hm, -⟩, -⟩
    · rw [hz]
      exact Nat.two_pow_pos 64
    · exact (hF.node _ _ hm).lt
  obtain ⟨hr, hnl, hpl, hbins, hbits⟩ := hF.passOver_spec hb
  rw [Heap.unlinked]
  by_cases hn0 : h.link P .next b = 0
  · rw [if_pos hn0]
    refine ⟨hr, hnl, fun x k hx => ?_, hbins, hbits⟩
    rw [hpl x k hx, if_neg fun he => (hF.node x k hx).ne_zero (he.trans hn0)]
  · obtain ⟨n', hm, -⟩ := (hnext.resolve_left hn0).1
    have hS₁ := hF.toStock.rebinned hr
    rw [if_neg hn0]
    refine ⟨hr.trans (Heap.rebinned_setLink _ hm _ _), fun x k hx => ?_, fun x k hx => ?_, hbins,
      hbits⟩
    · have hne : Link.next ≠ .prev := nofun
      rw [link_setLink_other hS₁ hm hx hne, hnl x k hx]
    · rw [link_setLink_same hS₁ hm hx hplt, hpl x k hx]

theorem unlinked (hb : M b n) :
    (h.unlinked P b (binOf P n)).Filed P (DropFrom M b) := by
  obtain ⟨hr, hnl, hpl, hbins, hbits⟩ := hF.unlinked_spec hb
  obtain ⟨hnext, hprev⟩ := hF.ends hb
  have hbin := binOf_lt P n
  have huniq : ∀ {x k k'}, M x k → M x k' → k = k' := fun hx hx' =>
    (hF.node _ _ hx).unique (hF.node _ _ hx')
  have hb0 := (hF.node b n hb).ne_zero
  have hS := hF.toStock.rebinned hr
  refine ⟨⟨hS.secret_lt, fun x k hx => hS.node x k hx.1,
    fun x k y j hx hy => hS.apart x k y j hx.1 hy.1⟩, fun i hi => ?_, fun i hi => ?_⟩
  · obtain ⟨nodes, hl, hmem⟩ := hF.bins i hi
    have hM : ∀ x ∈ nodes, ∃ k, M x k := fun x hx => ((hmem x).mp hx).imp fun _ hk => hk.1
    by_cases he : i = binOf P n
    · subst he
      have hin : b ∈ nodes := (hmem b).mpr ⟨n, hb, rfl⟩
      have hnd := hl.nodup
      refine ⟨nodes.erase b, ?_, fun x => ?_⟩
      · have hun : Linked 0 ((h.unlinked P b (binOf P n)).link P .next)
            ((h.unlinked P b (binOf P n)).link P .prev) 0
            (if h.bins (binOf P n) = b then h.link P .next b else h.bins (binOf P n))
            (nodes.erase b) := hl.unlink hnd
          (fun h0 => hl.ne_null h0 rfl) hin
          (fun x hx _ => by
            obtain ⟨k, hk⟩ := hM x hx
            exact hnl x k hk)
          fun x hx _ => by
            obtain ⟨k, hk⟩ := hM x hx
            exact hpl x k hk
        rw [hbins]
        rcases hprev with ⟨hz, hhead⟩ | ⟨⟨n', hm, -⟩, hfwd⟩
        · rw [if_pos ⟨rfl, hz⟩]
          rwa [if_pos hhead] at hun
        · have hp0 := (hF.node _ _ hm).ne_zero
          rw [if_neg fun hc => hp0 hc.2]
          rwa [if_neg] at hun
          intro hhead
          have hback := hl.prev_cur (hhead ▸ hb0)
          exact hp0 (hhead ▸ hback)
      · rw [hnd.mem_erase_iff, hmem]
        constructor
        · rintro ⟨hne, k, hk, hki⟩
          exact ⟨k, ⟨hk, hne⟩, hki⟩
        · rintro ⟨k, ⟨hk, hne⟩, hki⟩
          exact ⟨hne, k, hk, hki⟩
    · have hother : ∀ x ∈ nodes, ∀ y k, M y k → binOf P k = binOf P n → x ≠ y := by
        rintro x hx y k hy hk rfl
        obtain ⟨k', hk', hki⟩ := (hmem x).mp hx
        rw [huniq hk' hy] at hki
        exact he (hki.symm.trans hk)
      refine ⟨nodes, ?_, fun x => ?_⟩
      · rw [hbins, if_neg fun hc => he hc.1]
        refine hl.congr (fun x hx => ?_) fun x hx => ?_
        · obtain ⟨k, hk⟩ := hM x hx
          rw [hnl x k hk, if_neg]
          intro hc
          rcases hprev with ⟨hz, -⟩ | ⟨⟨n', hm, hn'⟩, -⟩
          · exact (hF.node x k hk).ne_zero (hc.trans hz)
          · exact hother x hx _ n' hm hn' hc
        · obtain ⟨k, hk⟩ := hM x hx
          rw [hpl x k hk, if_neg]
          intro hc
          rcases hnext with hz | ⟨⟨n', hm, hn'⟩, -⟩
          · exact (hF.node x k hk).ne_zero (hc.trans hz)
          · exact hother x hx _ n' hm hn' hc
      · rw [hmem]
        refine exists_congr fun k => and_congr_left fun hk => ?_
        refine ⟨fun hx => ⟨hx, fun hxb => ?_⟩, fun hx => hx.1⟩
        subst hxb
        rw [huniq hx hb] at hk
        exact he hk.symm
  · rw [hbits, hbins]
    have hbm := hF.bitmap i hi
    by_cases hc : i = binOf P n ∧ h.link P .prev b = 0
    · rw [if_pos hc]
      have hset : bitAt h.binBitmap i = true := by
        rw [hbm, hc.1]
        rcases hprev with ⟨-, hhead⟩ | ⟨⟨n', hm, -⟩, -⟩
        · rw [hhead]
          exact hb0
        · exact absurd hc.2 ((hF.node _ _ hm).ne_zero)
      by_cases hn0 : h.link P .next b = 0
      · rw [decide_eq_true ⟨hc.1, hc.2, hn0⟩, Bool.not_true, Bool.and_false]
        exact iff_of_false Bool.false_ne_true (not_not.mpr hn0)
      · rw [decide_eq_false fun hc' => hn0 hc'.2.2, hset]
        exact iff_of_true rfl hn0
    · have hc' : ¬ (i = binOf P n ∧ h.link P .prev b = 0 ∧ h.link P .next b = 0) := fun h' =>
        hc ⟨h'.1, h'.2.1⟩
      rw [if_neg hc, decide_eq_false hc', Bool.not_false, Bool.and_true]
      exact hbm

end Heap.Filed

def AddTo (M : Nat → Nat → Prop) (b n : Nat) : Nat → Nat → Prop :=
  fun x k => M x k ∨ x = b ∧ k = n

def Heap.pushed (P : Profile) (h : Heap) (b i : Nat) : Heap :=
  let h₁ := (h.setLink P .next b (h.bins i)).setLink P .prev b 0
  let h₂ := if h.bins i = 0 then h₁ else h₁.setLink P .prev (h.bins i) b
  { h₂ with
    bins := Function.update h₂.bins i b
    binBitmap := Function.update h₂.binBitmap (i / 64)
      (h₂.binBitmap (i / 64) ||| (1#64 <<< (i % 64))) }

theorem Heap.Rebinned.mono {M' : Nat → Nat → Prop} (hr : h.Rebinned P M h')
    (hM : ∀ b n, M b n → M' b n) : h.Rebinned P M' h' :=
  ⟨hr.eq, fun a ha => hr.same a fun ⟨b, n, hb, h₁⟩ => ha ⟨b, n, hM b n hb, h₁⟩⟩

theorem Heap.Stock.add (hS : h.Stock P M) (hb : h.Node P b n)
    (hap : ∀ x k, M x k → x + k ≤ b ∨ b + n ≤ x) : h.Stock P (AddTo M b n) := by
  refine ⟨hS.secret_lt, ?_, ?_⟩
  · rintro x k (hx | ⟨rfl, rfl⟩)
    · exact hS.node x k hx
    · exact hb
  · rintro x k y j (hx | ⟨rfl, rfl⟩) (hy | ⟨rfl, rfl⟩) hne
    · exact hS.apart x k y j hx hy hne
    · exact hap x k hx
    · exact (hap y j hy).symm
    · exact absurd rfl hne

namespace Heap.Filed

variable (hF : h.Filed P M)
include hF

theorem head (hi : i < binCount) :
    h.bins i = 0 ∨ ∃ n, M (h.bins i) n ∧ binOf P n = i := by
  obtain ⟨nodes, hl, hmem⟩ := hF.bins i hi
  by_cases hz : h.bins i = 0
  · exact .inl hz
  · exact .inr ((hmem _).mp (hl.mem_head hz))

theorem run_binPush (hb : h.Node P b n) (hi : i < binCount) :
    binPush P b i h = ((), h.pushed P b i) := by
  have hcov := hb.covers
  rw [binPush, Prog.bind_run, Prog.read_run, Prog.bind_run_of_eq (run_freeLinkSet hcov .next _),
    Prog.bind_run_of_eq (run_freeLinkSet (h := h.setLink P .next b (h.bins i)) hcov .prev _),
    Prog.bind_run, Prog.when_run, Heap.pushed]
  rcases hF.head hi with hz | ⟨n', hm, -⟩
  · rw [if_neg (not_not.mpr hz), if_pos hz]
    rfl
  · have hf := hF.node _ _ hm
    have hhead : h.Covers (h.bins i) P.minBlock := hf.covers
    have hcov' : ((h.setLink P .next b (h.bins i)).setLink P .prev b 0).Covers (h.bins i)
        P.minBlock := hhead
    rw [if_pos hf.ne_zero, if_neg hf.ne_zero, run_freeLinkSet hcov']
    rfl

theorem run_binInsert (hb : h.Node P b n) :
    binInsert P b h = ((), h.pushed P b (binOf P n)) := by
  have hbin : binOfBlock P b h = (binOf P n, h) := by
    rw [binOfBlock, Prog.bind_run_of_eq (hb.run_blockSize)]
    rfl
  have hsound : ((if h.bins (binOf P n) = 0 then pure true
      else nodeOk P (h.bins (binOf P n)) (binOf P n)) : HeapM Bool) h = (true, h) := by
    rw [Prog.ite_run]
    rcases hF.head (binOf_lt P n) with hz | ⟨n', hm, hn'⟩
    · rw [if_pos hz]
      rfl
    · have hf := hF.node _ _ hm
      rw [if_neg hf.ne_zero, hf.run_nodeOk, hn', beq_self_eq_true]
  rw [binInsert, Prog.bind_run_of_eq hbin, Prog.bind_run, Prog.read_run,
    Prog.bind_run_of_eq hsound, if_pos rfl]
  exact hF.run_binPush hb (binOf_lt P n)

theorem pushed_spec (hb : h.Node P b n) (hap : ∀ x k, M x k → x + k ≤ b ∨ b + n ≤ x)
    (hi : i < binCount) :
    h.Rebinned P (AddTo M b n) (h.pushed P b i) ∧
      (h.pushed P b i).link P .next b = h.bins i ∧ (h.pushed P b i).link P .prev b = 0 ∧
      (∀ x k, M x k → (h.pushed P b i).link P .next x = h.link P .next x) ∧
      ∀ x k, M x k → (h.pushed P b i).link P .prev x =
        if x = h.bins i then b else h.link P .prev x := by
  have hlt : h.bins i < 2 ^ 64 := by
    rcases hF.head hi with hz | ⟨n', hm, -⟩
    · rw [hz]
      exact Nat.two_pow_pos 64
    · exact (hF.node _ _ hm).lt
  have hpn : Link.prev ≠ .next := nofun
  have hnp : Link.next ≠ .prev := nofun
  have hMb : AddTo M b n b n := .inr ⟨rfl, rfl⟩
  have hS := hF.toStock.add hb hap
  have hin : ∀ {x k}, M x k → AddTo M b n x k := .inl
  have hne : ∀ x k, M x k → x ≠ b := by
    rintro x k hx rfl
    have hp := P.sizes
    have := hb.min_le
    have := (hF.node x k hx).min_le
    have := hap x k hx
    omega
  -- the links of the block itself
  have hr₁ := h.rebinned_setLink hMb .next (P := P) (h.bins i)
  have hS₁ := hS.rebinned hr₁
  have hr₂ := hr₁.trans (Heap.rebinned_setLink (h.setLink P .next b (h.bins i)) hMb .prev 0)
  have hS₂ := hS.rebinned hr₂
  set h₂ := (h.setLink P .next b (h.bins i)).setLink P .prev b 0 with hh₂
  have hself : h₂.link P .next b = h.bins i ∧ h₂.link P .prev b = 0 := by
    constructor
    · rw [hh₂, link_setLink_other hS₁ hMb hMb hnp, link_setLink hS.secret_lt hlt]
    · exact link_setLink hS₁.secret_lt (Nat.two_pow_pos 64)
  have hothers : ∀ x k, M x k → ∀ w, h₂.link P w x = h.link P w x := by
    intro x k hx w
    cases w with
    | next =>
      rw [hh₂, link_setLink_other hS₁ hMb (hin hx) hnp, link_setLink_same hS hMb (hin hx) hlt,
        if_neg (hne x k hx)]
    | prev =>
      rw [hh₂, link_setLink_same hS₁ hMb (hin hx) (Nat.two_pow_pos 64), if_neg (hne x k hx),
        link_setLink_other hS hMb (hin hx) hpn]
  by_cases hz : h.bins i = 0
  · have hlink : ∀ w x, (h.pushed P b i).link P w x = h₂.link P w x := by
      intro w x
      rw [Heap.pushed, if_pos hz]
      rfl
    refine ⟨?_, (hlink _ _).trans hself.1, (hlink _ _).trans hself.2, fun x k hx => ?_,
      fun x k hx => ?_⟩
    · rw [Heap.pushed, if_pos hz]
      exact ⟨rfl, hr₂.same⟩
    · rw [hlink, hothers x k hx]
    · rw [hlink, hothers x k hx, if_neg fun he => (hF.node x k hx).ne_zero (he.trans hz)]
  · obtain ⟨n', hm, -⟩ := (hF.head hi).resolve_left hz
    have hlink : ∀ w x, (h.pushed P b i).link P w x = (h₂.setLink P .prev (h.bins i) b).link P w x := by
      intro w x
      rw [Heap.pushed, if_neg hz]
      rfl
    refine ⟨?_, ?_, ?_, fun x k hx => ?_, fun x k hx => ?_⟩
    · rw [Heap.pushed, if_neg hz]
      have hM' : AddTo M b n (h.bins i) n' := .inl hm
      exact ⟨rfl, (hr₂.trans (Heap.rebinned_setLink h₂ hM' .prev b)).same⟩
    · rw [hlink, link_setLink_other hS₂ (hin hm) hMb hnp, hself.1]
    · rw [hlink, link_setLink_same hS₂ (hin hm) hMb hb.lt, if_neg fun he => hne _ _ hm he.symm,
        hself.2]
    · rw [hlink, link_setLink_other hS₂ (hin hm) (hin hx) hnp, hothers x k hx]
    · rw [hlink, link_setLink_same hS₂ (hin hm) (hin hx) hb.lt,
        hothers x k hx]

theorem pushed (hb : h.Node P b n) (hap : ∀ x k, M x k → x + k ≤ b ∨ b + n ≤ x) :
    (h.pushed P b (binOf P n)).Filed P (AddTo M b n) := by
  obtain ⟨hr, hbn, hbp, hn, hp⟩ := hF.pushed_spec hb hap (binOf_lt P n)
  have hbins : ∀ i, (h.pushed P b (binOf P n)).bins i =
      if i = binOf P n then b else h.bins i := by
    intro i
    rw [Heap.pushed]
    change Function.update _ _ _ i = _
    by_cases hi : i = binOf P n
    · rw [hi, Function.update_self, if_pos rfl]
    · rw [Function.update_of_ne hi, if_neg hi]
      split <;> rfl
  have hbits : ∀ i, bitAt (h.pushed P b (binOf P n)).binBitmap i =
      (bitAt h.binBitmap i || decide (i = binOf P n)) := by
    intro i
    rw [Heap.pushed]
    split <;> exact bitAt_set _ _ _
  have hb0 := hb.ne_zero
  refine ⟨(hF.toStock.add hb hap).rebinned hr, fun i hi => ?_, fun i hi => ?_⟩
  · obtain ⟨nodes, hl, hmem⟩ := hF.bins i hi
    have hM : ∀ x ∈ nodes, ∃ k, M x k := fun x hx => ((hmem x).mp hx).imp fun _ hk => hk.1
    by_cases he : i = binOf P n
    · subst he
      refine ⟨b :: nodes, ?_, fun x => ?_⟩
      · rw [hbins, if_pos rfl]
        refine hl.push hb0 hbn hbp (fun x hx => ?_) fun x hx => ?_
        · obtain ⟨k, hk⟩ := hM x hx
          exact hn x k hk
        · obtain ⟨k, hk⟩ := hM x hx
          exact hp x k hk
      · rw [List.mem_cons, hmem]
        constructor
        · rintro (rfl | ⟨k, hk, hki⟩)
          · exact ⟨n, .inr ⟨rfl, rfl⟩, rfl⟩
          · exact ⟨k, .inl hk, hki⟩
        · rintro ⟨k, hk | ⟨hx, -⟩, hki⟩
          · exact .inr ⟨k, hk, hki⟩
          · exact .inl hx
    · refine ⟨nodes, ?_, fun x => ?_⟩
      · rw [hbins, if_neg he]
        refine hl.congr (fun x hx => ?_) fun x hx => ?_
        · obtain ⟨k, hk⟩ := hM x hx
          exact hn x k hk
        · obtain ⟨k, hk, hki⟩ := (hmem x).mp hx
          rw [hp x k hk, if_neg]
          intro hc
          -- the head of another bin is of another class
          rcases hF.head (binOf_lt P n) with hz | ⟨n', hm, hn'⟩
          · exact (hF.node x k hk).ne_zero (hc.trans hz)
          · rw [← hc] at hm
            rw [(hF.node x k hk).unique (hF.node x n' hm)] at hki
            exact he (hki.symm.trans hn')
      · rw [hmem]
        refine exists_congr fun k => and_congr_left fun hk => ?_
        refine ⟨.inl, fun hx => hx.resolve_right ?_⟩
        rintro ⟨-, rfl⟩
        exact he hk.symm
  · rw [hbits, hbins]
    by_cases he : i = binOf P n
    · rw [if_pos he, decide_eq_true he, Bool.or_true]
      exact iff_of_true rfl hb0
    · rw [if_neg he, decide_eq_false he, Bool.or_false]
      exact hF.bitmap i hi

end Heap.Filed

namespace Heap.Filed

variable (hF : h.Filed P M)
include hF

theorem run_scanBinFrom {bin need left back cur : Nat} {nodes : List Nat}
    (hl : Linked 0 (h.link P .next) (h.link P .prev) back cur nodes)
    (hmem : ∀ x ∈ nodes, ∃ k, M x k ∧ binOf P k = bin) :
    scanBinFrom P bin need left back cur h =
      (⟨((nodes.take left).find? fun x => need ≤ h.extent x).getD 0, false⟩, h) := by
  induction left generalizing back cur nodes with
  | zero => rfl
  | succ left ih =>
    rw [scanBinFrom, Prog.ite_run]
    cases hl with
    | done => rfl
    | @node _ _ rest hne hback tail =>
      obtain ⟨k, hk, hbin⟩ := hmem cur List.mem_cons_self
      have hf := hF.node cur k hk
      have hok : Prog.and (nodeOk P cur bin) (do
          let p ← freeLinkGet P cur .prev
          return p == back) h = (true, h) := by
        rw [Prog.and_run, hf.run_nodeOk, hbin, beq_self_eq_true, if_pos rfl,
          Prog.bind_run_of_eq (run_freeLinkGet hf.covers .prev), hback, beq_self_eq_true]
        rfl
      rw [if_neg hne, Prog.bind_run_of_eq hok, if_pos rfl,
        Prog.bind_run_of_eq (hf.run_blockSize), Prog.ite_run, List.take_succ_cons,
        List.find?_cons, hf.extent]
      by_cases hle : need ≤ k
      · rw [if_pos hle, decide_eq_true hle]
        rfl
      · rw [if_neg hle, decide_eq_false hle,
          Prog.bind_run_of_eq (run_freeLinkGet hf.covers .next)]
        exact ih tail fun x hx => hmem x (List.mem_cons_of_mem _ hx)

theorem run_binHead {bin : Nat} (hbin : bin < binCount) (hne : h.bins bin ≠ 0) :
    binHead P bin h = (⟨h.bins bin, false⟩, h) := by
  obtain ⟨nodes, hl, hmem⟩ := hF.bins bin hbin
  obtain ⟨n, hm, hn⟩ := (hmem _).mp (hl.mem_head hne)
  have hf := hF.node _ _ hm
  have hok : Prog.and (nodeOk P (h.bins bin) bin) (do
      let p ← freeLinkGet P (h.bins bin) .prev
      return p == 0) h = (true, h) := by
    rw [Prog.and_run, hf.run_nodeOk, hn, beq_self_eq_true, if_pos rfl,
      Prog.bind_run_of_eq (run_freeLinkGet hf.covers .prev), hl.prev_cur hne,
      beq_self_eq_true]
    rfl
  rw [binHead, Prog.bind_run, Prog.read_run, Prog.ite_run, if_neg hne, Prog.bind_run_of_eq hok,
    if_pos rfl]
  rfl

end Heap.Filed

/-- The blocks in each bin, from its head on. -/
structure Heap.Shelves (P : Profile) (h : Heap) (M : Nat → Nat → Prop) (lists : Nat → List Nat) :
    Prop where
  linked : ∀ i < binCount, Linked 0 (h.link P .next) (h.link P .prev) 0 (h.bins i) (lists i)
  mem_iff : ∀ i < binCount, ∀ b, b ∈ lists i ↔ ∃ n, M b n ∧ binOf P n = i

theorem Heap.Filed.shelves (hF : h.Filed P M) : ∃ lists, h.Shelves P M lists := by
  choose lists hl hmem using hF.bins
  refine ⟨fun i => if hi : i < binCount then lists i hi else [], fun i hi => ?_, fun i hi => ?_⟩
  · rw [dif_pos hi]
    exact hl i hi
  · rw [dif_pos hi]
    exact hmem i hi

theorem Heap.Shelves.headD_eq {lists : Nat → List Nat} (hS : h.Shelves P M lists)
    (hi : i < binCount) : (lists i).headD 0 = h.bins i := by
  have hl := hS.linked i hi
  generalize lists i = nodes at hl
  generalize h.bins i = cur at hl ⊢
  cases hl <;> rfl

/-- The first large enough of the leading members of the request's own bin. -/
def Heap.pickOwn (P : Profile) (h : Heap) (lists : Nat → List Nat) (need : Nat) : Option Nat :=
  ((lists (binOf P need)).take binScanCap).find? fun b => need ≤ h.extent b

/-- The lowest bin above the request's own that holds anything. -/
def pickAbove (P : Profile) (lists : Nat → List Nat) (need : Nat) : Option Nat :=
  (List.range binCount).find? fun i => binOf P need < i && !(lists i).isEmpty

/-- What the search is to find. -/
def Heap.pick (P : Profile) (h : Heap) (lists : Nat → List Nat) (need : Nat) : Nat :=
  (h.pickOwn P lists need).getD (((pickAbove P lists need).map fun i => (lists i).headD 0).getD 0)

namespace Heap.Filed

variable (hF : h.Filed P M)
include hF

theorem bit_iff {lists : Nat → List Nat} (hS : h.Shelves P M lists) (hi : i < binCount) :
    bitAt h.binBitmap i = true ↔ lists i ≠ [] := by
  have hl := hS.linked i hi
  rw [hF.bitmap i hi]
  cases he : lists i with
  | nil =>
    rw [he] at hl
    generalize h.bins i = cur at hl ⊢
    cases hl
    exact iff_of_false (not_not.mpr rfl) (not_not.mpr rfl)
  | cons b rest =>
    rw [he] at hl
    generalize h.bins i = cur at hl ⊢
    cases hl with
    | node hne => exact iff_of_true hne (List.cons_ne_nil _ _)

theorem pickAbove_eq {lists : Nat → List Nat} (hS : h.Shelves P M lists) (need : Nat) :
    pickAbove P lists need =
      if (nextNonempty (binOf P need + 1) h).1 < binCount then
        some (nextNonempty (binOf P need + 1) h).1 else none := by
  have hnext := nextNonempty_spec (binOf P need + 1) h
  have hge := nextNonempty_ge (binOf P need + 1) h
  generalize (nextNonempty (binOf P need + 1) h).1 = j at hnext hge ⊢
  have hempty : ∀ k, k < j → k < binCount → ¬ (decide (binOf P need < k) && !(lists k).isEmpty) = true := by
    intro k hkj hk hin
    rw [Bool.and_eq_true, decide_eq_true_eq, Bool.not_eq_true', List.isEmpty_eq_false_iff] at hin
    have hbit := (hF.bit_iff hS hk).mpr hin.2
    rw [hnext.1 k hin.1 hkj hk] at hbit
    exact Bool.false_ne_true hbit
  by_cases hj : j < binCount
  · have hne := (hF.bit_iff hS hj).mp (hnext.2 hj)
    rw [if_pos hj, pickAbove, List.find?_range_eq_some]
    refine ⟨?_, List.mem_range.mpr hj, fun k hk => ?_⟩
    · rw [Bool.and_eq_true, decide_eq_true_eq, Bool.not_eq_true', List.isEmpty_eq_false_iff]
      exact ⟨hge hj, hne⟩
    · exact Bool.not_eq_true' _ ▸ (Bool.not_eq_true _).mp (hempty k hk (Nat.lt_trans hk hj))
  · rw [if_neg hj, pickAbove, List.find?_eq_none]
    intro k hk
    have hk := List.mem_range.mp hk
    exact hempty k (by omega) hk

theorem run_binProbe {lists : Nat → List Nat} (hS : h.Shelves P M lists) (need : Nat) :
    binProbe P need h = (⟨h.pick P lists need, false⟩, h) := by
  have hl := hS.linked _ (binOf_lt P need)
  have hmem := hS.mem_iff _ (binOf_lt P need)
  have hscan : scanBin P (binOf P need) need h = (⟨(h.pickOwn P lists need).getD 0, false⟩, h) := by
    rw [scanBin, Prog.bind_run, Prog.read_run]
    exact hF.run_scanBinFrom hl fun x hx => (hmem x).mp hx
  rw [binProbe, Prog.bind_run_of_eq hscan, Prog.ite_run, Heap.pick]
  cases hfound : h.pickOwn P lists need with
  | none =>
    rw [if_neg (by simp), Prog.bind_run_of_eq (Still.run (still_nextNonempty _)), Prog.ite_run,
      Option.getD_none, hF.pickAbove_eq hS]
    have hnext := nextNonempty_spec (binOf P need + 1) h
    generalize (nextNonempty (binOf P need + 1) h).1 = j at hnext ⊢
    by_cases hj : j < binCount
    · have hne := (hF.bitmap _ hj).mp (hnext.2 hj)
      rw [if_pos hj, if_pos hj, hF.run_binHead hj hne, Option.map_some, Option.getD_some,
        hS.headD_eq hj]
    · rw [if_neg hj, if_neg hj]
      rfl
  | some x =>
    have hx := List.mem_of_mem_take (List.mem_of_find?_eq_some hfound)
    obtain ⟨k, hk, -⟩ := (hmem x).mp hx
    rw [Option.getD_some, if_pos (.inl (hF.node x k hk).ne_zero)]
    rfl

theorem run_binFind_pick {lists : Nat → List Nat} (hS : h.Shelves P M lists) (need : Nat) :
    binFind P need h = (h.pick P lists need, h) := by
  rw [binFind, binFindFrom, Prog.bind_run_of_eq (hF.run_binProbe hS need), Prog.ite_run]
  by_cases hz : h.pick P lists need = 0
  · rw [if_neg (not_not.mpr hz), hz]
    rfl
  · rw [if_pos hz]
    rfl

theorem pick_fits {lists : Nat → List Nat} (hS : h.Shelves P M lists) {need : Nat}
    (hne : h.pick P lists need ≠ 0) : ∃ n, M (h.pick P lists need) n ∧ need ≤ n := by
  rw [Heap.pick] at hne ⊢
  cases hown : h.pickOwn P lists need with
  | some x =>
    have hx := List.mem_of_mem_take (List.mem_of_find?_eq_some hown)
    have hle := List.find?_some hown
    obtain ⟨k, hk, -⟩ := (hS.mem_iff _ (binOf_lt P need) x).mp hx
    rw [(hF.node x k hk).extent, decide_eq_true_eq] at hle
    exact ⟨k, hk, hle⟩
  | none =>
    rw [hown, Option.getD_none] at hne
    rw [Option.getD_none]
    cases habove : pickAbove P lists need with
    | none =>
      rw [habove] at hne
      exact absurd rfl hne
    | some j =>
      have hj := List.mem_range.mp (List.mem_of_find?_eq_some habove)
      have hcond := List.find?_some habove
      rw [Bool.and_eq_true, decide_eq_true_eq] at hcond
      rw [habove, Option.map_some, Option.getD_some, hS.headD_eq hj] at hne
      rw [Option.map_some, Option.getD_some, hS.headD_eq hj]
      obtain ⟨k, hk, hkbin⟩ := (hF.head hj).resolve_left hne
      exact ⟨k, hk, Nat.le_of_lt (lt_of_binOf_lt (P := P) (by rw [hkbin]; exact hcond.1))⟩

end Heap.Filed

end Mars
