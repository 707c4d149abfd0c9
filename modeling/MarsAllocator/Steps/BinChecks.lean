import MarsAllocator.Steps.Checks

namespace Mars

open ByteMemory StateProgram LinkedChain

variable {P : Profile} {h : Heap} {i : Nat}

def Heap.link (P : Profile) (h : Heap) (which : Link) (b : Nat) : Nat := (freeLinkGet P b which h).1

/-- What the walk of bin `i` asks of a member, links apart. -/
structure Heap.Member (P : Profile) (h : Heap) (i b : Nat) : Prop where
  header : (headerOk P b h).1 = true
  filed : h.filedAs P i b = true

/-- The members of bin `i` in the order of their links, from `cur` on. -/
structure Heap.ChainFrom (P : Profile) (h : Heap) (i back cur : Nat) (nodes : List Nat) : Prop where
  linked : Linked 0 (h.link P .next) (h.link P .prev) back cur nodes
  members : ∀ b ∈ nodes, h.Member P i b

def Heap.Chain (P : Profile) (h : Heap) (i : Nat) (nodes : List Nat) : Prop :=
  h.ChainFrom P i 0 (h.bins i) nodes

theorem chainFrom_zero {back : Nat} {nodes : List Nat} :
    h.ChainFrom P i back 0 nodes ↔ nodes = [] := by
  constructor
  · rintro ⟨hl, -⟩
    exact hl.unique (.done back)
  · rintro rfl
    exact ⟨.done back, by simp⟩

theorem chainFrom_cons {back cur : Nat} {nodes : List Nat} (hc : cur ≠ 0) :
    h.ChainFrom P i back cur nodes ↔ h.Member P i cur ∧ h.link P .prev cur = back ∧
      ∃ rest, nodes = cur :: rest ∧ h.ChainFrom P i cur (h.link P .next cur) rest := by
  constructor
  · rintro ⟨hl, hm⟩
    cases hl with
    | done => exact absurd rfl hc
    | @node _ _ rest _ hb tail =>
      exact ⟨hm cur (by simp), hb, rest, rfl, tail, fun b hb => hm b (List.mem_cons_of_mem _ hb)⟩
  · rintro ⟨hm, hb, rest, rfl, hl, hrest⟩
    refine ⟨.node hc hb hl, fun b hb => ?_⟩
    rcases List.mem_cons.mp hb with rfl | hb
    · exact hm
    · exact hrest b hb

theorem member_fst (cur back : Nat) :
    (Prog.and (headerOk P cur) (do
      if ← isUsed cur then pure false
      else do
        let n ← blockSize cur
        let p ← freeLinkGet P cur .prev
        return binOf P n == i && p == back) h).1 = true ↔
      h.Member P i cur ∧ h.link P .prev cur = back := by
  have hrest : ((do
      if ← isUsed cur then pure false
      else do
        let n ← blockSize cur
        let p ← freeLinkGet P cur .prev
        return binOf P n == i && p == back : HeapM Bool) h).1 =
      (h.filedAs P i cur && h.link P .prev cur == back) := by
    rw [fst_bind, fst_ite, fst_bind, fst_bind]
    change (if wordUsed (h.word cur) = true then false else
      (binOf P (h.extent cur) == i && h.link P .prev cur == back)) = _
    rw [Heap.filedAs]
    cases wordUsed (h.word cur) <;> simp
  rw [fst_and, hrest]
  simp only [Bool.and_eq_true, beq_iff_eq]
  constructor
  · rintro ⟨hk, hf, hb⟩
    exact ⟨⟨hk, hf⟩, hb⟩
  · rintro ⟨⟨hk, hf⟩, hb⟩
    exact ⟨hk, hf, hb⟩

theorem binWalk_ok {budget back cur seen n : Nat} :
    (binWalk P i budget back cur seen h).1 = some n ↔
      ∃ nodes, h.ChainFrom P i back cur nodes ∧ nodes.length ≤ budget ∧ n = seen + nodes.length := by
  induction budget generalizing back cur seen with
  | zero =>
    change (if cur = 0 then some seen else none) = some n ↔ _
    by_cases hc : cur = 0
    · subst hc
      rw [if_pos rfl]
      constructor
      · rintro hn
        exact ⟨[], chainFrom_zero.mpr rfl, le_refl _, (Option.some.inj hn).symm⟩
      · rintro ⟨nodes, hl, -, rfl⟩
        rw [chainFrom_zero.mp hl]
        rfl
    · rw [if_neg hc]
      refine iff_of_false (by simp) ?_
      rintro ⟨nodes, hl, hlen, -⟩
      obtain ⟨-, -, rest, rfl, -⟩ := (chainFrom_cons hc).mp hl
      simp at hlen
  | succ budget ih =>
    rw [binWalk, fst_ite]
    by_cases hc : cur = 0
    · subst hc
      rw [if_pos rfl]
      constructor
      · intro hn
        exact ⟨[], chainFrom_zero.mpr rfl, by simp, (Option.some.inj hn).symm⟩
      · rintro ⟨nodes, hl, -, rfl⟩
        rw [chainFrom_zero.mp hl]
        rfl
    rw [if_neg hc, fst_bind, fst_ite, fst_bind]
    by_cases hm : h.Member P i cur ∧ h.link P .prev cur = back
    · rw [if_pos ((member_fst cur back).mpr hm)]
      refine ih.trans ?_
      constructor
      · rintro ⟨nodes, hl, hlen, rfl⟩
        refine ⟨cur :: nodes, (chainFrom_cons hc).mpr ⟨hm.1, hm.2, nodes, rfl, hl⟩, ?_, ?_⟩
        · simpa using hlen
        · rw [List.length_cons]
          omega
      · rintro ⟨nodes, hl, hlen, rfl⟩
        obtain ⟨-, -, rest, rfl, hrest⟩ := (chainFrom_cons hc).mp hl
        refine ⟨rest, hrest, by simpa using hlen, ?_⟩
        rw [List.length_cons]
        omega
    · rw [if_neg fun hf => hm ((member_fst cur back).mp hf)]
      refine iff_of_false (by simp [Prog.pure_run]) ?_
      rintro ⟨nodes, hl, -, -⟩
      obtain ⟨hm', hb, -⟩ := (chainFrom_cons hc).mp hl
      exact hm ⟨hm', hb⟩

def Heap.bit (h : Heap) (i : Nat) : Bool := (h.binBitmap (i / 64)).getLsbD (i % 64)

/-- What `mm_bins_check` asks of bin `i`. -/
structure BinChecks (P : Profile) (h : Heap) (counts : Nat → Nat) (i : Nat) : Prop where
  bitmap : h.bit i = true ↔ h.bins i ≠ 0
  chain : ∃ nodes, h.Chain P i nodes ∧ nodes.length ≤ h.totalBytes / P.minBlock + 1 ∧
    nodes.length = counts i

theorem binCheck_ok {counts : Nat → Nat} :
    (binCheck P counts i h).1 = true ↔ BinChecks P h counts i := by
  have : Observes (Prog.read fun h : Heap => h.bins i) := observes_read fun _ _ _ _ _ => rfl
  have : Observes (bitmapTest i) := observes_read fun _ _ _ _ _ => rfl
  have : Observes (maxBlocks P) := observes_read fun _ _ _ _ _ => rfl
  rw [binCheck, fst_bind, fst_bind, fst_ite, fst_bind, fst_bind]
  change (if (h.bit i != (h.bins i != 0)) = true then false else
    ((binWalk P i (h.totalBytes / P.minBlock + 1) 0 (h.bins i) 0 h).1 == some (counts i))) = true ↔ _
  by_cases hb : h.bit i = true ↔ h.bins i ≠ 0
  · have hbit : h.bit i = (h.bins i != 0) := by
      rw [Bool.eq_iff_iff, hb]
      simp
    rw [if_neg (by simp [hbit]), beq_iff_eq, binWalk_ok]
    constructor
    · rintro ⟨nodes, hl, hlen, hn⟩
      exact ⟨hb, nodes, hl, hlen, by omega⟩
    · rintro ⟨-, nodes, hl, hlen, hn⟩
      exact ⟨nodes, hl, hlen, by omega⟩
  · rw [if_pos]
    · exact iff_of_false Bool.false_ne_true fun hc => hb hc.bitmap
    · rw [bne_iff_ne]
      intro hbit
      exact hb (by rw [hbit]; simp)

theorem binsCheck_ok {counts : Nat → Nat} :
    (binsCheck P counts h).1 = .ok ↔ ∀ i < binCount, BinChecks P h counts i := by
  have key : ∀ left ≤ binCount, (binsCheckFrom P counts left h).1 = .ok ↔
      ∀ i < binCount, binCount - left ≤ i → BinChecks P h counts i := by
    intro left
    induction left with
    | zero =>
      intro _
      exact iff_of_true rfl fun i hi hge => absurd hi (by omega)
    | succ left ih =>
      intro hle
      rw [binsCheckFrom, fst_bind, fst_ite]
      by_cases hc : BinChecks P h counts (binCount - (left + 1))
      · rw [if_pos (binCheck_ok.mpr hc), ih (by omega)]
        refine ⟨fun hall i hi hge => ?_, fun hall i hi hge => hall i hi (by omega)⟩
        by_cases he : i = binCount - (left + 1)
        · rw [he]
          exact hc
        · exact hall i hi (by omega)
      · rw [if_neg fun hf => hc (binCheck_ok.mp hf)]
        exact iff_of_false (by simp [Prog.bind_run, Prog.pure_run]) fun hall =>
          hc (hall _ (by omega) (le_refl _))
  rw [binsCheck, key binCount (le_refl _)]
  simp

end Mars
