import MarsAllocator.Steps.Bins
import MarsAllocator.Steps.Confine

namespace Mars

open ByteMemory StateProgram

variable {P : Profile} {s : Span} {m : Memory} {h h' : Heap} {b need : Nat}

theorem nodeOk_bin {bin : Nat} (ho : h.Own b) (hn : (nodeOk P b bin h).1 = true) :
    binOf P (wordSize (h.word b)) = bin := by
  rw [nodeOk, bind_still (still_isBlock ho), Prog.ite_run] at hn
  split at hn
  swap
  · exact absurd hn (by simp [Prog.pure_run])
  rw [bind_still (still_headerOk ho), Prog.ite_run] at hn
  split at hn
  swap
  · exact absurd hn (by simp [Prog.pure_run])
  rename_i hk
  have hp := P.sizes
  obtain ⟨s', -, -, hm⟩ := headerOk_covers ho hk
  rw [bind_still (still_isUsed (hm.sub (le_refl b) (by omega))), Prog.ite_run] at hn
  split at hn
  · exact absurd hn (by simp [Prog.pure_run])
  · exact beq_iff_eq.mp hn

/-- The block at `b` lies in `s` and holds `need` bytes. -/
def Fits (P : Profile) (s : Span) (need : Nat) (h : Heap) (b : Nat) : Prop :=
  Room P s b ∧ b + wordSize (h.word b) ≤ s.hi ∧ need ≤ wordSize (h.word b)

/-- A probe that found a block found one that fits. -/
def Probe.Sound (P : Profile) (s : Span) (need : Nat) (h : Heap) (r : Probe) : Prop :=
  r.block = 0 ∨ Fits P s need h r.block

theorem scanBinFrom_sound (hc : Confined s m h) (bin need left back cur : Nat) :
    (scanBinFrom P bin need left back cur h).1.Sound P s need h := by
  induction left generalizing back cur with
  | zero => exact Or.inl rfl
  | succ left ih =>
    rw [scanBinFrom, Prog.ite_run]
    split
    · exact Or.inl rfl
    have hand : Still (Prog.and (nodeOk P cur bin) do
        let p ← freeLinkGet P cur .prev
        return p == back) h := by
      refine Still.and (still_nodeOk (hc.own cur) bin) fun hn => ?_
      exact (still_freeLinkGet ((nodeOk_room hc hn).1.covers hc) .prev).bind rfl
    rw [bind_still hand, Prog.ite_run]
    split
    swap
    · exact Or.inl rfl
    rename_i hok
    have hn : (nodeOk P cur bin h).1 = true := by
      rw [Prog.and_run] at hok
      by_contra hn
      rw [if_neg hn] at hok
      exact Bool.false_ne_true hok
    obtain ⟨hroom, hend⟩ := nodeOk_room hc hn
    rw [bind_still (still_blockSize (hroom.covers8 hc)), Prog.ite_run]
    split
    · exact Or.inr ⟨hroom, hend, ‹_›⟩
    · rw [bind_still (still_freeLinkGet (hroom.covers hc) .next)]
      exact ih _ _

theorem binHead_sound (hc : Confined s m h) {bin : Nat} (hbin : binOf P need < bin) :
    (binHead P bin h).1.Sound P s need h := by
  rw [binHead, Prog.bind_run, Prog.read_run, Prog.ite_run]
  generalize h.bins bin = head
  split
  · exact Or.inl rfl
  have hand : Still (Prog.and (nodeOk P head bin) do
      let p ← freeLinkGet P head .prev
      return p == 0) h := by
    refine Still.and (still_nodeOk (hc.own head) bin) fun hn => ?_
    exact (still_freeLinkGet ((nodeOk_room hc hn).1.covers hc) .prev).bind rfl
  rw [bind_still hand, Prog.ite_run]
  split
  swap
  · exact Or.inl rfl
  rename_i hok
  have hn : (nodeOk P head bin h).1 = true := by
    rw [Prog.and_run] at hok
    by_contra hn
    rw [if_neg hn] at hok
    exact Bool.false_ne_true hok
  obtain ⟨hroom, hend⟩ := nodeOk_room hc hn
  have hlt : need < wordSize (h.word head) := by
    rw [← nodeOk_bin (hc.own head) hn] at hbin
    exact lt_of_binOf_lt hbin
  exact Or.inr ⟨hroom, hend, hlt.le⟩

theorem binProbe_sound (hc : Confined s m h) (need : Nat) :
    (binProbe P need h).1.Sound P s need h := by
  have hs : Still (scanBin P (binOf P need) need) h :=
    Still.bind rfl (still_scanBinFrom hc.own _ _ _ _ _)
  rw [binProbe, bind_still hs, Prog.ite_run]
  split
  · exact scanBinFrom_sound hc _ _ _ _ _
  rw [bind_still (still_nextNonempty _), Prog.ite_run]
  split
  · rename_i hj
    exact binHead_sound hc (nextNonempty_ge _ h hj)
  · exact Or.inl rfl

theorem confined_binFindFrom (hc : Confined s m h) (need attempts : Nat) :
    wp (binFindFrom P need attempts) (fun b h' => Confined s m h' ∧ (b = 0 ∨ Fits P s need h' b))
      h := by
  induction attempts generalizing h with
  | zero => exact ⟨hc, Or.inl rfl⟩
  | succ attempts ih =>
    have hsound := binProbe_sound (P := P) hc need
    rw [binFindFrom]
    refine wp_still (still_binProbe hc.own need) ?_
    generalize (binProbe P need h).1 = found at hsound
    rw [wp_ite]
    split
    · rename_i h0
      exact ⟨hc, Or.inr (hsound.resolve_left h0)⟩
    rw [wp_ite]
    split
    swap
    · exact ⟨hc, Or.inl rfl⟩
    refine wp_aside hc fun _ h₁ hc₁ _ => ?_
    rw [wp_bind, wp]
    exact ih (confined_binsRebuild hc₁)

theorem confined_binFind (hc : Confined s m h) (need : Nat) :
    wp (binFind P need) (fun b h' => Confined s m h' ∧ (b = 0 ∨ Fits P s need h' b)) h :=
  confined_binFindFrom hc need 2

theorem confined_chooseBlock (hc : Confined s m h) (need : Nat) :
    wp (chooseBlock P need) (fun b h' => Confined s m h' ∧ (b = 0 ∨ Fits P s need h' b)) h := by
  have hfixed : (Prog.read (fun h : Heap => h.growable && largeThreshold < need) h).1 = false := by
    rw [Prog.read_run, hc.fixed, Bool.false_and]
  rw [chooseBlock]
  refine wp_still_eq rfl hfixed ?_
  rw [if_neg (by decide)]
  refine wp_seq (confined_binFind hc need) fun b h₁ ⟨hc₁, hb⟩ => ?_
  have hgrow : growFor P need h₁ = (0, h₁) := by
    rw [growFor, Prog.bind_run, Prog.read_run, hc₁.fixed]
    rfl
  have hsame : (if b = 0 then growFor P need else pure b) h₁ = (b, h₁) := by
    rw [Prog.ite_run]
    split
    · rename_i h0
      rw [hgrow, h0]
    · rfl
  rw [wp_bind, wp, hsame, wp_ite, if_neg fun hf => Bool.false_ne_true hf.2]
  exact ⟨hc₁, hb⟩

end Mars
