import MarsAllocator.Steps.Fast

namespace Mars

open ByteMemory StateProgram

variable {s : Span} {m : Memory} {h h' : Heap} {b : Nat}

theorem Confined.nextSpan (hc : Confined s m h) (s' : Span) : h.nextSpan s' = s := by
  rw [Heap.nextSpan, hc.spans]
  by_cases hs : s = s' <;> simp [spanAfter, hs]

theorem confined_scrubBlock (hc : Confined s m h) (hk : (headerOk .fast b h).1 = true) :
    Confined s m (scrubBlock .fast b h).2 := by
  have hw : wp (scrubBlock .fast b) (fun _ h' => Confined s m h') h := by
    obtain ⟨hb, hend⟩ := headerOk_room hc hk
    obtain ⟨s', hk⟩ := (headerOk_fst h b).mp hk
    have hmin := hk.min_le
    have hp := Profile.fast.sizes
    have hlo := hb.1
    have h8 := hb.covers8 hc
    have hv : (blockSize b h).1 = wordSize (h.word b) := rfl
    rw [scrubBlock, fast_canaryOk, pure_bind_run, wp_ite, if_pos rfl]
    refine wp_still (still_isUsed h8) ?_
    rw [wp_ite]
    split
    · rw [fast_payloadOk, pure_bind_run, wp_ite, if_pos rfl]
      exact hc
    refine wp_still_eq (still_blockSize h8) hv ?_
    refine wp_still (still_load64 (hc.covers (by omega) (by omega))) ?_
    rw [wp_ite]
    split <;> exact hc
  exact hw

theorem confined_setCursor (hc : Confined s m h) (p : Nat) :
    Confined s m (setCursor s p h).2 :=
  ⟨hc.registry, hc.spans, hc.tame, hc.fixed, hc.stale, fun _ hs' => (Option.some.inj hs').symm,
    hc.agree⟩

theorem prevFreeBlock_room (hc : Confined s m h) (hb : Room .fast s b) :
    (prevFreeBlock .fast b h).1 = 0 ∨ Room .fast s (prevFreeBlock .fast b h).1 := by
  have hp := Profile.fast.sizes
  have hspan := hc.spanOf hb.1 (by have := hb.2; omega)
  rw [prevFreeBlock, bind_still (still_prevInUse (hb.covers8 hc)), Prog.ite_run]
  split
  · exact Or.inl rfl
  rw [withSpanOf, Prog.bind_run, Prog.read_run, hspan, Prog.elim_some, Prog.ite_run]
  split
  · exact Or.inl rfl
  have h8 : h.Covers (b - 8) 8 := hc.covers (by omega) (by have := hb.2; omega)
  have hfoot : Still (readPrevFooter b) h := still_load64 h8
  rw [bind_still hfoot]
  generalize (readPrevFooter b h).1 = n
  rw [Prog.ite_run]
  split
  · exact Or.inl rfl
  rw [Prog.bind_run, Prog.pure_run, Prog.and_run]
  by_cases hk : (headerOk .fast (b - n) h).1 = true
  · rw [if_pos hk]
    dsimp only
    split
    · exact Or.inr (headerOk_room hc hk).1
    · exact Or.inl rfl
  · rw [if_neg hk]
    exact Or.inl rfl

theorem confined_writeTail (hc : Confined s m h) (hb : Room .fast s b) (n : Nat) :
    Confined s m (writeTail .fast b n h).2 := by
  have hw : wp (writeTail .fast b n) (fun _ h' => Confined s m h') h := by
    rw [writeTail, wp_bind, wp]
    have hc₁ := confined_store64 hc hb 0
    generalize (store64 b 0 h).2 = h₁ at hc₁
    rw [fast_setPayloadCrc, pure_bind_run, wp_bind, wp]
    have hc₂ := confined_setWord hc₁ hb n Profile.fast.trail true false
    generalize (setWord b n Profile.fast.trail true false h₁).2 = h₂ at hc₂
    exact confined_setPrevInUse hc₂ hb true
  exact hw

theorem confined_scrubStep (hc : Confined s m h) (lap : Lap)
    (hk : (headerOk .fast lap.pos h).1 = true) :
    wp (scrubStep .fast lap) (fun lap' h' => Confined s m h' ∧ lap'.span = lap.span) h := by
  obtain ⟨hb, -⟩ := headerOk_room hc hk
  have hc₁ := confined_scrubBlock hc hk
  rw [scrubStep, wp_bind, wp]
  generalize (scrubBlock .fast lap.pos h).1 = st
  generalize (scrubBlock .fast lap.pos h).2 = h₁ at hc₁
  refine wp_still (still_blockSize (hb.covers8 hc₁)) ⟨hc₁, ?_⟩
  change (lap.note st).span = lap.span
  unfold Lap.note
  split <;> rfl

section Sized

variable (hs : s.hi - s.lo < 2 ^ 58)
include hs

theorem confined_scrubRescue (hc : Confined s m h) (b : Nat) :
    wp (scrubRescue .fast b) (fun ok h' => Confined s m h' ∧
      (ok = true → (headerOk .fast b h').1 = true)) h := by
  refine wp_still (still_isBlock (hc.own b)) ?_
  have hrescue : wp (Prog.when ((isBlock .fast b h).1 = true) do
      let _ ← rescue .fast b
      pure ()) (fun _ h' => Confined s m h') h := by
    rw [wp_when]
    split
    · exact confined_rescue hs hc b
    · exact hc
  refine wp_seq hrescue fun _ h₁ hc₁ => ?_
  have hst := still_headerOk (P := .fast) (hc₁.own b)
  rw [wp, hst]
  exact ⟨hc₁, id⟩

theorem confined_scrubLoop (hc : Confined s m h) (budget guard : Nat) {lap : Lap}
    (hl : lap.span = s) :
    wp (scrubLoop .fast budget guard lap) (fun lap' h' => Confined s m h' ∧ lap'.span = s) h := by
  induction guard generalizing h lap with
  | zero => exact ⟨hc, hl⟩
  | succ guard ih =>
    rw [scrubLoop, wp_ite]
    split
    swap
    · exact ⟨hc, hl⟩
    have hspan : wp (lapSpan lap) (fun lap' h' => h' = h ∧ lap'.span = s) h := by
      rw [lapSpan, wp_ite]
      split
      · exact ⟨rfl, hc.nextSpan _⟩
      · exact ⟨rfl, hl⟩
    refine wp_seq hspan fun lap h₁ ⟨he, hl⟩ => ?_
    subst he
    refine wp_still (still_headerOk (hc.own _)) ?_
    rw [wp_ite]
    split
    · rename_i hk
      refine wp_seq (confined_scrubStep hc lap hk) fun lap₁ h₂ ⟨hc₂, hl₂⟩ => ?_
      exact ih hc₂ (hl₂.trans hl)
    have hnote (lap : Lap) (st : Status) : (lap.note st).span = lap.span := by
      unfold Lap.note
      split <;> rfl
    refine wp_seq (confined_scrubRescue hs hc _) fun ok h₂ ⟨hc₂, hok⟩ => ?_
    rw [wp_ite]
    split
    · rename_i hk
      refine wp_seq (confined_scrubStep hc₂ (lap.note .corruptHeader) ?_)
        fun lap₁ h₃ ⟨hc₃, hl₃⟩ => ih hc₃ (hl₃.trans ((hnote _ _).trans hl))
      have hpos : (lap.note .corruptHeader).pos = lap.pos := rfl
      rw [hpos]
      exact hok hk
    · exact ih hc₂ ((hnote _ _).trans hl)

theorem confined_scrubRun (hc : Confined s m h) (budget : Nat) :
    Confined s m (scrubRun .fast budget h).2 := by
  have hw : wp (scrubRun .fast budget) (fun _ h' => Confined s m h') h := by
    rw [scrubRun, wp_ite]
    split
    · exact hc
    have hspan : h.scrubSpan.or h.spans.head? = some s := by
      rw [hc.spans]
      rcases hcur : h.scrubSpan with _ | s'
      · rfl
      · rw [hc.cursor s' hcur]
        rfl
    rw [wp_bind, wp_read, hspan, Prog.elim_some, wp_bind, wp_read, maxBlocks, wp_bind, wp_read,
      wp_bind, wp_read]
    refine wp_seq (confined_scrubLoop hs hc budget _ rfl) fun lap h₁ ⟨hc₁, hl⟩ => ?_
    rw [scrubEnd, wp_bind, wp, hl]
    refine wp_aside (confined_setCursor hc₁ _) fun _ h₂ hc₂ _ => ?_
    refine wp_aside hc₂ fun _ h₃ hc₃ _ => ?_
    have : Respects Aside (Prog.when (lap.found ≠ .ok) (fail lap.found)) := inferInstance
    exact wp_aside hc₃ fun _ h₄ hc₄ _ => hc₄
  exact hw

theorem confined_scrubTick (hc : Confined s m h) : Confined s m (scrubTick .fast h).2 := by
  have hw : wp (scrubTick .fast) (fun _ h' => Confined s m h') h := by
    refine wp_aside hc fun _ h₁ hc₁ _ => ?_
    rw [wp_bind, wp_read, wp_when]
    split
    swap
    · exact hc₁
    rw [wp_bind, wp_read]
    refine wp_aside hc₁ fun _ h₂ hc₂ _ => ?_
    rw [wp_bind, wp_read, wp_when]
    split
    swap
    · exact hc₂
    refine wp_aside hc₂ fun _ h₃ hc₃ _ => ?_
    rw [wp_bind, wp_read, wp_bind, wp]
    exact confined_scrubRun hs hc₃ _
  exact hw

theorem confined_absorbNext (hc : Confined s m h) (hb : Room .fast s b) (own : Nat) :
    Confined s m (absorbNext .fast s b own h).2 := by
  have hw : wp (absorbNext .fast s b own) (fun _ h' => Confined s m h') h := by
    have h8 := hb.covers8 hc
    refine wp_still (still_blockEnd h8) ?_
    generalize (blockEnd b h).1 = n
    rw [wp_ite]
    split
    · exact hc
    have hand : Still (Prog.and (headerOk .fast n) do
        let used ← isUsed n
        return !used) h :=
      Still.and (still_headerOk (hc.own n)) fun hk =>
        (still_isUsed ((headerOk_room hc hk).1.covers8 hc)).bind rfl
    refine wp_still hand ?_
    rw [wp_ite]
    split
    · exact hc
    rename_i hm
    have hk : (headerOk .fast n h).1 = true := by
      rw [Prog.and_run] at hm
      by_contra hk
      rw [if_neg hk] at hm
      exact hm rfl
    obtain ⟨hn, -⟩ := headerOk_room hc hk
    refine wp_still (still_blockSize (hn.covers8 hc)) ?_
    rw [wp_bind, wp]
    have hc₁ := confined_binRemove hc hn
    generalize (binRemove .fast n h).2 = h₁ at hc₁
    refine wp_still (still_unchanged (hc₁.own b) own true) ?_
    rw [wp_ite]
    split
    swap
    · rw [wp_bind, wp]
      exact confined_aside (x := do
        fail .corruptHeader
        pure (none : Option Nat)) (confined_quarantine hs hc₁ b)
    refine wp_still (still_unchanged (hc₁.own n) _ false) ?_
    rw [wp_ite]
    split
    swap
    · rw [wp_bind, wp]
      exact confined_aside (x := do
        fail .corruptHeader
        pure (some own)) (confined_quarantine hs hc₁ n)
    rw [wp_bind, wp]
    have hc₂ := confined_setBlockSize hc₁ hb (own + (blockSize n h).1)
    generalize (setBlockSize b (own + (blockSize n h).1) h₁).2 = h₂ at hc₂
    refine wp_still (still_blockEnd (hb.covers8 hc₂)) ?_
    exact wp_aside hc₂ fun _ h₃ hc₃ _ => hc₃
  exact hw

theorem confined_absorbPrev (hc : Confined s m h) (hb : Room .fast s b) (own : Nat) :
    wp (absorbPrev .fast b own) (fun r h' => Confined s m h' ∧ (r = 0 ∨ Room .fast s r)) h := by
  have hp := Profile.fast.sizes
  have hspan := hc.spanOf hb.1 (by have := hb.2; omega)
  have hmem : s ∈ h.spans := by
    rw [hc.spans]
    exact List.mem_singleton.mpr rfl
  have hprev := prevFreeBlock_room hc hb
  refine wp_still (still_prevFreeBlock hc.own hspan hmem (by have := hb.2; omega)) ?_
  generalize (prevFreeBlock .fast b h).1 = prev at hprev
  rw [wp_ite]
  split
  · exact ⟨hc, Or.inr hb⟩
  rename_i h0
  have hprev := hprev.resolve_left h0
  refine wp_still (still_blockSize (hprev.covers8 hc)) ?_
  generalize (blockSize prev h).1 = before
  rw [wp_bind, wp]
  have hc₁ := confined_binRemove hc hprev
  generalize (binRemove .fast prev h).2 = h₁ at hc₁
  refine wp_still (still_unchanged (hc₁.own b) own true) ?_
  rw [wp_ite]
  split
  swap
  · rw [wp_bind, wp]
    exact ⟨confined_aside (x := do
      fail .corruptHeader
      pure 0) (confined_quarantine hs hc₁ b), Or.inl rfl⟩
  refine wp_still (still_unchanged (hc₁.own prev) before false) ?_
  rw [wp_ite]
  split
  swap
  · rw [wp_bind, wp]
    exact ⟨confined_aside (x := do
      fail .corruptHeader
      pure b) (confined_quarantine hs hc₁ prev), Or.inr hb⟩
  rw [wp_bind, wp]
  have hc₂ := confined_setWord hc₁ hprev (before + own) Profile.fast.trail true false
  generalize (setWord prev (before + own) Profile.fast.trail true false h₁).2 = h₂ at hc₂
  refine wp_still (still_blockEnd (hprev.covers8 hc₂)) ?_
  exact wp_aside hc₂ fun _ h₃ hc₃ _ => ⟨hc₃, Or.inr hprev⟩

theorem confined_absorbNeighbours (hc : Confined s m h) (hb : Room .fast s b) :
    wp (absorbNeighbours .fast b) (fun r h' => Confined s m h' ∧ (r = 0 ∨ Room .fast s r)) h := by
  have hp := Profile.fast.sizes
  refine wp_still (still_blockSize (hb.covers8 hc)) ?_
  generalize (blockSize b h).1 = own
  rw [withSpanOf, wp_bind, wp_read, hc.spanOf hb.1 (by have := hb.2; omega), Prog.elim_some,
    wp_bind, wp]
  have hc₁ := confined_absorbNext hs hc hb own
  generalize (absorbNext .fast s b own h).1 = grown
  generalize (absorbNext .fast s b own h).2 = h₁ at hc₁
  rcases grown with _ | grown
  · exact ⟨hc₁, Or.inl rfl⟩
  · exact confined_absorbPrev hs hc₁ hb grown

theorem confined_releaseBlock (hc : Confined s m h) (hb : Room .fast s b) :
    Confined s m (releaseBlock .fast b h).2 := by
  have hw : wp (releaseBlock .fast b) (fun _ h' => Confined s m h') h := by
    refine wp_still (still_blockSize (hb.covers8 hc)) ?_
    rw [wp_bind, wp]
    have hc₁ := confined_setWord hc hb (blockSize b h).1 0 false false
    generalize (setWord b (blockSize b h).1 0 false false h).2 = h₁ at hc₁
    rw [fast_setPayloadCrc, pure_bind_run, wp_bind, wp]
    have hc₂ := confined_publish hs hc₁ b
    generalize (publish .fast b h₁).1 = ok
    generalize (publish .fast b h₁).2 = h₂ at hc₂
    rw [wp_when]
    split
    · exact confined_binInsert hc₂ hb
    · exact hc₂
  exact hw

theorem confined_splitBlock (hc : Confined s m h) (hb : Room .fast s b)
    (hend : b + wordSize (h.word b) ≤ s.hi) {need : Nat} (hneed : need ≤ wordSize (h.word b)) :
    Confined s m (splitBlock .fast b need h).2 := by
  have hw : wp (splitBlock .fast b need) (fun _ h' => Confined s m h') h := by
    have hp := Profile.fast.sizes
    have hlt := wordSize_lt (word_lt h b)
    refine wp_still_eq (still_blockSize (hb.covers8 hc))
      (show _ = wordSize (h.word b) from rfl) ?_
    rw [wp_when, usub_of_le hneed (by omega)]
    split
    swap
    · exact hc
    have hlo := hb.1
    have htail : Room .fast s (b + need) := ⟨by omega, by omega⟩
    rw [wp_bind, wp]
    have hc₁ := confined_setBlockSize hc hb need
    generalize (setBlockSize b need h).2 = h₁ at hc₁
    rw [fast_sealHeader, pure_bind_run, wp_bind, wp]
    have hc₂ := confined_writeTail hc₁ htail (wordSize (h.word b) - need)
    generalize (writeTail .fast (b + need) (wordSize (h.word b) - need) h₁).2 = h₂ at hc₂
    refine wp_seq (confined_absorbNeighbours hs hc₂ htail) fun run h₃ hpost => ?_
    obtain ⟨hc₃, hrun⟩ := hpost
    rw [wp_when]
    split
    · rename_i h0
      exact confined_releaseBlock hs hc₃ (hrun.resolve_left h0)
    · exact hc₃
  exact hw

theorem confined_finishAllocation (hc : Confined s m h) (hb : Room .fast s b) (size : Nat) :
    Confined s m (finishAllocation .fast b size h).2 := by
  have hw : wp (finishAllocation .fast b size) (fun _ h' => Confined s m h') h := by
    refine wp_still (still_blockSize (hb.covers8 hc)) ?_
    rw [wp_bind, wp_read, wp_bind, wp, fast_writeCanary, pure_bind_run]
    exact confined_publish hs (confined_setWord hc hb _ _ _ _) b
  exact hw

end Sized

end Mars
