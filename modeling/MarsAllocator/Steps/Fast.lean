import MarsAllocator.Steps.Rescue
import MarsAllocator.Steps.Sizes
import MarsAllocator.Steps.Search

namespace Mars

open ByteMemory StateProgram

variable {s : Span} {m : Memory} {h h' : Heap} {b : Nat}

theorem fast_sealHeader (b : Nat) : sealHeader .fast b = pure () := rfl

theorem fast_setPayloadCrc (b v : Nat) : setPayloadCrc .fast b v = pure () := rfl

theorem fast_writeCanary (b : Nat) : writeCanary .fast b = pure () := rfl

theorem fast_canaryOk (b : Nat) : canaryOk .fast b = pure true := rfl

theorem fast_payloadOk (b : Nat) : payloadOk .fast b = pure true := rfl

theorem fast_mirrorSays (s : Span) (x y : Nat) : mirrorSays .fast s x y = pure none := rfl

theorem pure_bind_run {α β : Type} (a : α) (f : α → HeapM β) : (pure a >>= f) = f a := rfl

theorem word_setWord_used {n slack : Nat} {quarantined : Bool} (hn : n < 2 ^ 58)
    (hs : slack < 128) (used : Bool) :
    wordUsed ((setWord b n slack used quarantined h).2.word b) = used := by
  rw [word_setWord hn hs, wordUsed_mkWord]

theorem confined_relink (hc : Confined s m h) (hb : Room .fast s b) (used : Bool) :
    Confined s m (relink .fast b used h).2 := by
  rw [relink, bind_still (still_prevInUse (hb.covers8 hc)), fast_sealHeader, Prog.when_run]
  split
  · exact confined_setPrevInUse hc hb used
  · exact hc

theorem confined_sealAndLink (hc : Confined s m h) (hb : Room .fast s b)
    (hu : wordUsed (h.word b) = true) : Confined s m (sealAndLink .fast b h).2 := by
  have hw : wp (sealAndLink .fast b) (fun _ h' => Confined s m h') h := by
    have h8 := hb.covers8 hc
    refine wp_still_eq (still_isUsed h8) hu ?_
    rw [wp_when_false _ (by decide), fast_sealHeader, pure_bind_run, withSpanOf, wp_bind, wp_read]
    rcases h.spanOf b with _ | s'
    · exact hc
    rw [Prog.elim_some]
    refine wp_still (still_blockEnd h8) ?_
    generalize (blockEnd b h).1 = n
    rw [wp_when]
    split
    swap
    · exact hc
    refine wp_still (still_headerOk (hc.own n)) ?_
    rw [wp_when]
    split
    swap
    · exact hc
    rename_i hk
    exact wp_still (still_isUsed h8) (confined_relink hc (headerOk_room hc hk).1 _)
  exact hw

theorem lostRun_le (hb : Room .fast s b) :
    b + lostRun s b (scanResync .fast s b h).1 ≤ s.hi := by
  have hbound := scanResyncFrom_bounds .fast s recoverySteps (b + Profile.fast.minBlock) h
  change (scanResync .fast s b h).1 ≠ 0 → b + Profile.fast.minBlock ≤ (scanResync .fast s b h).1 ∧
    (scanResync .fast s b h).1 < s.hi at hbound
  have := hb.2
  rw [lostRun]
  split
  · have := hbound ‹_›
    omega
  · omega

section Sized

variable (hs : s.hi - s.lo < 2 ^ 58)
include hs

theorem confined_abandon (hc : Confined s m h) (hb : Room .fast s b) {n : Nat} (hn : b + n ≤ s.hi)
    (prevUsed : Bool) :
    wp (abandon .fast b n prevUsed) (fun r h' => Confined s m h' ∧ (r = 0 ∨ Room .fast s r)) h := by
  rw [abandon, wp_ite]
  split
  · exact wp_aside hc fun _ h₁ hc₁ _ => ⟨hc₁, Or.inl rfl⟩
  have hlt : n < 2 ^ 58 := by
    have := hb.1
    omega
  rw [wp_bind, wp]
  have hc₁ := confined_store64 hc hb 0
  generalize (store64 b 0 h).2 = h₁ at hc₁
  rw [fast_setPayloadCrc, pure_bind_run, wp_bind, wp]
  have hc₂ := confined_setWord hc₁ hb n 0 true true
  have hu₂ : wordUsed ((setWord b n 0 true true h₁).2.word b) = true :=
    word_setWord_used hlt (show 0 < 128 by decide) true
  generalize (setWord b n 0 true true h₁).2 = h₂ at hc₂ hu₂
  rw [wp_bind, wp]
  have hc₃ := confined_setPrevInUse hc₂ hb prevUsed
  have hu₃ := (used_setPrevInUse (b := b) (h := h₂) prevUsed).trans hu₂
  generalize (setPrevInUse b prevUsed h₂).2 = h₃ at hc₃ hu₃
  refine wp_aside hc₃ fun _ h₄ hc₄ hm₄ => ?_
  have hu₄ : wordUsed (h₄.word b) = true := by
    rw [Heap.word, hm₄]
    exact hu₃
  rw [wp_bind, wp]
  exact ⟨confined_aside (x := do
    addLost n
    statNote .quarantine n
    fail .corruptLinks) (confined_sealAndLink hc₄ hb hu₄), Or.inr hb⟩

theorem confined_rescue (hc : Confined s m h) (b : Nat) :
    Confined s m (rescue .fast b h).2 := by
  have hw : wp (rescue .fast b) (fun _ h' => Confined s m h') h := by
    refine wp_still (still_headerOk (hc.own b)) ?_
    rw [wp_ite]
    split
    · exact hc
    refine wp_still still_isBlockStart ?_
    rw [wp_ite]
    split
    swap
    · exact hc
    rename_i hst
    rw [withSpanOf, wp_bind, wp_read]
    rcases hspan : h.spanOf b with _ | s'
    · exact hc
    obtain rfl := hc.span_eq hspan
    have hb : Room .fast s' b := by
      rw [isBlockStart, Prog.ite_run] at hst
      split at hst
      · exact absurd hst (by simp [Prog.pure_run])
      rw [withSpanOf, Prog.bind_run, Prog.read_run, hspan] at hst
      have hst : startOkIn .fast s' b = true := hst
      obtain ⟨-, hlo, hhi⟩ := spanOf_bounds hspan
      simp only [startOkIn, Bool.and_eq_true, decide_eq_true_eq] at hst
      exact ⟨hlo, by omega⟩
    rw [Prog.elim_some]
    refine wp_still (still_scanResync hc.own b) ?_
    refine wp_still (still_prevInUse (hb.covers8 hc)) ?_
    rw [fast_mirrorSays, pure_bind_run, Option.filter_none, Prog.elim_none]
    exact wp_seq (confined_abandon hs hc hb (lostRun_le hb) _) fun _ h₁ hq => hq.1
  exact hw

theorem confined_recoverNext (hc : Confined s m h) (hb : Room .fast s b) :
    wp (recoverNext .fast b) (fun r h' => Confined s m h' ∧ (r = 0 ∨ Room .fast s r)) h := by
  have hp := Profile.fast.sizes
  have h8 := hb.covers8 hc
  rw [recoverNext, withSpanOf, wp_bind, wp_read,
    hc.spanOf hb.1 (by have := hb.2; omega), Prog.elim_some]
  refine wp_still_eq (still_blockEnd h8) (show _ = b + wordSize (h.word b) from rfl) ?_
  have hlo := hb.1
  generalize hstart : b + wordSize (h.word b) = start
  rw [wp_ite]
  split
  · exact ⟨hc, Or.inl rfl⟩
  rw [wp_ite]
  split
  · exact ⟨hc, Or.inl rfl⟩
  have hroom : Room .fast s start := ⟨by omega, by omega⟩
  refine wp_still (still_headerOk (hc.own start)) ?_
  rw [wp_ite]
  split
  · exact ⟨hc, Or.inr hroom⟩
  refine wp_still (still_scanResync hc.own start) ?_
  refine wp_still (still_isUsed h8) ?_
  rw [fast_mirrorSays, pure_bind_run, Prog.elim_none]
  exact confined_abandon hs hc hroom (lostRun_le hroom) _

theorem confined_publish (hc : Confined s m h) (b : Nat) :
    Confined s m (publish .fast b h).2 := by
  have hw : wp (publish .fast b) (fun _ h' => Confined s m h') h := by
    refine wp_still (still_isBlock (hc.own b)) ?_
    rw [wp_ite]
    split
    swap
    · refine wp_aside hc fun _ h₁ hc₁ _ => ?_
      rw [wp_bind, wp]
      exact confined_rescue hs hc₁ b
    rename_i hblock
    obtain ⟨hb, hend⟩ := isBlock_room hc hblock
    obtain ⟨s', hl⟩ := (isBlock_fst h b).mp hblock
    refine wp_still (still_isUsed (hb.covers8 hc)) ?_
    have hfoot : wp (Prog.when ((!(isUsed b h).1) = true) (writeFreeFooter b))
        (fun _ h' => Confined s m h') h := by
      rw [wp_when]
      split
      · exact confined_writeFreeFooter hc hb hl.min_le hend
      · exact hc
    refine wp_seq hfoot fun _ h₁ hc₁ => ?_
    rw [fast_sealHeader, pure_bind_run]
    refine wp_seq (confined_recoverNext hs hc₁ hb) fun n h₂ hpost => ?_
    obtain ⟨hc₂, hn⟩ := hpost
    have hlink : wp (Prog.when (n ≠ 0) do
        let used ← isUsed b
        relink .fast n used) (fun _ h' => Confined s m h') h₂ := by
      rw [wp_when]
      split
      · rename_i h0
        exact wp_still (still_isUsed (hb.covers8 hc₂)) (confined_relink hc₂ (hn.resolve_left h0) _)
      · exact hc₂
    exact wp_seq hlink fun _ h₃ hc₃ => hc₃
  exact hw

theorem confined_quarantine (hc : Confined s m h) (b : Nat) :
    Confined s m (quarantine .fast b h).2 := by
  have hw : wp (quarantine .fast b) (fun _ h' => Confined s m h') h := by
    refine wp_still still_isBlockStart ?_
    rw [wp_ite]
    split
    swap
    · exact hc
    refine wp_still (still_headerOk (hc.own b)) ?_
    rw [wp_ite]
    split
    swap
    · exact confined_rescue hs hc b
    rename_i hk
    obtain ⟨hb, -⟩ := headerOk_room hc hk
    have h8 := hb.covers8 hc
    refine wp_still (still_isQuarantined h8) ?_
    rw [wp_ite]
    split
    · exact confined_aside hc
    refine wp_still (still_blockSize h8) ?_
    refine wp_still (still_isUsed h8) ?_
    generalize (blockSize b h).1 = n
    have hwhole : wp (if (isUsed b h).1 = true then pure true else do
        binRemove .fast b
        unchanged .fast b n false) (fun _ h' => Confined s m h') h := by
      rw [wp_ite]
      split
      · exact hc
      rw [wp_bind, wp]
      have hc₁ := confined_binRemove hc hb
      have hst := still_unchanged (P := .fast) (hc₁.own b) n false
      generalize (binRemove .fast b h).2 = h₁ at hc₁ hst
      rw [wp, hst]
      exact hc₁
    refine wp_seq hwhole fun whole h₂ hc₂ => ?_
    rw [wp_ite]
    split
    · rw [wp_bind, wp, fast_setPayloadCrc, pure_bind_run, wp_bind, wp]
      have hc₃ := confined_publish hs (confined_setWord hc₂ hb n 0 true true) b
      rw [wp_ite]
      split
      · exact confined_aside (x := do
          addLost n
          statNote .quarantine n
          fail .quarantined) hc₃
      · exact hc₃
    · refine wp_aside hc₂ fun _ h₃ hc₃ _ => ?_
      rw [wp_bind, wp]
      exact confined_rescue hs hc₃ b
  exact hw

end Sized

end Mars
