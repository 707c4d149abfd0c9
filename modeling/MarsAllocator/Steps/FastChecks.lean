import MarsAllocator.Steps.FastEntry

namespace Mars

open ByteMemory StateProgram

variable {s : Span} {m : Memory} {h h' : Heap} {b : Nat}

section Sized

variable (hs : s.hi - s.lo < 2 ^ 58)
include hs

theorem confined_checkedBlock (hc : Confined s m h) (p offset len : Nat) :
    wp (checkedBlock .fast p offset len) (fun r h' => Confined s m h' ∧
      (r = 0 ∨ Room .fast s r ∧ r + 8 + offset + len ≤ s.hi)) h := by
  refine wp_seq (confined_blockOf hc p) fun b h₁ ⟨hc₁, hl⟩ => ?_
  rw [wp_ite]
  split
  · exact ⟨hc₁, Or.inl rfl⟩
  rename_i hb0
  obtain ⟨-, he, hmin⟩ := hl.resolve_left hb0
  have h8 {h' : Heap} (hc' : Confined s m h') : h'.Covers b 8 := he.room.covers8 hc'
  refine wp_seq (confined_sound hs hc₁ b) fun ok h₂ ⟨hc₂, hok⟩ => ?_
  rw [wp_ite]
  split
  · exact ⟨hc₂, Or.inl rfl⟩
  rename_i ht
  obtain ⟨rfl, -⟩ := hok (by simpa using ht)
  refine wp_still (still_isQuarantined (h8 hc₂)) ?_
  rw [wp_ite]
  split
  · exact wp_aside hc₂ fun _ h₃ hc₃ _ => ⟨hc₃, Or.inl rfl⟩
  refine wp_still (still_isUsed (h8 hc₂)) ?_
  rw [wp_ite]
  split
  · exact wp_aside hc₂ fun _ h₃ hc₃ _ => ⟨hc₃, Or.inl rfl⟩
  rw [fast_canaryOk, pure_bind_run, wp_ite, if_neg (by decide)]
  refine wp_still_eq (still_requestedSize (h8 hc₂))
    (show _ = requestedFrom .fast (h₂.word b) from rfl) ?_
  have hreq := requestedFrom_le .fast hmin (word_lt h₂ b)
  have hhdr : Profile.fast.hdrSize = 8 := rfl
  have hend := he.end_le
  rw [wp_ite]
  split
  · exact wp_aside hc₂ fun _ h₃ hc₃ _ => ⟨hc₃, Or.inl rfl⟩
  · have hle : b + 8 + offset + len ≤ s.hi := by omega
    exact ⟨hc₂, Or.inr ⟨he.room, hle⟩⟩

theorem confined_mmRead (hc : Confined s m h) (p offset : Nat) (bufNull : Bool) (len : Nat) :
    Confined s m (mmRead .fast p offset bufNull len h).2 := by
  have hw : wp (mmRead .fast p offset bufNull len) (fun _ h' => Confined s m h') h := by
    refine wp_aside hc fun _ h₁ hc₁ _ => ?_
    rw [wp_ite]
    split
    · exact wp_aside hc₁ fun _ h₂ hc₂ _ => hc₂
    refine wp_seq (confined_checkedBlock hs hc₁ p offset len) fun b h₂ ⟨hc₂, hb⟩ => ?_
    rw [wp_ite]
    split
    · exact hc₂
    rename_i hb0
    obtain ⟨hroom, hend⟩ := hb.resolve_left hb0
    have hlo : s.lo ≤ payloadOf .fast b + offset := by
      have := hroom.1
      rw [payloadOf]
      omega
    rw [fast_payloadOk, pure_bind_run, wp_ite, if_pos rfl]
    exact wp_still (confined_load hc₂ hlo hend) hc₂
  exact hw

theorem confined_writeUnlocked (hc : Confined s m h) (p offset : Nat) (src : List UInt8) :
    wp (writeUnlocked .fast p offset src) (fun _ h' => Confined s m h') h := by
  refine wp_seq (confined_checkedBlock hs hc p offset src.length) fun b h₁ ⟨hc₁, hb⟩ => ?_
  rw [wp_ite]
  split
  · exact hc₁
  rename_i hb0
  obtain ⟨hroom, hend⟩ := hb.resolve_left hb0
  have hlo : s.lo ≤ payloadOf .fast b + offset := by
    have := hroom.1
    rw [payloadOf]
    omega
  rw [wp_bind, wp, storeN_run hc₁ hlo hend, fast_canaryOk, pure_bind_run, wp_ite, if_pos rfl]
  have hlive (h : Heap) : payloadCrcLive .fast h = (false, h) := rfl
  rw [wp_bind, wp, hlive, wp_when_false _ fun hf => Bool.false_ne_true hf]
  exact hc₁.store hlo hend

theorem confined_mmWrite (hc : Confined s m h) (p offset : Nat) (src : Source) :
    Confined s m (mmWrite .fast p offset src h).2 := by
  have hw : wp (mmWrite .fast p offset src) (fun _ h' => Confined s m h') h := by
    refine wp_aside hc fun _ h₁ hc₁ _ => ?_
    rcases src with (_ | _) | src
    · exact confined_writeUnlocked hs hc₁ p offset []
    · exact confined_aside (x := do
        fail .invalidPtr
        pure (none : Option Nat)) hc₁
    · exact confined_writeUnlocked hs hc₁ p offset src
  exact hw

end Sized

theorem confined_mmVerify (hc : Confined s m h) (p : Nat) :
    Confined s m (mmVerify .fast p h).2 := by
  have hw : wp (mmVerify .fast p) (fun _ h' => Confined s m h') h := by
    have hfail {h : Heap} (hc : Confined s m h) (st : Status) :
        wp (failWith st) (fun _ h' => Confined s m h') h := confined_aside (x := do
      fail st
      pure st) hc
    refine wp_aside hc fun _ h₁ hc₁ _ => ?_
    refine wp_seq (confined_blockOf hc₁ p) fun b h₂ ⟨hc₂, hl⟩ => ?_
    rw [wp_ite]
    split
    · exact hc₂
    rename_i hb0
    obtain ⟨-, he, -⟩ := hl.resolve_left hb0
    have h8 := he.room.covers8 hc₂
    refine wp_still (still_headerOk (hc₂.own b)) ?_
    rw [wp_ite]
    split
    · exact hfail hc₂ _
    refine wp_still (still_isQuarantined h8) ?_
    rw [wp_ite]
    split
    · exact hfail hc₂ _
    rw [fast_canaryOk, pure_bind_run, wp_ite, if_neg (by decide), wp_bind_assoc]
    refine wp_still (still_isUsed h8) ?_
    have hsound : ((if (isUsed b h₂).1 = true then payloadOk .fast b else pure true : HeapM Bool)) =
        pure true := by
      rw [fast_payloadOk, ite_self]
    rw [hsound, pure_bind_run, wp_ite, if_neg (by decide), wp_bind, wp_read, wp_ite]
    split
    · exact hfail hc₂ _
    · exact hc₂
  exact hw

theorem confined_checkBlock (hc : Confined s m h) (p : Nat) (t : Tally) :
    wp (checkBlock .fast p t) (fun r h' => Confined s m h' ∧
      ∀ t', r = .ok t' → Room .fast s p) h := by
  have hfail (st : Status) : wp (checkFailed st) (fun r h' => Confined s m h' ∧
      ∀ t', r = .ok t' → Room .fast s p) h :=
    ⟨confined_aside (x := do
      fail st
      pure (Except.error st : Except Status Tally)) hc, fun _ hr => absurd hr (by simp [checkFailed,
        Prog.bind_run, Prog.pure_run])⟩
  have hand : Still (Prog.and (isBlock .fast p) (headerOk .fast p)) h :=
    Still.and (still_isBlock (hc.own p)) fun _ => still_headerOk (hc.own p)
  refine wp_still hand ?_
  rw [wp_ite]
  split
  · exact hfail _
  rename_i hok
  have hk : (headerOk .fast p h).1 = true := by
    rw [Prog.and_run] at hok
    by_cases hblock : (isBlock .fast p h).1 = true
    · rw [if_pos hblock, still_isBlock (hc.own p)] at hok
      simpa using hok
    · rw [if_neg hblock] at hok
      exact absurd rfl hok
  obtain ⟨hroom, hend⟩ := headerOk_room hc hk
  obtain ⟨s', hk⟩ := (headerOk_fst h p).mp hk
  have hmin := hk.min_le
  have hp := Profile.fast.sizes
  have hlo := hroom.1
  have h8 := hroom.covers8 hc
  refine wp_still (still_prevInUse h8) ?_
  rw [wp_ite]
  split
  · exact hfail _
  rw [fast_canaryOk, pure_bind_run, wp_ite, if_neg (by decide)]
  refine wp_still_eq (still_blockSize h8) (show _ = wordSize (h.word p) from rfl) ?_
  refine wp_still (still_isUsed h8) ?_
  rw [wp_ite]
  split
  · exact wp_still (still_isQuarantined h8) ⟨hc, fun _ _ => hroom⟩
  refine wp_still (still_load64 (hc.covers (by omega) (by omega))) ?_
  rw [wp_ite]
  split
  · exact hfail _
  rw [wp_ite]
  split
  · exact hfail _
  · exact ⟨hc, fun _ _ => hroom⟩

theorem confined_checkSpan (hc : Confined s m h) (s' : Span) (budget p : Nat) (t : Tally) :
    Confined s m (checkSpan .fast s' budget p t h).2 := by
  have hw : wp (checkSpan .fast s' budget p t) (fun _ h' => Confined s m h') h := by
    induction budget generalizing h p t with
    | zero =>
      rw [checkSpan, wp_ite]
      split
      · exact confined_aside (x := do
          fail .corruptLinks
          pure (Except.error .corruptLinks : Except Status Tally)) hc
      · exact hc
    | succ budget ih =>
      rw [checkSpan, wp_ite]
      split
      swap
      · exact hc
      refine wp_seq (confined_checkBlock hc p t) fun r h₁ ⟨hc₁, hr⟩ => ?_
      rcases r with st | t'
      · exact hc₁
      · rw [Prog.either_ok]
        exact wp_still (still_blockSize ((hr t' rfl).covers8 hc₁)) (ih hc₁ _ _)
  exact hw

theorem confined_checkSpans (hc : Confined s m h) (spans : List Span) (t : Tally) :
    Confined s m (checkSpans .fast spans t h).2 := by
  have hw : wp (checkSpans .fast spans t) (fun _ h' => Confined s m h') h := by
    induction spans generalizing h t with
    | nil => exact hc
    | cons s' rest ih =>
      rw [checkSpans, wp_bind, wp]
      have hc₁ := confined_checkSpan hc s' (spanMaxBlocks .fast s') s'.lo
        { t with covered := 0, havePrev := false, prevFree := false }
      generalize (checkSpan .fast s' (spanMaxBlocks .fast s') s'.lo
        { t with covered := 0, havePrev := false, prevFree := false } h).1 = seen
      generalize (checkSpan .fast s' (spanMaxBlocks .fast s') s'.lo
        { t with covered := 0, havePrev := false, prevFree := false } h).2 = h₁ at hc₁
      rcases seen with st | t'
      · exact hc₁
      · rw [Prog.either_ok, wp_ite]
        split
        · exact confined_aside (x := do
            fail .corruptLinks
            pure (Except.error .corruptLinks : Except Status Tally)) hc₁
        · exact ih hc₁ _
  exact hw

theorem still_binWalk (hc : Confined s m h) (i budget back cur seen : Nat) :
    Still (binWalk .fast i budget back cur seen) h := by
  induction budget generalizing back cur seen with
  | zero => exact Still.pure _
  | succ budget ih =>
    rw [binWalk]
    refine Still.ite (fun _ => Still.pure _) fun _ => ?_
    have hand : Still (Prog.and (headerOk .fast cur) do
        if ← isUsed cur then pure false
        else do
          let n ← blockSize cur
          let p ← freeLinkGet .fast cur .prev
          return binOf .fast n == i && p == back) h := by
      refine Still.and (still_headerOk (hc.own cur)) fun hk => ?_
      obtain ⟨hroom, -⟩ := headerOk_room hc hk
      have h8 := hroom.covers8 hc
      exact (still_isUsed h8).bind (Still.ite (fun _ => Still.pure _) fun _ =>
        (still_blockSize h8).bind ((still_freeLinkGet (hroom.covers hc) .prev).bind rfl))
    refine hand.bind (Still.ite (fun hok => ?_) fun _ => Still.pure _)
    have hk : (headerOk .fast cur h).1 = true := by
      rw [Prog.and_run] at hok
      by_contra hk
      rw [if_neg hk] at hok
      exact Bool.false_ne_true hok
    exact (still_freeLinkGet ((headerOk_room hc hk).1.covers hc) .next).bind (ih _ _ _)

theorem confined_binsCheck (hc : Confined s m h) (counts : Nat → Nat) :
    Confined s m (binsCheck .fast counts h).2 := by
  have hw : ∀ left, wp (binsCheckFrom .fast counts left) (fun _ h' => Confined s m h') h := by
    intro left
    induction left with
    | zero => exact hc
    | succ left ih =>
      have hbin : Still (binCheck .fast counts (binCount - (left + 1))) h :=
        Still.bind rfl (Still.bind rfl (Still.ite (fun _ => Still.pure _) fun _ =>
          Still.bind rfl ((still_binWalk hc _ _ _ _ _).bind rfl)))
      refine wp_still hbin ?_
      rw [wp_ite]
      split
      · exact ih
      · exact confined_aside (x := do
          fail .corruptLinks
          pure Status.corruptLinks) hc
  exact hw binCount

theorem confined_mmCheckHeap (hc : Confined s m h) : Confined s m (mmCheckHeap .fast h).2 := by
  have hw : wp (mmCheckHeap .fast) (fun _ h' => Confined s m h') h := by
    have hfail {h : Heap} (hc : Confined s m h) (st : Status) :
        wp (failWith st) (fun _ h' => Confined s m h') h := confined_aside (x := do
      fail st
      pure st) hc
    refine wp_aside hc fun _ h₁ hc₁ _ => ?_
    rw [checkHeapUnlocked, arenaLive, wp_bind, wp_read, wp_ite]
    split
    · exact hfail hc₁ _
    rw [wp_bind, wp_read, wp_bind, wp]
    have hc₂ := confined_checkSpans hc₁ h₁.spans {}
    generalize (checkSpans .fast h₁.spans {} h₁).1 = seen
    generalize (checkSpans .fast h₁.spans {} h₁).2 = h₂ at hc₂
    rcases seen with st | t
    · exact hc₂
    · rw [Prog.either_ok, wp_bind, wp_read, wp_ite]
      split
      · exact hfail hc₂ _
      · exact confined_binsCheck hc₂ _
  exact hw

theorem confined_mmSetMode (hc : Confined s m h) (mode : Mode) :
    Confined s m (mmSetMode .fast mode h).2 := by
  have hw : wp (mmSetMode .fast mode) (fun _ h' => Confined s m h') h := by
    rw [mmSetMode, setModeUnlocked, wp_bind, wp_read, wp_when]
    split
    · exact ⟨hc.registry, hc.spans, hc.tame, hc.fixed, hc.stale, hc.cursor, hc.agree⟩
    · exact hc
  exact hw

end Mars
