import MarsAllocator.Steps.FastCore

namespace Mars

open ByteMemory StateProgram

variable {s : Span} {m : Memory} {h h' : Heap} {b : Nat}

theorem confined_statSub (hc : Confined s m h) (hb : Room .fast s b) :
    Confined s m (statSub .fast b h).2 ∧ (statSub .fast b h).2.mem = h.mem := by
  have h8 := hb.covers8 hc
  rw [statSub, bind_still (still_blockSize h8), bind_still (still_requestedSize h8)]
  exact ⟨confined_aside hc, rfl⟩

theorem confined_statAdd (hc : Confined s m h) (hb : Room .fast s b) :
    Confined s m (statAdd .fast b h).2 ∧ (statAdd .fast b h).2.mem = h.mem := by
  have h8 := hb.covers8 hc
  rw [statAdd, bind_still (still_blockSize h8), bind_still (still_requestedSize h8)]
  exact ⟨confined_aside hc, rfl⟩

structure Extent (s : Span) (b n : Nat) : Prop where
  room : Room .fast s b
  end_le : b + n ≤ s.hi
  lt : n < 2 ^ 58

/-- Where an allocation of `size` bytes ends up. -/
def Given (s : Span) (size p : Nat) : Prop :=
  ∃ b n, p = b + 8 ∧ Extent s b n ∧ sizeFor .fast size ≤ n ∧ sizeFor .fast size ≠ 0

theorem Given.bounds {size p : Nat} (hg : Given s size p) : s.lo ≤ p ∧ p + size ≤ s.hi := by
  obtain ⟨b, n, rfl, he, hn, h0⟩ := hg
  have hspec := (sizeFor_spec .fast h0).1
  have hhdr : Profile.fast.hdrSize = 8 := rfl
  have := he.room.1
  have := he.end_le
  omega

/-- What looking a pointer up comes to: nothing, or a block that lies in `s`. -/
def Looked (s : Span) (p : Nat) (r : Nat) (h : Heap) : Prop :=
  r = 0 ∨ r + 8 = p ∧ Extent s r (wordSize (h.word r)) ∧ 32 ≤ wordSize (h.word r)

theorem confined_blockOf (hc : Confined s m h) (p : Nat) :
    wp (blockOf .fast p) (fun r h' => Confined s m h' ∧ Looked s p r h') h := by
  have hfail : ∀ (st : Status), wp (do
      fail st
      pure 0) (fun r h' => Confined s m h' ∧ Looked s p r h') h := fun st =>
    wp_aside hc fun _ h₁ hc₁ _ => ⟨hc₁, Or.inl rfl⟩
  rw [blockOf, arenaLive, wp_bind, wp_read, wp_ite]
  split
  · exact hfail _
  rw [wp_bind, wp_read]
  rcases hspan : (if p = 0 then none else h.spanOf p) with _ | s'
  · exact hfail _
  have hs' : h.spanOf p = some s' := by
    split at hspan
    · exact absurd hspan (by simp)
    · exact hspan
  obtain rfl := hc.span_eq hs'
  rw [Prog.elim_some, wp_ite]
  split
  · exact hfail _
  rename_i hp
  have hhdr : Profile.fast.hdrSize = 8 := rfl
  rw [hhdr] at hp
  refine wp_still (still_isBlock (hc.own _)) ?_
  rw [wp_ite]
  split
  swap
  · exact hfail _
  rename_i hblock
  obtain ⟨hb, hend⟩ := isBlock_room hc hblock
  obtain ⟨s', hl⟩ := (isBlock_fst h _).mp hblock
  refine ⟨hc, Or.inr ⟨?_, ⟨hb, hend, wordSize_lt (word_lt h _)⟩, hl.min_le⟩⟩
  change p - 8 + 8 = p
  omega

section Sized

variable (hs : s.hi - s.lo < 2 ^ 58)
include hs

theorem confined_carve (hc : Confined s m h) {found need : Nat} (he : Extent s b found)
    (hd : found % 16 = 0) (hneed : need ≤ found) (size : Nat) :
    wp (carve .fast b found need size) (fun r h' => Confined s m h' ∧ (r.1 = 0 ∨ r.1 = b + 8)) h := by
  have hb := he.room
  rw [carve, wp_bind, wp_read, hc.stale, if_neg (by decide), pure_bind_run, wp_bind, wp]
  have hc₁ := confined_setWord hc hb found 0 true false
  have hw₁ := congrArg wordSize (word_setWord (b := b) (h := h) he.lt (show 0 < 128 by decide) true
    false)
  rw [wordSize_mkWord hd (by decide)] at hw₁
  generalize (setWord b found 0 true false h).2 = h₁ at hc₁ hw₁
  rw [fast_sealHeader, pure_bind_run, wp_bind, wp]
  have hc₂ := confined_splitBlock hs hc₁ hb (hw₁ ▸ he.end_le) (hw₁ ▸ hneed)
  generalize (splitBlock .fast b need h₁).2 = h₂ at hc₂
  rw [fast_setPayloadCrc, pure_bind_run, wp_bind, wp]
  have hc₃ := confined_finishAllocation hs hc₂ hb size
  generalize (finishAllocation .fast b size h₂).1 = ok
  generalize (finishAllocation .fast b size h₂).2 = h₃ at hc₃
  rw [wp_ite]
  split
  · refine wp_aside hc₃ fun _ h₄ hc₄ _ => ?_
    rw [wp_bind, wp, wp_bind, wp]
    exact ⟨confined_scrubTick hs (confined_statAdd hc₄ hb).1, Or.inr rfl⟩
  · rw [wp_bind, wp]
    exact ⟨confined_scrubTick hs hc₃, Or.inl rfl⟩

theorem confined_mallocUnlocked (hc : Confined s m h) (size : Nat) :
    wp (mallocUnlocked .fast size) (fun r h' => Confined s m h' ∧ (r.1 = 0 ∨ Given s size r.1))
      h := by
  refine wp_aside hc fun _ h₁ hc₁ _ => ?_
  rw [arenaLive, wp_bind, wp_read, wp_ite]
  split
  · exact wp_aside hc₁ fun _ h₂ hc₂ _ => ⟨hc₂, Or.inl rfl⟩
  rw [wp_ite]
  split
  · exact wp_aside hc₁ fun _ h₂ hc₂ _ => ⟨hc₂, Or.inl rfl⟩
  rename_i hsize
  have h0 : sizeFor .fast size ≠ 0 := fun h0 => hsize (Or.inr h0)
  refine wp_seq (confined_chooseBlock hc₁ _) fun b h₂ hpost => ?_
  obtain ⟨hc₂, hfit⟩ := hpost
  rw [wp_ite]
  split
  · refine wp_aside hc₂ fun _ h₃ hc₃ _ => wp_aside hc₃ fun _ h₄ hc₄ _ => ?_
    rw [wp_bind, wp]
    exact ⟨confined_scrubTick hs hc₄, Or.inl rfl⟩
  rename_i hb0
  obtain ⟨hb, hend, hneed⟩ := hfit.resolve_left hb0
  refine wp_still_eq (still_blockSize (hb.covers8 hc₂)) (show _ = wordSize (h₂.word b) from rfl) ?_
  have he : Extent s b (wordSize (h₂.word b)) := ⟨hb, hend, wordSize_lt (word_lt h₂ b)⟩
  rw [wp_bind, wp]
  have hc₃ := confined_binRemove hc₂ hb
  generalize (binRemove .fast b h₂).2 = h₃ at hc₃
  refine wp_still (still_unchanged (hc₃.own b) _ false) ?_
  rw [wp_ite]
  split
  · exact wp_mono (confined_carve hs hc₃ he (wordSize_dvd _) hneed size) fun r h₄ hpost =>
      ⟨hpost.1, hpost.2.imp_right fun hr => ⟨b, _, hr, he, hneed, h0⟩⟩
  · rw [wp_bind, wp]
    refine wp_aside (confined_quarantine hs hc₃ b) fun _ h₄ hc₄ _ => ?_
    rw [wp_bind, wp]
    exact ⟨confined_scrubTick hs hc₄, Or.inl rfl⟩

theorem confined_rescue_refused (hc : Confined s m h) (hk : (headerOk .fast b h).1 = false) :
    wp (rescue .fast b) (fun ok h' => Confined s m h' ∧ ok = false) h := by
  have hval : wp (rescue .fast b) (fun ok _ => ok = false) h := by
    refine wp_still_eq (still_headerOk (hc.own b)) hk ?_
    rw [wp_ite, if_neg (by decide)]
    refine wp_still still_isBlockStart ?_
    rw [wp_ite]
    split
    swap
    · rfl
    rw [withSpanOf, wp_bind, wp_read]
    rcases h.spanOf b with _ | s'
    · rfl
    rw [Prog.elim_some]
    refine wp_any fun _ h₁ => wp_any fun _ h₂ => ?_
    rw [fast_mirrorSays, pure_bind_run, Option.filter_none, Prog.elim_none]
    exact wp_any fun _ h₃ => rfl
  exact ⟨confined_rescue hs hc b, hval⟩

theorem confined_sound (hc : Confined s m h) (b : Nat) :
    wp (do if ← headerOk .fast b then pure true else rescue .fast b) (fun ok h' =>
      Confined s m h' ∧ (ok = true → h' = h ∧ (headerOk .fast b h).1 = true)) h := by
  rcases hk : (headerOk .fast b h).1 with _ | _
  · refine wp_still_eq (still_headerOk (hc.own b)) hk ?_
    rw [wp_ite, if_neg (by decide)]
    refine wp_mono (confined_rescue_refused hs hc hk) fun ok h₁ ⟨hc₁, hok⟩ => ⟨hc₁, fun ht => ?_⟩
    exact absurd (hok.symm.trans ht) Bool.false_ne_true
  · refine wp_still_eq (still_headerOk (hc.own b)) hk ?_
    rw [wp_ite, if_pos rfl]
    exact ⟨hc, fun _ => ⟨rfl, rfl⟩⟩

theorem confined_liveBlock (hc : Confined s m h) (p : Nat) :
    wp (liveBlock .fast p) (fun r h' => Confined s m h' ∧ Looked s p r h') h := by
  refine wp_seq (confined_blockOf hc p) fun b h₁ ⟨hc₁, hl⟩ => ?_
  rw [wp_ite]
  split
  · exact ⟨hc₁, Or.inl rfl⟩
  rename_i hb0
  obtain ⟨hp, he, hmin⟩ := hl.resolve_left hb0
  refine wp_seq (confined_sound hs hc₁ b) fun ok h₂ ⟨hc₂, hok⟩ => ?_
  rw [wp_ite]
  split
  · exact ⟨hc₂, Or.inl rfl⟩
  rename_i ht
  obtain ⟨rfl, -⟩ := hok (by simpa using ht)
  refine wp_still (still_isQuarantined (he.room.covers8 hc₂)) ?_
  rw [wp_ite]
  split
  · exact wp_aside hc₂ fun _ h₃ hc₃ _ => ⟨hc₃, Or.inl rfl⟩
  · exact ⟨hc₂, Or.inr ⟨hp, he, hmin⟩⟩

theorem reclaim_user (hc : Confined s m h) (hu : s.kind = .user) (b : Nat) :
    reclaim .fast b h = ((), h) := by
  rw [reclaim, withSpanOf, Prog.bind_run, Prog.read_run]
  rcases hspan : h.spanOf b with _ | s'
  · rfl
  · obtain rfl := hc.span_eq hspan
    rw [Prog.elim_some, if_pos hu]
    rfl

variable (hu : s.kind = .user)
include hu

theorem confined_release (hc : Confined s m h) (hb : Room .fast s b) :
    wp (do
      let run ← absorbNeighbours .fast b
      Prog.when (run ≠ 0) do
        releaseBlock .fast run
        reclaim .fast run
      scrubTick .fast) (fun _ h' => Confined s m h') h := by
  refine wp_seq (confined_absorbNeighbours hs hc hb) fun run h₁ ⟨hc₁, hrun⟩ => ?_
  have hrel : wp (Prog.when (run ≠ 0) do
      releaseBlock .fast run
      reclaim .fast run) (fun _ h' => Confined s m h') h₁ := by
    rw [wp_when]
    split
    swap
    · exact hc₁
    rename_i h0
    have hc₂ := confined_releaseBlock hs hc₁ (hrun.resolve_left h0)
    rw [wp_bind, wp, wp, reclaim_user hs hc₂ hu]
    exact hc₂
  exact wp_seq hrel fun _ h₂ hc₂ => confined_scrubTick hs hc₂

theorem confined_freeUnlocked (hc : Confined s m h) (p : Nat) :
    Confined s m (freeUnlocked .fast p h).2 := by
  have hw : wp (freeUnlocked .fast p) (fun _ h' => Confined s m h') h := by
    refine wp_aside hc fun _ h₁ hc₁ _ => ?_
    refine wp_seq (confined_liveBlock hs hc₁ p) fun b h₂ ⟨hc₂, hl⟩ => ?_
    rw [wp_when]
    split
    swap
    · exact hc₂
    rename_i hb0
    obtain ⟨-, he, -⟩ := hl.resolve_left hb0
    have hb := he.room
    refine wp_still (still_isUsed (hb.covers8 hc₂)) ?_
    rw [wp_ite]
    split
    · exact confined_aside hc₂
    rw [fast_canaryOk, pure_bind_run, wp_ite, if_neg (by decide)]
    refine wp_still (still_requestedSize (hb.covers8 hc₂)) ?_
    refine wp_aside hc₂ fun _ h₃ hc₃ _ => ?_
    rw [wp_bind, wp]
    exact confined_release hs hu (confined_statSub hc₃ hb).1 hb
  exact hw

omit hs hu in
theorem confined_carryPayloadCrc (hc : Confined s m h) (b oldSize oldSum newSize : Nat) :
    Confined s m (carryPayloadCrc .fast b oldSize oldSum newSize h).2 := by
  have hlive : payloadCrcLive .fast h = (false, h) := rfl
  rw [carryPayloadCrc, Prog.bind_run, hlive, if_neg fun hl => Bool.false_ne_true hl.1]
  exact hc

omit hu in
theorem confined_trimResized (hc : Confined s m h) (hb : Room .fast s b)
    (hend : b + wordSize (h.word b) ≤ s.hi) {need : Nat} (hneed : need ≤ wordSize (h.word b))
    (oldSize oldSum newSize : Nat) :
    Confined s m (trimResized .fast b need oldSize oldSum newSize h).2 := by
  have hw : wp (trimResized .fast b need oldSize oldSum newSize) (fun _ h' => Confined s m h') h := by
    rw [trimResized, wp_bind, wp]
    have hc₁ := confined_splitBlock hs hc hb hend hneed
    generalize (splitBlock .fast b need h).2 = h₁ at hc₁
    rw [wp_bind, wp]
    have hc₂ := confined_carryPayloadCrc hc₁ b oldSize oldSum newSize
    generalize (carryPayloadCrc .fast b oldSize oldSum newSize h₁).2 = h₂ at hc₂
    rw [wp_bind, wp]
    have hc₃ := confined_finishAllocation hs hc₂ hb newSize
    generalize (finishAllocation .fast b newSize h₂).1 = ok
    generalize (finishAllocation .fast b newSize h₂).2 = h₃ at hc₃
    rw [wp_ite]
    split
    · rw [wp_bind, wp, wp_bind, wp]
      exact confined_scrubTick hs (confined_statAdd hc₃ hb).1
    · rw [wp_bind, wp]
      exact confined_scrubTick hs hc₃
  exact hw

omit hs hu in
theorem growNeighbour_looked (hc : Confined s m h) (n own need : Nat) :
    Still (growNeighbour .fast s n own need) h ∧
      ∀ theirs, (growNeighbour .fast s n own need h).1 = some theirs →
        theirs = wordSize (h.word n) ∧ Room .fast s n ∧ need ≤ own + theirs := by
  have hand : Still (Prog.and (headerOk .fast n) do
      let used ← isUsed n
      return !used) h :=
    Still.and (still_headerOk (hc.own n)) fun hk =>
      (still_isUsed ((headerOk_room hc hk).1.covers8 hc)).bind rfl
  have hroom : (Prog.and (headerOk .fast n) (do
      let used ← isUsed n
      return !used) h).1 = true → Room .fast s n := by
    intro hm
    rw [Prog.and_run] at hm
    by_cases hk : (headerOk .fast n h).1 = true
    · exact (headerOk_room hc hk).1
    · rw [if_neg hk] at hm
      exact absurd hm Bool.false_ne_true
  constructor
  · refine Still.ite (fun _ => rfl) fun _ => hand.bind (Still.ite (fun hm => ?_) fun _ => rfl)
    exact (still_blockSize ((hroom hm).covers8 hc)).bind rfl
  · intro theirs
    rw [growNeighbour, Prog.ite_run]
    split
    · exact fun hn => absurd hn (by simp [Prog.pure_run])
    rw [bind_still hand, Prog.ite_run]
    split
    swap
    · exact fun hn => absurd hn (by simp [Prog.pure_run])
    rename_i hm
    rw [Prog.bind_run, Prog.pure_run]
    dsimp only
    split
    · intro hn
      obtain rfl := Option.some.inj hn
      exact ⟨rfl, hroom hm, ‹_›⟩
    · exact fun hn => absurd hn (by simp)

omit hu in
theorem confined_reallocGrow (hc : Confined s m h) (hb : Room .fast s b) {own theirs need : Nat}
    (hn : Room .fast s (b + own)) (hneed : need ≤ own + theirs) (oldSize oldSum newSize : Nat) :
    Confined s m (reallocGrow .fast b own theirs need oldSize oldSum newSize h).2 := by
  have hw : wp (reallocGrow .fast b own theirs need oldSize oldSum newSize)
      (fun _ h' => Confined s m h') h := by
    rw [reallocGrow, wp_bind, wp]
    have hc₁ := (confined_statSub hc hb).1
    generalize (statSub .fast b h).2 = h₁ at hc₁
    rw [wp_bind, wp]
    have hc₂ := confined_binRemove hc₁ hn
    generalize (binRemove .fast (b + own) h₁).2 = h₂ at hc₂
    refine wp_still (still_unchanged (hc₂.own b) own true) ?_
    rw [wp_ite]
    split
    swap
    · rw [wp_bind, wp]
      exact confined_aside (x := do
        fail .corruptHeader
        pure 0) (confined_quarantine hs hc₂ b)
    rename_i hown
    refine wp_still (still_unchanged (hc₂.own (b + own)) theirs false) ?_
    rw [wp_ite]
    split
    swap
    · rw [wp_bind, wp]
      have hc₃ := (confined_statAdd hc₂ hb).1
      generalize (statAdd .fast b h₂).2 = h₃ at hc₃
      rw [wp_bind, wp]
      exact confined_aside (x := do
        fail .corruptHeader
        pure 0) (confined_quarantine hs hc₃ (b + own))
    rename_i htheirs
    obtain ⟨hkb, howb, -⟩ := unchanged_headerOk (hc₂.own b) hown
    obtain ⟨hkn, hthn, -⟩ := unchanged_headerOk (hc₂.own (b + own)) htheirs
    have hend : b + (own + theirs) ≤ s.hi := by
      have := (headerOk_room hc₂ hkn).2
      omega
    have hlt : own + theirs < 2 ^ 58 := by
      have := hb.1
      omega
    have hd : (own + theirs) % 16 = 0 := by
      have := wordSize_dvd (h₂.word b)
      have := wordSize_dvd (h₂.word (b + own))
      omega
    rw [wp_bind, wp]
    have hc₃ := confined_setBlockSize hc₂ hb (own + theirs)
    have hw₃ := congrArg wordSize (word_setBlockSize (b := b) (h := h₂) hlt)
    rw [wordSize_mkWord hd (wordSlack_lt _)] at hw₃
    generalize (setBlockSize b (own + theirs) h₂).2 = h₃ at hc₃ hw₃
    refine wp_still (still_blockEnd (hb.covers8 hc₃)) ?_
    refine wp_aside hc₃ fun _ h₄ hc₄ hm₄ => ?_
    have hw₄ : wordSize (h₄.word b) = own + theirs := by
      rw [Heap.word, hm₄]
      exact hw₃
    rw [fast_sealHeader, pure_bind_run]
    exact confined_trimResized hs hc₄ hb (hw₄ ▸ hend) (hw₄ ▸ hneed) _ _ _
  exact hw

omit hu in
theorem confined_resizeLive (hc : Confined s m h) (he : Extent s b (wordSize (h.word b)))
    (hmin : 32 ≤ wordSize (h.word b)) (newSize : Nat) :
    wp (resizeLive .fast b newSize) (fun r h' => Confined s m h' ∧
      ∀ oldSize oldSum, r = .move oldSize oldSum → b + 8 + oldSize ≤ s.hi) h := by
  have hb := he.room
  have hp := Profile.fast.sizes
  refine wp_aside hc fun _ h₁ hc₁ hm₁ => ?_
  have hw₁ : h₁.word b = h.word b := by rw [Heap.word, hm₁, Heap.word]
  rw [← hw₁] at he hmin
  have h8 := hb.covers8 hc₁
  refine wp_still_eq (still_requestedSize h8)
    (show _ = requestedFrom .fast (h₁.word b) from rfl) ?_
  have hold : b + 8 + requestedFrom .fast (h₁.word b) ≤ s.hi := by
    have hreq := requestedFrom_le .fast (w := h₁.word b) hmin (word_lt h₁ b)
    have hhdr : Profile.fast.hdrSize = 8 := rfl
    have := he.end_le
    omega
  generalize requestedFrom .fast (h₁.word b) = oldSize at hold
  rw [show payloadCrc .fast b = pure 0 from rfl, pure_bind_run]
  refine wp_still_eq (still_blockSize h8) (show _ = wordSize (h₁.word b) from rfl) ?_
  rw [wp_ite]
  split
  · rename_i hneed
    rw [wp_bind, wp]
    obtain ⟨hc₂, hm₂⟩ := confined_statSub hc₁ hb
    generalize (statSub .fast b h₁).2 = h₂ at hc₂ hm₂
    have hw₂ : h₂.word b = h₁.word b := by rw [Heap.word, hm₂, Heap.word]
    rw [wp_bind, wp]
    exact ⟨confined_trimResized hs hc₂ hb (hw₂ ▸ he.end_le) (hw₂ ▸ hneed) _ _ _, fun _ _ hr =>
      absurd hr (by simp [Prog.pure_run])⟩
  rw [wp_bind, wp_read, hc₁.spanOf hb.1 (by have := hb.2; omega), Prog.elim_some]
  obtain ⟨hst, hgrow⟩ := growNeighbour_looked hc₁ (b + wordSize (h₁.word b)) (wordSize (h₁.word b))
    (sizeFor .fast newSize)
  refine wp_still hst ?_
  rcases hv : (growNeighbour .fast s (b + wordSize (h₁.word b)) (wordSize (h₁.word b))
      (sizeFor .fast newSize) h₁).1 with _ | theirs
  · refine ⟨hc₁, fun _ _ hr => ?_⟩
    obtain ⟨rfl, -⟩ : oldSize = _ ∧ 0 = _ := by
      simpa [Prog.elim_none, Prog.pure_run] using hr
    exact hold
  · obtain ⟨-, hn, hneed⟩ := hgrow theirs hv
    rw [Prog.elim_some, wp_bind, wp]
    exact ⟨confined_reallocGrow hs hc₁ hb hn hneed _ _ _, fun _ _ hr =>
      absurd hr (by simp [Prog.pure_run])⟩

end Sized

end Mars
