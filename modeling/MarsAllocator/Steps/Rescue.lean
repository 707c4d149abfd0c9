import MarsAllocator.Steps.Seal

namespace Mars

open ByteMemory StateProgram

variable {P : Profile} {h h' : Heap} {s : Span} {b : Nat}

def LostGrows (h h' : Heap) : Prop := h.lostBytes ≤ h'.lostBytes

instance : StepClosed LostGrows where
  refl h := le_refl h.lostBytes
  trans _ _ _ := le_trans
  core hs := by
    cases hs with
    | lose n => exact Nat.le_add_right _ n
    | _ => exact Nat.le_refl _
  span hs := by
    cases hs
    all_goals exact Nat.le_refl _

/-- The spans and the secret are not recovery's to change. -/
def SameSpans (h h' : Heap) : Prop := h'.registry = h.registry ∧ h'.secret = h.secret

instance : CoreClosed SameSpans where
  refl _ := ⟨rfl, rfl⟩
  trans _ _ _ := fun h h' => ⟨h'.1.trans h.1, h'.2.trans h.2⟩
  core hs := by
    cases hs
    all_goals exact ⟨rfl, rfl⟩

theorem wp_grows {α β : Type} {x : HeapM α} [hx : Respects LostGrows x] {f : α → HeapM β}
    {Q : β → Heap → Prop} {n : Nat} (hn : n ≤ h.lostBytes)
    (hf : ∀ a h', n ≤ h'.lostBytes → wp (f a) Q h') : wp (x >>= f) Q h :=
  hf _ _ (le_trans hn (hx.step h))

theorem abandon_loses {start span : Nat} (hs : P.minBlock ≤ span) (prevUsed : Bool) :
    wp (abandon P start span prevUsed) (fun _ h' => h.lostBytes < h'.lostBytes) h := by
  have hp := P.sizes
  rw [abandon, wp_ite, if_neg (by omega)]
  refine wp_grows (le_refl _) fun _ _ h₁ => wp_grows h₁ fun _ _ h₂ => wp_grows h₂ fun _ _ h₃ =>
    wp_grows h₃ fun _ _ h₄ => wp_grows h₄ fun _ _ h₅ => wp_grows h₅ fun _ hh h₆ => ?_
  have hlost : h.lostBytes < (addLost span hh).2.lostBytes := by
    change h.lostBytes < hh.lostBytes + span
    omega
  exact lt_of_lt_of_le hlost (Respects.step (R := LostGrows)
    (x := do statNote .quarantine span; fail .corruptLinks; pure start) _)

theorem scanResyncFrom_bounds (P : Profile) (s : Span) (steps p : Nat) (h : Heap) :
    (scanResyncFrom P s steps p h).1 ≠ 0 →
      p ≤ (scanResyncFrom P s steps p h).1 ∧ (scanResyncFrom P s steps p h).1 < s.hi := by
  induction steps generalizing p h with
  | zero => exact fun hn => absurd rfl hn
  | succ steps ih =>
    rw [scanResyncFrom, Prog.ite_run]
    split
    · rename_i hp
      rw [Prog.bind_run, Prog.ite_run]
      split
      · exact fun _ => ⟨le_refl p, hp.1⟩
      · intro hn
        have := ih (p + alignment) _ hn
        omega
    · exact fun hn => absurd rfl hn

theorem lostRun_ge (hst : startOkIn P s b = true) :
    P.minBlock ≤ lostRun s b (scanResync P s b h).1 := by
  have hb := scanResyncFrom_bounds P s recoverySteps (b + P.minBlock) h
  simp only [startOkIn, Bool.and_eq_true, decide_eq_true_eq] at hst
  rw [lostRun]
  split
  · rename_i hn
    have := (hb hn).1
    change b + P.minBlock ≤ (scanResync P s b h).1 at this
    omega
  · exact hst.2

theorem mirrorSays_some {resync : Nat} {m : Mirror}
    (hm : (mirrorSays P s b resync h).1 = some m) :
    P.hasMirror = true ∧ resync ≠ 0 ∧ P.minBlock ≤ wordSize m.word ∧
      wordSize m.word ≤ resync - b ∧ wordUsed m.word = true ∧
        m.start = resync - wordSize m.word := by
  rw [mirrorSays, Prog.ite_run] at hm
  split at hm
  swap
  · exact absurd hm (by simp [Prog.pure_run])
  rename_i hr
  change mirrorAt P s b resync (h.mem.load (resync - P.mirrorSize) P.hdrSize) h.secret = some m at hm
  generalize h.mem.load (resync - P.mirrorSize) P.hdrSize = raw at hm
  unfold mirrorAt at hm
  dsimp only at hm
  split at hm
  · exact absurd hm (by simp)
  split at hm
  · exact absurd hm (by simp)
  split at hm
  · exact absurd hm (by simp)
  split at hm
  · exact absurd hm (by simp)
  rename_i hn hu _ _
  obtain rfl := Option.some.inj hm
  refine ⟨hr.1, hr.2, ?_, ?_, by simpa [Mirror.word] using hu, rfl⟩
  · change P.minBlock ≤ wordSize (raw % 2 ^ 64)
    omega
  · change wordSize (raw % 2 ^ 64) ≤ resync - b
    omega

theorem hdrSize_of_mirror (hm : P.hasMirror = true) : P.hdrSize = 16 := by
  cases P <;> first | rfl | exact absurd hm (by decide)

/-- The header that a mirror holds is back at `b`, and the block after it has not been harmed. -/
structure Restored (P : Profile) (s : Span) (b : Nat) (m : Mirror) (h h' : Heap) : Prop where
  headerOk : h'.HeaderOk P s b
  used : wordUsed (h'.word b) = true
  size : wordSize (h'.word b) = wordSize m.word
  quarantined : wordQuarantined (h'.word b) = wordQuarantined m.word
  next : StillOk P (b + wordSize m.word) h h'

theorem wp_restore {m : Mirror} (prevUsed : Bool) (hmir : P.hasMirror = true) (hb : b ≠ 0)
    (hs : h.spanOf b = some s) (hst : startOkIn P s b = true) (hmin : P.minBlock ≤ wordSize m.word)
    (hle : wordSize m.word ≤ s.hi - b) (hu : wordUsed m.word = true) (hstart : m.start = b) :
    wp (restore P m prevUsed) (fun _ h' => Restored P s b m h h') h := by
  have h16 := hdrSize_of_mirror hmir
  have hp := P.sizes
  subst hstart
  refine wp_storeN (refl_of Alike h) fun h₁ h₁a => ?_
  have hword : h₁.word m.start = m.word := by
    rw [(h₁a.sameHeader P m.start).word]
    change (h.mem.store m.start P.hdrSize m.raw).load m.start 8 = m.word
    rw [Memory.load_sub (a := m.start) (n := P.hdrSize) (le_refl _) (by omega),
      Memory.load_store_self, h16, Nat.sub_self, Nat.mul_zero, Nat.shiftRight_zero, Mirror.word,
      Nat.mod_mod_of_dvd m.raw (show 2 ^ (8 * 8) ∣ 2 ^ (8 * 16) from by decide)]
  have hwrote : Wrote m.start (m.start + P.hdrSize) h h₁ :=
    ⟨_, Memory.agreeOff_store h.mem m.start P.hdrSize m.raw, h₁a⟩
  have hspan : h₁.spanOf m.start = some s := (hwrote.spanOf m.start).trans hs
  rw [wp_bind, wp]
  have hw₂ := word_setPrevInUse_fields (b := m.start) (h := h₁) prevUsed
  have hset : Wrote m.start (m.start + 8) h₁ (setPrevInUse m.start prevUsed h₁).2 :=
    wrote_setPrevInUse prevUsed
  have hsize := size_setPrevInUse (b := m.start) (h := h₁) prevUsed
  have hspan₂ := hset.spanOf m.start
  have hnext₂ := (hwrote.trans (hset.mono (le_refl _) (by omega))).sameHeader
    (P := P) (b := m.start + wordSize m.word) (.inr (by omega))
  generalize (setPrevInUse m.start prevUsed h₁).2 = h₂ at hw₂ hsize hspan₂ hnext₂
  rw [hword] at hw₂ hsize
  have hl₂ : h₂.Legible P s m.start :=
    ⟨hb, hspan₂.trans hspan, hst, hsize ▸ hmin, hsize ▸ hle⟩
  have hu₂ : wordUsed (h₂.word m.start) = true := by
    rw [hw₂, wordUsed_mkWord, hu]
  have hq₂ : wordQuarantined (h₂.word m.start) = wordQuarantined m.word := by
    rw [hw₂, wordQuarantined_mkWord]
  refine wp_seq (wp_sealAndLink hl₂ hu₂) fun _ h₃ hk => ?_
  obtain ⟨hk₃, hw₃, hnext₃⟩ := hk
  rw [hsize] at hnext₃
  refine wp_observe (refl_of Alike h₃) rfl fun h₄ h₄a => ?_
  have ha := trans_of Alike h₄a
    (Respects.step (x := statNote .repair (blockSize m.start h₃).1) h₄)
  have hs₄ := ha.sameHeader P m.start
  refine ⟨hs₄.headerOk hk₃, ?_, ?_, ?_, ?_⟩
  · rw [hs₄.word, hw₃, hu₂]
  · rw [hs₄.word, hw₃, hsize]
  · rw [hs₄.word, hw₃, hq₂]
  · exact hnext₂.stillOk.trans (hnext₃.trans (ha.sameHeader P _).stillOk)

/-- The mirror that `mm_rescue` would put back at `b`. -/
def Heap.mirrorOf (P : Profile) (s : Span) (b : Nat) (h : Heap) : Option Mirror :=
  (mirrorSays P s b (scanResync P s b h).1 h).1.filter fun m => m.start = b

theorem Alike.mirrorOf (ha : Alike h h') : h'.mirrorOf P s b = h.mirrorOf P s b := by
  have hscan : (scanResync P s b h').1 = (scanResync P s b h).1 := Observes.value ha
  have hsays : (mirrorSays P s b (scanResync P s b h).1 h').1 =
      (mirrorSays P s b (scanResync P s b h).1 h).1 := Observes.value ha
  rw [Heap.mirrorOf, Heap.mirrorOf, hscan, hsays]

/-- What a rescue comes to: the extent is given up on, or its mirror is put back. -/
def Rescued (P : Profile) (s : Span) (b : Nat) (h : Heap) (ok : Bool) (h' : Heap) : Prop :=
  ok = false ∧ h.lostBytes < h'.lostBytes ∨
    ok = true ∧ P.hasMirror = true ∧ h.lostBytes ≤ h'.lostBytes ∧
      ∃ m, h.mirrorOf P s b = some m ∧ Restored P s b m h h'

theorem wp_rescueIn (hb : b ≠ 0) (hs : h.spanOf b = some s) (hst : startOkIn P s b = true) :
    wp (rescueIn P s b) (Rescued P s b h) h := by
  refine wp_observe (refl_of Alike h) rfl fun h₁ h₁a => ?_
  refine wp_observe h₁a rfl fun h₂ h₂a => ?_
  refine wp_observe h₂a rfl fun h₃ h₃a => ?_
  have hrun := lostRun_ge (h := h) hst
  have hhi := scanResyncFrom_bounds P s recoverySteps (b + P.minBlock) h
  change (scanResync P s b h).1 ≠ 0 → b + P.minBlock ≤ (scanResync P s b h).1 ∧
    (scanResync P s b h).1 < s.hi at hhi
  have hlost := h₃a.lostBytes
  rcases hm : (mirrorSays P s b (scanResync P s b h).1 h).1.filter fun m => m.start = b with _ | m
  · rw [hm, Prog.elim_none]
    exact wp_seq (abandon_loses hrun _) fun _ h₄ h₄l => Or.inl ⟨rfl, hlost ▸ h₄l⟩
  · rw [hm, Prog.elim_some]
    have hmirror : h.mirrorOf P s b = some m := hm
    obtain ⟨hm, hstart⟩ := Option.filter_eq_some_iff.mp hm
    have hstart : m.start = b := by simpa using hstart
    obtain ⟨hmir, hr0, hmin, hle, hu, hstart'⟩ := mirrorSays_some hm
    have hr := hhi hr0
    have hgrow := Respects.step (R := LostGrows) (x := restore P m (prevInUse b h).1) h₃
    have hrestore := wp_restore (P := P) (prevInUse b h).1 hmir hb ((h₃a.spanOf b).trans hs) hst
      hmin (by omega) hu hstart
    have hboth : wp (restore P m (prevInUse b h).1) (fun _ h' =>
        Restored P s b m h₃ h' ∧ h₃.lostBytes ≤ h'.lostBytes) h₃ := ⟨hrestore, hgrow⟩
    refine wp_seq hboth fun _ h₄ h₄l => ?_
    obtain ⟨hback, h₄l⟩ := h₄l
    have hf := (Respects.step (R := Alike) (x := fail .corruptHeader) h₄)
    have hsame := hf.sameHeader P b
    refine Or.inr ⟨rfl, hmir, hlost ▸ h₄l, m, hmirror, hsame.headerOk hback.headerOk, ?_, ?_, ?_, ?_⟩
    · exact hsame.word ▸ hback.used
    · exact hsame.word ▸ hback.size
    · exact hsame.word ▸ hback.quarantined
    · exact (h₃a.sameHeader P _).stillOk.trans (hback.next.trans (hf.sameHeader P _).stillOk)

theorem wp_rescue (hl : h.Legible P s b) (hbad : (headerOk P b h).1 = false) :
    wp (rescue P b) (Rescued P s b h) h := by
  refine wp_observe (refl_of Alike h) hbad fun h₁ h₁a => ?_
  rw [wp_ite, if_neg (by decide)]
  refine wp_observe h₁a (isBlockStart_fst hl) fun h₂ h₂a => ?_
  rw [wp_ite, if_pos rfl, wp_withSpanOf ((h₂a.spanOf b).trans hl.span)]
  refine wp_mono (wp_rescueIn hl.ne_zero ((h₂a.spanOf b).trans hl.span) hl.start)
    fun ok h' hr => ?_
  rw [Rescued, ← h₂a.lostBytes]
  refine hr.imp_right ?_
  rintro ⟨hok, hmir, hlost, m, hm, hback⟩
  exact ⟨hok, hmir, hlost, m, h₂a.mirrorOf ▸ hm, hback.headerOk, hback.used, hback.size,
    hback.quarantined, (h₂a.sameHeader P _).stillOk.trans hback.next⟩

theorem wp_publish (hl : h.Legible P s b) :
    wp (publish P b) (fun ok h' => ok = true ∧ h.lostBytes ≤ h'.lostBytes) h := by
  have hgrow := Respects.step (R := LostGrows) (x := publish P b) h
  have hval : (publish P b h).1 = true := by
    rw [publish, Prog.bind_run, (isBlock_fst h b).mpr ⟨s, hl⟩, Prog.ite_run, if_pos rfl]
    rfl
  exact ⟨hval, hgrow⟩

theorem setWord_legible (hl : h.Legible P s b) {slack : Nat} {used quarantined : Bool}
    (hs : slack < 128) :
    (setWord b (wordSize (h.word b)) slack used quarantined h).2.Legible P s b := by
  have hn := wordSize_lt (word_lt h b)
  have hsize := congrArg wordSize (word_setWord (b := b) (h := h) hn hs used quarantined)
  rw [wordSize_mkWord (wordSize_dvd _) hs] at hsize
  exact ⟨hl.ne_zero, hl.span, hl.start, by rw [hsize]; exact hl.min_le,
    by rw [hsize]; exact hl.le⟩

theorem wrote_setPayloadCrc (c : Nat) : Wrote (b + 12) (b + 16) h (setPayloadCrc P b c h).2 := by
  rw [setPayloadCrc, Prog.ite_run]
  split
  · exact Wrote.storeN (le_refl _) (le_refl _)
  · exact .of_alike (refl_of Alike h)

theorem quarantine_loses (hk : h.HeaderOk P s b) (hq : wordQuarantined (h.word b) = false)
    (hu : wordUsed (h.word b) = true) :
    wp (quarantine P b) (fun _ h' => h.lostBytes < h'.lostBytes) h := by
  have hp := P.sizes
  have hmin := hk.min_le
  refine wp_observe (refl_of Alike h) (isBlockStart_fst hk.toLegible) fun h₁ h₁a => ?_
  rw [wp_ite, if_pos rfl]
  refine wp_observe h₁a ((headerOk_fst h b).mpr ⟨s, hk⟩) fun h₂ h₂a => ?_
  rw [wp_ite, if_pos rfl]
  refine wp_observe h₂a (show (isQuarantined b h).1 = false from hq) fun h₃ h₃a => ?_
  rw [wp_ite, if_neg (by decide)]
  refine wp_observe h₃a (show (blockSize b h).1 = wordSize (h.word b) from rfl) fun h₄ h₄a => ?_
  refine wp_observe h₄a (show (isUsed b h).1 = true from hu) fun h₅ h₅a => ?_
  rw [if_pos rfl, wp_bind, wp_pure, wp_ite, if_pos rfl]
  have hs₅ := h₅a.sameHeader P b
  rw [← hs₅.word, ← h₅a.lostBytes] at *
  have hl₆ : (setWord b (wordSize (h₅.word b)) 0 true true h₅).2.Legible P s b :=
    setWord_legible (hs₅.legible hk.toLegible) (by decide)
  have hg₆ := Respects.step (R := LostGrows) (x := setWord b (wordSize (h₅.word b)) 0 true true) h₅
  rw [wp_bind, wp]
  generalize (setWord b (wordSize (h₅.word b)) 0 true true h₅).2 = h₆ at hl₆ hg₆
  have hw₇ : Wrote (b + 12) (b + 16) h₆ (setPayloadCrc P b 0 h₆).2 := wrote_setPayloadCrc 0
  have hl₇ := hl₆.of_word (hw₇.word (Or.inl (by omega))) (hw₇.spanOf b)
  have hg₇ := hw₇.lostBytes
  rw [wp_bind, wp]
  generalize (setPayloadCrc P b 0 h₆).2 = h₇ at hl₇ hg₇
  refine wp_seq (wp_publish hl₇) fun ok h₈ h₈l => ?_
  rw [wp_ite, if_pos h₈l.1]
  have hlost : h₅.lostBytes < (addLost (wordSize (h₅.word b)) h₈).2.lostBytes := by
    change h₅.lostBytes < h₈.lostBytes + wordSize (h₅.word b)
    have := h₈l.2
    unfold LostGrows at hg₆
    omega
  exact lt_of_lt_of_le hlost (Respects.step (R := LostGrows)
    (x := do statNote .quarantine (wordSize (h₅.word b)); fail .quarantined) _)

end Mars
