import MarsAllocator.Steps.Writes

namespace Mars

open ByteMemory StateProgram

variable {P : Profile} {h h' : Heap} {s : Span} {b : Nat}

theorem blockIndex_fst (hs : h.spanOf b = some s) : (blockIndex b h).1 = indexIn s b := by
  rw [blockIndex, withSpanOf, Prog.bind_run, Prog.read_run, hs]
  rfl

theorem isBlockStart_fst (hl : h.Legible P s b) : (isBlockStart P b h).1 = true := by
  rw [isBlockStart, Prog.ite_run, if_neg hl.ne_zero, withSpanOf, Prog.bind_run, Prog.read_run,
    hl.span]
  exact hl.start

theorem wrote_setPrevInUse (used : Bool) : Wrote b (b + 8) h (setPrevInUse b used h).2 :=
  (Wrote.of_alike (Respects.step (x := load64 b) h)).trans (Wrote.storeN (le_refl b) (le_refl _))

theorem word_setPrevInUse (used : Bool) :
    (setPrevInUse b used h).2.word b = wordSetPrevInUse (h.word b) used % 2 ^ 64 :=
  Memory.load_store_self h.mem b 8 _

theorem word_lt (h : Heap) (b : Nat) : h.word b < 2 ^ 64 := h.mem.load_lt b 8

theorem wordSetPrevInUse_lt {w : Nat} (hw : w < 2 ^ 64) (used : Bool) :
    wordSetPrevInUse w used < 2 ^ 64 := by
  have hs : wordSlack w < 128 := by
    rw [wordSlack_eq]
    omega
  rw [wordSetPrevInUse_fields hw]
  exact mkWord_lt (wordSize_lt hw) hs

theorem word_setPrevInUse_fields (used : Bool) :
    (setPrevInUse b used h).2.word b = mkWord (wordSize (h.word b)) (wordSlack (h.word b))
      (wordQuarantined (h.word b)) used (wordUsed (h.word b)) := by
  rw [word_setPrevInUse, Nat.mod_eq_of_lt (wordSetPrevInUse_lt (word_lt h b) used),
    wordSetPrevInUse_fields (word_lt h b)]

theorem wordSlack_lt (w : Nat) : wordSlack w < 128 := by
  rw [wordSlack_eq]
  omega

theorem size_setPrevInUse (used : Bool) :
    wordSize ((setPrevInUse b used h).2.word b) = wordSize (h.word b) := by
  rw [word_setPrevInUse_fields, wordSize_mkWord (wordSize_dvd _) (wordSlack_lt _)]

theorem word_setWord {n slack : Nat} (hn : n < 2 ^ 58) (hs : slack < 128) (used quarantined : Bool) :
    (setWord b n slack used quarantined h).2.word b =
      mkWord n slack quarantined (wordPrevInUse (h.word b)) used := by
  refine (Memory.load_store_self h.mem b 8 _).trans ?_
  change wordSet (h.word b) n slack used quarantined % 2 ^ 64 = _
  rw [wordSet_eq hn hs, Nat.mod_eq_of_lt (mkWord_lt hn hs)]

theorem word_setBlockSize {n : Nat} (hn : n < 2 ^ 58) :
    (setBlockSize b n h).2.word b = mkWord n (wordSlack (h.word b)) (wordQuarantined (h.word b))
      (wordPrevInUse (h.word b)) (wordUsed (h.word b)) := by
  refine (Memory.load_store_self h.mem b 8 _).trans ?_
  change wordSetSize (h.word b) n % 2 ^ 64 = _
  conv_lhs => rw [← mkWord_fields (w := h.word b)]
  rw [wordSetSize_mkWord hn (wordSlack_lt _), Nat.mod_eq_of_lt (mkWord_lt hn (wordSlack_lt _))]

/-- What `mm_seal` computes before it stores anything. -/
def hdrCrcNow (P : Profile) (b : Nat) : HeapM Nat := do
  let w ← load64 b
  let c ← payloadCrc P b
  let index ← blockIndex b
  let secret ← Prog.read Heap.secret
  return hdrCrcOf w c index secret

instance (b : Nat) : Observes (hdrCrcNow P b) := by
  unfold hdrCrcNow
  infer_instance

theorem sealCrc_run (hc : P.hasCrc = true) :
    sealCrc P b h = storeN (b + 8) 4 (hdrCrcNow P b h).1 (hdrCrcNow P b h).2 := by
  rw [sealCrc, if_pos hc]
  rfl

theorem hdrCrcNow_fst (hc : P.hasCrc = true) (hs : h.spanOf b = some s) :
    (hdrCrcNow P b h).1 =
      hdrCrcOf (h.word b) (h.mem.load (b + 12) 4) (indexIn s b) h.secret := by
  have hp : payloadCrc P b = loadN (b + 12) 4 := by rw [payloadCrc, if_pos hc]
  have hi : (blockIndex b (loadN (b + 12) 4 (load64 b h).2).2).1 = indexIn s b := blockIndex_fst hs
  have hq : (blockIndex b (loadN (b + 12) 4 (load64 b h).2).2).2.secret = h.secret :=
    Observes.value (x := Prog.read Heap.secret)
      (Respects.step (R := Alike) (x := do
        let _ ← load64 b
        let _ ← loadN (b + 12) 4
        blockIndex b) h)
  unfold hdrCrcNow
  simp only [Prog.bind_run, hp, hi, Prog.read_run, Prog.pure_run, hq]
  rfl

theorem wrote_sealCrc : Wrote (b + 8) (b + 12) h (sealCrc P b h).2 := by
  by_cases hc : P.hasCrc
  · rw [sealCrc_run hc]
    exact (Wrote.of_alike (Respects.step h)).trans (Wrote.storeN (le_refl _) (le_refl _))
  · rw [sealCrc, if_neg hc]
    exact .of_alike (refl_of Alike h)

theorem wrote_sealMirror (hn : P.minBlock ≤ wordSize (h.word b)) :
    Wrote (b + wordSize (h.word b) - P.mirrorSize) (b + wordSize (h.word b)) h
      (sealMirror P b h).2 := by
  have hp := P.sizes
  unfold sealMirror
  rw [Prog.ite_run]
  split
  · rename_i hm
    have hsize := Profile.mirrorSize_of_mirror hm
    rw [Prog.bind_run, Prog.ite_run]
    split
    · have ho : Observes (do
          let _ ← isUsed b
          let e ← blockEnd b
          let _ ← loadN b P.hdrSize
          return e) := inferInstance
      exact (Wrote.of_alike (ho.step h)).trans
        (Wrote.storeN (a := b + wordSize (h.word b) - P.mirrorSize) (le_refl _) (by omega))
    · exact .of_alike (Respects.step h)
  · exact .of_alike (refl_of Alike h)

theorem word_sealCrc : (sealCrc P b h).2.word b = h.word b :=
  wrote_sealCrc.word (Or.inl (le_refl _))

theorem wrote_sealMirror_sealCrc (hn : P.minBlock ≤ wordSize (h.word b)) :
    Wrote (b + wordSize (h.word b) - P.mirrorSize) (b + wordSize (h.word b)) (sealCrc P b h).2
      (sealHeader P b h).2 := by
  have hs := wrote_sealMirror (P := P) (b := b) (h := (sealCrc P b h).2)
  rw [word_sealCrc] at hs
  exact hs hn

theorem wrote_sealHeader (hn : P.minBlock ≤ wordSize (h.word b)) :
    Wrote (b + 8) (b + wordSize (h.word b)) h (sealHeader P b h).2 := by
  have hp := P.sizes
  exact (wrote_sealCrc.mono (le_refl _) (by omega)).trans
    ((wrote_sealMirror_sealCrc hn).mono (by omega) (le_refl _))

theorem wrote_relink (used : Bool) (hn : P.minBlock ≤ wordSize (h.word b)) :
    Wrote b (b + wordSize (h.word b)) h (relink P b used h).2 := by
  have hp := P.sizes
  unfold relink
  rw [Prog.bind_run, Prog.when_run]
  have ha : Wrote b (b + wordSize (h.word b)) h (prevInUse b h).2 :=
    .of_alike (Respects.step h)
  have hw : (prevInUse b h).2.word b = h.word b := rfl
  split
  · have hsize := size_setPrevInUse (b := b) (h := (prevInUse b h).2) used
    have hq := wrote_sealHeader (P := P) (b := b) (h := (setPrevInUse b used (prevInUse b h).2).2)
    rw [hsize, hw] at hq
    exact ha.trans (((wrote_setPrevInUse used).mono (le_refl _) (by omega)).trans
      ((hq hn).mono (by omega) (le_refl _)))
  · exact ha

theorem sealHeader_seals (hl : h.Legible P s b) :
    (sealHeader P b h).2.HeaderOk P s b ∧ (sealHeader P b h).2.word b = h.word b := by
  have hp := P.sizes
  have hn := hl.min_le
  have hc : Wrote (b + 8) (b + 12) h (sealCrc P b h).2 := wrote_sealCrc
  have hw : (sealCrc P b h).2.word b = h.word b := word_sealCrc
  have hl₁ : (sealCrc P b h).2.Legible P s b := by
    refine ⟨hl.ne_zero, ?_, hl.start, hw ▸ hl.min_le, hw ▸ hl.le⟩
    rw [hc.spanOf]
    exact hl.span
  have hq₁ : (sealCrc P b h).2.Sealed P s b := by
    intro hcrc
    rw [hc.load (a := b + 12) (Or.inr (le_refl _)), hw, hc.secret, sealCrc_run hcrc,
      ← hdrCrcNow_fst hcrc hl.span]
    refine (Memory.load_store_self _ _ _ _).trans (Nat.mod_eq_of_lt ?_)
    rw [hdrCrcNow_fst hcrc hl.span]
    exact crc32c_lt _ _
  have hh : SameHeader P b (sealCrc P b h).2 (sealHeader P b h).2 :=
    (wrote_sealMirror_sealCrc hn).sameHeader (Or.inl (by omega))
  exact ⟨hh.headerOk ⟨hl₁, hq₁⟩, hh.word.trans hw⟩

theorem wp_relink_sameHeader (used : Bool) {n : Nat} (hn : P.minBlock ≤ wordSize (h.word n))
    (hb : b + P.minBlock ≤ n) : wp (relink P n used) (fun _ h' => SameHeader P b h h') h := by
  have hp := P.sizes
  exact (wrote_relink used hn).sameHeader (Or.inl (by omega))

theorem SameHeader.trans {h₁ h₂ h₃ : Heap} (hs : SameHeader P b h₁ h₂)
    (hs' : SameHeader P b h₂ h₃) : SameHeader P b h₁ h₃ :=
  ⟨hs'.registry.trans hs.registry, hs'.secret.trans hs.secret, fun a n ha hn =>
    (hs'.load a n ha hn).trans (hs.load a n ha hn)⟩

/-- A header at `n` that checks out goes on doing so, with the same extent and the same use. -/
def StillOk (P : Profile) (n : Nat) (h h' : Heap) : Prop :=
  ∀ s, h.HeaderOk P s n → h'.HeaderOk P s n ∧ wordSize (h'.word n) = wordSize (h.word n) ∧
    wordUsed (h'.word n) = wordUsed (h.word n)

theorem SameHeader.stillOk {n : Nat} (hs : SameHeader P n h h') : StillOk P n h h' := fun _ hk =>
  ⟨hs.headerOk hk, by rw [hs.word], by rw [hs.word]⟩

theorem StillOk.trans {n : Nat} {h₁ h₂ : Heap} (hs : StillOk P n h h₁)
    (hs' : StillOk P n h₁ h₂) : StillOk P n h h₂ := by
  intro s hk
  obtain ⟨hk₁, hn₁, hu₁⟩ := hs s hk
  obtain ⟨hk₂, hn₂, hu₂⟩ := hs' s hk₁
  exact ⟨hk₂, hn₂.trans hn₁, hu₂.trans hu₁⟩

theorem used_setPrevInUse (used : Bool) :
    wordUsed ((setPrevInUse b used h).2.word b) = wordUsed (h.word b) := by
  rw [word_setPrevInUse_fields, wordUsed_mkWord]

theorem relink_stillOk (used : Bool) (n : Nat) : StillOk P n h (relink P n used h).2 := by
  intro s hk
  rw [relink, Prog.bind_run, Prog.when_run]
  have hs : SameHeader P n h (prevInUse n h).2 :=
    (Respects.step (R := Alike) (x := prevInUse n) h).sameHeader P n
  split
  swap
  · exact hs.stillOk s hk
  obtain ⟨hk₁, hn₁, hu₁⟩ := hs.stillOk s hk
  have hn := size_setPrevInUse (b := n) (h := (prevInUse n h).2) used
  have hu := used_setPrevInUse (b := n) (h := (prevInUse n h).2) used
  have hspan := (wrote_setPrevInUse (b := n) (h := (prevInUse n h).2) used).spanOf n
  obtain ⟨hk₂, hw₂⟩ := sealHeader_seals (P := P) (s := s) (b := n)
    (h := (setPrevInUse n used (prevInUse n h).2).2)
    ⟨hk₁.ne_zero, hspan.trans hk₁.span, hk₁.start, hn ▸ hk₁.min_le, hn ▸ hk₁.le⟩
  refine ⟨hk₂, ?_, ?_⟩
  · exact (congrArg wordSize hw₂).trans (hn.trans hn₁)
  · exact (congrArg wordUsed hw₂).trans (hu.trans hu₁)

theorem wp_sealAndLink (hl : h.Legible P s b) (hu : wordUsed (h.word b) = true) :
    wp (sealAndLink P b) (fun _ h' => h'.HeaderOk P s b ∧ h'.word b = h.word b ∧
      StillOk P (b + wordSize (h.word b)) h h') h := by
  have hw8 : wordUsed (h.word b) = (isUsed b h).1 := rfl
  refine wp_observe (refl_of Alike h) (hw8.symm.trans hu) fun h₁ h₁a => ?_
  rw [wp_when_false _ (by decide)]
  have hs₁ := h₁a.sameHeader P b
  obtain ⟨hk, hw⟩ := sealHeader_seals (hs₁.legible hl)
  have hwrote := wrote_sealHeader (hs₁.legible hl).min_le
  rw [hs₁.word] at hwrote
  have hnext : StillOk P (b + wordSize (h.word b)) h (sealHeader P b h₁).2 :=
    (h₁a.sameHeader P _).stillOk.trans (hwrote.sameHeader (.inr (le_refl _))).stillOk
  rw [hs₁.word] at hw
  rw [wp_bind, wp]
  generalize (sealHeader P b h₁).2 = h₂ at hk hw hnext
  rw [← hw] at hnext ⊢
  suffices hs : wp (withSpanOf b (pure ()) fun s => do
      let n ← blockEnd b
      Prog.when (n < s.hi) do
        let ok ← headerOk P n
        Prog.when ok do
          let used ← isUsed b
          relink P n used) (fun _ h' => SameHeader P b h₂ h' ∧
            StillOk P (b + wordSize (h₂.word b)) h₂ h') h₂ from
    wp_mono hs fun _ h' hs' => ⟨hs'.1.headerOk hk, hs'.1.word, hnext.trans hs'.2⟩
  have halike : ∀ h', Alike h₂ h' → SameHeader P b h₂ h' ∧
      StillOk P (b + wordSize (h₂.word b)) h₂ h' := fun h' ha =>
    ⟨ha.sameHeader P b, (ha.sameHeader P _).stillOk⟩
  rw [withSpanOf, wp_bind, wp_read, hk.span, Prog.elim_some]
  refine wp_observe (refl_of Alike h₂) rfl fun h₃ h₃a => ?_
  rw [wp_when]
  split
  swap
  · exact halike h₃ h₃a
  refine wp_observe h₃a rfl fun h₄ h₄a => ?_
  rw [wp_when]
  split
  swap
  · exact halike h₄ h₄a
  rename_i hok
  obtain ⟨s', hn⟩ := (headerOk_fst h₂ _).mp hok
  refine wp_observe h₄a rfl fun h₅ h₅a => ?_
  have h₅n := (h₅a.sameHeader P _).headerOk hn
  obtain ⟨hsame, hstill⟩ := halike h₅ h₅a
  have hrelink := wp_relink_sameHeader (isUsed b h₂).1 h₅n.min_le (Nat.add_le_add_left hk.min_le b)
  exact ⟨hsame.trans hrelink, hstill.trans (relink_stillOk _ _)⟩

end Mars
