import MarsAllocator.Model.ControlWord
import MarsAllocator.Steps.Observe

namespace Mars

open ByteMemory StateProgram

variable {P : Profile}

/-- What `mm_is_block` establishes of `b` in `s`. -/
structure Heap.Legible (P : Profile) (h : Heap) (s : Span) (b : Nat) : Prop where
  ne_zero : b ≠ 0
  span : h.spanOf b = some s
  start : startOkIn P s b = true
  min_le : P.minBlock ≤ wordSize (h.word b)
  le : wordSize (h.word b) ≤ s.hi - b

/-- The checksum half of `mm_header_ok`. -/
def Heap.Sealed (P : Profile) (h : Heap) (s : Span) (b : Nat) : Prop :=
  P.hasCrc → h.mem.load (b + 8) 4 =
    hdrCrcOf (h.word b) (h.mem.load (b + 12) 4) (indexIn s b) h.secret

/-- What `mm_header_ok` establishes of `b` in `s`. -/
structure Heap.HeaderOk (P : Profile) (h : Heap) (s : Span) (b : Nat) : Prop extends
  h.Legible P s b where
  sealed : h.Sealed P s b

theorem spanOf_bounds {h : Heap} {s : Span} {p : Nat} (hs : h.spanOf p = some s) :
    s ∈ h.registry ∧ s.lo ≤ p ∧ p < s.hi := by
  have hp := List.find?_some hs
  simp only [Bool.and_eq_true, decide_eq_true_eq] at hp
  exact ⟨List.mem_of_find?_eq_some hs, hp⟩

namespace Heap.Legible

variable {h : Heap} {s : Span} {b : Nat}

theorem lo_le (hl : h.Legible P s b) : s.lo ≤ b := (spanOf_bounds hl.span).2.1

theorem end_le (hl : h.Legible P s b) : b + wordSize (h.word b) ≤ s.hi := by
  have := (spanOf_bounds hl.span).2.2
  have := hl.le
  omega

theorem of_word {h' : Heap} (hl : h.Legible P s b) (hw : h'.word b = h.word b)
    (hs : h'.spanOf b = h.spanOf b) : h'.Legible P s b :=
  ⟨hl.ne_zero, hs.trans hl.span, hl.start, hw ▸ hl.min_le, hw ▸ hl.le⟩

end Heap.Legible

theorem isBlock_fst (h : Heap) (b : Nat) :
    (isBlock P b h).1 = true ↔ ∃ s, h.Legible P s b := by
  rw [isBlock, Prog.ite_run]
  by_cases hb : b = 0
  · rw [if_pos hb]
    exact iff_of_false Bool.false_ne_true fun ⟨s, hl⟩ => hl.ne_zero hb
  rw [if_neg hb, withSpanOf, Prog.bind_run, Prog.read_run]
  rcases hs : h.spanOf b with _ | s
  · refine iff_of_false Bool.false_ne_true ?_
    rintro ⟨s, hl⟩
    exact absurd (hs.symm.trans hl.span) (by simp)
  rw [Prog.elim_some, blockOkIn, Prog.ite_run]
  by_cases hst : startOkIn P s b
  · rw [if_neg (by simp [hst])]
    change decide (P.minBlock ≤ wordSize (h.word b)) && decide (wordSize (h.word b) ≤ s.hi - b) ↔ _
    rw [Bool.and_eq_true, decide_eq_true_eq, decide_eq_true_eq]
    refine ⟨fun hn => ⟨s, hb, hs, hst, hn.1, hn.2⟩, ?_⟩
    rintro ⟨s', hl⟩
    obtain rfl : s = s' := Option.some.inj (hs.symm.trans hl.span)
    exact ⟨hl.min_le, hl.le⟩
  · rw [if_pos (by simp [hst])]
    refine iff_of_false Bool.false_ne_true ?_
    rintro ⟨s', hl⟩
    obtain rfl : s = s' := Option.some.inj (hs.symm.trans hl.span)
    exact hst hl.start

theorem headerOk_fst (h : Heap) (b : Nat) :
    (headerOk P b h).1 = true ↔ ∃ s, h.HeaderOk P s b := by
  have hblock := isBlock_fst (P := P) h b
  unfold isBlock at hblock
  unfold headerOk
  rw [Prog.ite_run] at hblock ⊢
  by_cases hb : b = 0
  · rw [if_pos hb]
    exact iff_of_false Bool.false_ne_true fun ⟨s, hk⟩ => hk.ne_zero hb
  rw [if_neg hb, withSpanOf, Prog.bind_run, Prog.read_run] at hblock ⊢
  rcases hs : h.spanOf b with _ | s
  · refine iff_of_false Bool.false_ne_true ?_
    rintro ⟨s, hk⟩
    exact absurd (hs.symm.trans hk.span) (by simp)
  rw [hs, Prog.elim_some] at hblock
  rw [Prog.elim_some, Prog.bind_run, Prog.ite_run]
  have huniq : ∀ s', h.Legible P s' b → s' = s := fun s' hl =>
    Option.some.inj (hl.span.symm.trans hs)
  by_cases hok : (blockOkIn P s b h).1
  · rw [if_pos hok, Prog.ite_run]
    obtain ⟨s', hl⟩ := hblock.mp hok
    obtain rfl := huniq s' hl
    have ha : Alike h (blockOkIn P s' b h).2 := Respects.step h
    by_cases hc : P.hasCrc
    · rw [if_pos hc, Observes.value ha]
      have hval : (hdrCrcMatches P s' b h).1 = (h.mem.load (b + 8) 4 ==
          hdrCrcOf (h.word b) (h.mem.load (b + 12) 4) (indexIn s' b) h.secret) := by
        unfold hdrCrcMatches payloadCrc
        rw [if_pos hc]
        rfl
      rw [hval, beq_iff_eq]
      refine ⟨fun he => ⟨s', hl, fun _ => he⟩, ?_⟩
      rintro ⟨s'', hk⟩
      obtain rfl := huniq s'' hk.toLegible
      exact hk.sealed hc
    · rw [if_neg hc]
      exact iff_of_true rfl ⟨s', hl, fun h' => absurd h' hc⟩
  · rw [if_neg hok]
    refine iff_of_false Bool.false_ne_true ?_
    rintro ⟨s', hk⟩
    exact hok (hblock.mpr ⟨s', hk.toLegible⟩)

end Mars
