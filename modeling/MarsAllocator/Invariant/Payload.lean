import MarsAllocator.Invariant.Release

namespace Mars

open ByteMemory StateProgram

variable {P : Profile} {h h' h₁ : Heap} {s : Span} {a b v n : Nat} {u : Bool} {c d : Cell}
  {L L' : Span → List Cell} {pre post : List Cell} {X : Nat → Prop} {m : Memory}

theorem Heap.Holds.run_payloadCrc (hh : h.Holds P s b u c) :
    payloadCrc P b h = (if P.hasCrc then c.crc else 0, h) := by
  rw [Mars.run_payloadCrc hh.covers_head]
  split
  · rename_i hcrc
    rw [hh.head.crc hcrc]
  · rfl

theorem Heap.Sound.recell (hS : h.Sound P L) (hs : s ∈ h.spans) (hL : L s = pre ++ [c] ++ post)
    (hb : b = s.lo + extents pre) (hsize : d.size = c.size) (hkind : d.kind = c.kind)
    (hfit : d.Fits P)
    (hm : ∀ a, a < b ∨ b + c.size ≤ a ∨ c.kind = .free ∧ b + P.hdrSize ≤ a →
      m.byte a = h.mem.byte a)
    (hcell : CellAt P h.secret True s m b (lastUsed true pre) d) :
    (h.withMem m).Sound P (Function.update L s (pre ++ [d] ++ post)) := by
  have hk := h.kin_withMem m
  have hplan := hS.tiled.plan
  have hmem : h.CellIn L s b c := Heap.cellIn_of_eq hs hL hb
  have hone : extents [d] = extents [c] := extents_one_eq hsize
  have hused : d.used = c.used := by rw [Cell.used, hkind, Cell.used]
  obtain ⟨hgap, hmid⟩ := hS.tiled.gap hs hL
  have hlast : lastUsed (lastUsed true pre) [c] = d.used := hused.symm
  rw [← hb, extents_one, hlast] at hgap
  have hside : lastUsed true pre = true ∨ d.used = true := hused ▸ hmid.2.2.1
  have hgap' := hgap.kin hk fun a ha => hm a (ha.imp_right .inl)
  have htiled : (h.withMem m).Tiled P True (Function.update L s (pre ++ [d] ++ post)) :=
    hgap'.close (⟨hcell, hfit, hside, trivial⟩ :
      Laid P h.secret True s m b (lastUsed true pre) [d]) (by rw [extents_one, hsize]) hgap'.after
  have hfree : ∀ x k, h.FreeAt (Function.update L s (pre ++ [d] ++ post)) x k ↔ h.FreeAt L x k := by
    intro x k
    rw [hplan.freeAt_update hs hL hone, ← hb, extents_one]
    constructor
    · rintro (hx | ⟨e, he, hek, rfl⟩)
      · exact hx.1
      · obtain ⟨rfl, rfl⟩ := at_one.mp he
        exact ⟨s, c, hmem, hkind ▸ hek, hsize.symm⟩
    · rintro ⟨t, e, he, hek, rfl⟩
      by_cases hin : b ≤ x ∧ x < b + c.size
      · rcases hplan.apart he hmem with ⟨-, rfl, rfl⟩ | hap
        · exact .inr ⟨d, at_one.mpr ⟨rfl, rfl⟩, hkind.trans hek, hsize⟩
        · have := (hplan.cell_fits he).pos
          omega
      · exact .inl ⟨⟨t, e, he, hek, rfl⟩, hin⟩
  refine ⟨htiled, ?_, ?_, hS.narrow⟩
  · change (h.withMem m).Filed P (h.FreeAt _)
    have hM : ∀ x k, h.FreeAt L x k →
        (h.withMem m).FreeAt (Function.update L s (pre ++ [d] ++ post)) x k := fun x k hx =>
      (hfree x k).mpr hx
    refine (htiled.filed hM hS.filed hk rfl rfl ?_).of_iff fun x k => (hfree x k).symm
    rintro a ⟨x, k, ⟨t, e, he, hek, rfl⟩, h₁, h₂⟩
    have hmin := (hplan.cell_fits he).min_le
    have hp := P.sizes
    rcases hplan.apart he hmem with ⟨-, rfl, rfl⟩ | hap
    · exact hm a (.inr (.inr ⟨hek, h₁⟩))
    · exact hm a (by omega)
  · refine (hS.cursor.update hL hone fun e he => ?_).congr rfl rfl rfl
    exact ⟨d, by rw [← hb] at he ⊢; exact at_one.mpr ⟨(at_one.mp he).1, rfl⟩⟩

theorem Heap.Sound.poke (hS : h.Sound P L) (hc : h.CellIn L s b c) (hk : c.kind = .live)
    (hm : ∀ a, a < b + P.hdrSize ∨ b + P.hdrSize + c.requested P ≤ a → m.byte a = h.mem.byte a) :
    (h.withMem m).Sound P L := by
  obtain ⟨pre, post, hL, hb⟩ := hc.split
  have hfit := hS.tiled.plan.cell_fits hc
  have hbody : c.bodyEnd P = c.size - c.slack := by rw [Cell.bodyEnd, hk]
  have hreq : c.requested P = c.size - P.hdrSize - c.slack := rfl
  have hslack := hfit.slack_le hk
  have hmid := (hS.tiled.gap hc.1 hL).2.1
  rw [← hb] at hmid
  have hsound := hS.recell (m := m) hc.1 hL hb rfl rfl hfit (fun a ha => ?_)
    (hmid.congr hfit fun a h₁ h₂ h₃ => hm a (by omega))
  · rwa [← hL, Function.update_eq_self] at hsound
  · rcases ha with ha | ha | ha
    · exact hm a (.inl (by omega))
    · exact hm a (.inr (by omega))
    · exact absurd (hk.symm.trans ha.1) (by decide)

theorem Heap.Spares.poke (hS : h.Sound P L) (hc : h.CellIn L s b c) (hk : c.kind = .live)
    (hm : ∀ a, a < b + P.hdrSize ∨ b + P.hdrSize + c.requested P ≤ a → m.byte a = h.mem.byte a)
    (hX : X b) : h.Spares P X L (h.withMem m) L := by
  refine ⟨fun _ _ _ _ _ => Iff.rfl, fun a ha => hm a ?_⟩
  have hu : c.used = true := Cell.used_of_ne (by rw [hk]; decide)
  have hout := ha.outside hS.tiled.plan hc fun _ => hX
  have hreq : c.requested P = c.size - P.hdrSize - c.slack := rfl
  have := (hS.tiled.plan.cell_fits hc).slack_le hk
  omega

theorem Heap.Sound.run_resum (hS : h.Sound P L) (hs : s ∈ h.spans) (hL : L s = pre ++ [c] ++ post)
    (hb : b = s.lo + extents pre) (hv : v < 2 ^ 32) :
    ∃ h₁ h', setPayloadCrc P b v h = ((), h₁) ∧ sealHeader P b h₁ = ((), h') ∧ h.Work h' ∧
      h'.Sound P (Function.update L s (pre ++ [c.summed v] ++ post)) ∧
      ∀ a, a < b ∨ b + P.hdrSize ≤ a → c.used = false ∨ a < b + c.size - P.mirrorSize ∨
        b + c.size ≤ a → h'.mem.byte a = h.mem.byte a := by
  have hp := P.sizes
  have hc : h.CellIn L s b c := Heap.cellIn_of_eq hs hL hb
  have hfit := hS.tiled.plan.cell_fits hc
  have hmin := hfit.min_le
  have hcell := (hS.tiled.gap hs hL).2.1
  rw [← hb] at hcell
  have hw := (hcell.holds (hS.tiled.plan.room hc) hfit).toWrit
  obtain ⟨m₁, hrun₁, hset⟩ := Mars.run_setPayloadCrc hw.covers_head hv
  have hw₁ : (h.withMem m₁).Writ P s b (lastUsed true pre) (c.summed v) :=
    ⟨hw.room.withMem m₁, hfit.summed v, hset.word.trans hw.word⟩
  obtain ⟨m₂, hrun₂, hs₂⟩ := run_sealHeader hw₁ hset.crc
  have hsame : ∀ a, a < b ∨ b + P.hdrSize ≤ a → c.used = false ∨ a < b + c.size - P.mirrorSize ∨
      b + c.size ≤ a → m₂.byte a = h.mem.byte a := fun a h₁ h₂ =>
    (hs₂.same a h₁ h₂).trans (hset.same a h₁)
  refine ⟨h.withMem m₁, (h.withMem m₁).withMem m₂, hrun₁, hrun₂, h.work_withMem m₂, ?_, hsame⟩
  refine hS.recell (m := m₂) hs hL hb rfl rfl (hfit.summed v) (fun a ha => ?_)
    (hs₂.cellAt (hfit.summed v) (fun hcan hl => ?_) fun hf => ?_)
  · rcases ha with ha | ha | ha
    · exact hsame a (by omega) (by omega)
    · exact hsame a (by omega) (by omega)
    · exact hsame a (.inr ha.2) (.inl (Cell.not_used_iff.mpr ha.1))
  · refine Eq.trans (Memory.load_congr fun x h₁ h₂ => hset.same x ?_) (hcell.canary hcan hl)
    have := hfit.slack_le hl
    have hsz : (c.summed v).size = c.size := rfl
    have hsl : (c.summed v).slack = c.slack := rfl
    omega
  · refine Eq.trans (Memory.load_congr fun x h₁ h₂ => hset.same x ?_) (hcell.tag hf)
    have hsz : (c.summed v).size = c.size := rfl
    omega

end Mars
