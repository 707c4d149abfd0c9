import MarsAllocator.Steps.Headers

namespace Mars

open ByteMemory StateProgram

section Rules

variable {α β : Type} {Q : β → Heap → Prop} {h h' : Heap}

theorem wp_observe {x : HeapM α} [hx : Observes x] {f : α → HeapM β} {a : α} (ha : Alike h h')
    (hv : (x h).1 = a) (hf : ∀ h'', Alike h h'' → wp (f a) Q h'') : wp (x >>= f) Q h' := by
  have hr := hf (x h').2 (trans_of Alike ha (hx.step h'))
  rw [← hv, ← hx.value ha] at hr
  exact hr

theorem Alike.storeN (ha : Alike h h') (a n v : Nat) :
    Alike { h with mem := h.mem.store a n v } (storeN a n v h').2 := by
  obtain ⟨e, r, c, w⟩ := ha
  exact .mk (h := { h with mem := h.mem.store a n v }) e r c _

theorem wp_storeN {a n v : Nat} {f : Unit → HeapM β} (ha : Alike h h')
    (hf : ∀ h'', Alike { h with mem := h.mem.store a n v } h'' → wp (f ()) Q h'') :
    wp (storeN a n v >>= f) Q h' :=
  hf _ (ha.storeN a n v)

theorem wp_withSpanOf {p : Nat} {s : Span} {miss : HeapM β} {hit : Span → HeapM β}
    (hs : h.spanOf p = some s) : wp (withSpanOf p miss hit) Q h = wp (hit s) Q h := by
  rw [withSpanOf, wp_bind, wp_read, hs, Prog.elim_some]

end Rules

theorem Alike.spanOf {h h' : Heap} (ha : Alike h h') (p : Nat) : h'.spanOf p = h.spanOf p := by
  obtain ⟨e, r, c, w⟩ := ha
  rfl

theorem Alike.lostBytes {h h' : Heap} (ha : Alike h h') : h'.lostBytes = h.lostBytes := by
  obtain ⟨e, r, c, w⟩ := ha
  rfl

/-- `h'` differs from `h` in the bytes of `[x, y)` and what a status can change, at most. -/
def Wrote (x y : Nat) (h h' : Heap) : Prop :=
  ∃ m, Memory.AgreeOff h.mem m x y ∧ Alike { h with mem := m } h'

namespace Wrote

variable {x y : Nat} {h h₁ h₂ : Heap}

theorem of_alike (ha : Alike h h₁) : Wrote x y h h₁ := ⟨h.mem, Memory.AgreeOff.refl _ _ _, ha⟩

theorem trans (hw : Wrote x y h h₁) (hw' : Wrote x y h₁ h₂) : Wrote x y h h₂ := by
  obtain ⟨m, hm, e, r, c, w⟩ := hw
  obtain ⟨m', hm', e', r', c', w'⟩ := hw'
  exact ⟨m', hm.trans hm', .mk (h := { h with mem := m' }) e' r' c' w'⟩

theorem mono {x' y' : Nat} (hw : Wrote x y h h₁) (hx : x' ≤ x) (hy : y ≤ y') :
    Wrote x' y' h h₁ := by
  obtain ⟨m, hm, ha⟩ := hw
  exact ⟨m, hm.mono hx hy, ha⟩

theorem storeN {a n v : Nat} (hx : x ≤ a) (hy : a + n ≤ y) :
    Wrote x y h (storeN a n v h).2 :=
  ⟨_, (Memory.agreeOff_store h.mem a n v).mono hx hy, (refl_of Alike h).storeN a n v⟩

theorem mem_agree (hw : Wrote x y h h₁) : Memory.AgreeOff h.mem h₁.mem x y := by
  obtain ⟨m, hm, e, r, c, w⟩ := hw
  exact hm

theorem load (hw : Wrote x y h h₁) {a n : Nat} (ha : a + n ≤ x ∨ y ≤ a) :
    h₁.mem.load a n = h.mem.load a n := hw.mem_agree.load ha

theorem word (hw : Wrote x y h h₁) {b : Nat} (hb : b + 8 ≤ x ∨ y ≤ b) : h₁.word b = h.word b :=
  hw.load hb

theorem registry (hw : Wrote x y h h₁) : h₁.registry = h.registry := by
  obtain ⟨m, -, e, r, c, w⟩ := hw
  rfl

theorem secret (hw : Wrote x y h h₁) : h₁.secret = h.secret := by
  obtain ⟨m, -, e, r, c, w⟩ := hw
  rfl

theorem lostBytes (hw : Wrote x y h h₁) : h₁.lostBytes = h.lostBytes := by
  obtain ⟨m, -, e, r, c, w⟩ := hw
  rfl

theorem spanOf (hw : Wrote x y h h₁) (p : Nat) : h₁.spanOf p = h.spanOf p := by
  rw [Heap.spanOf, hw.registry]
  rfl

end Wrote

/-- The header of `b` reads the same, with the same spans around it. -/
structure SameHeader (P : Profile) (b : Nat) (h h' : Heap) : Prop where
  registry : h'.registry = h.registry
  secret : h'.secret = h.secret
  load : ∀ a n, b ≤ a → a + n ≤ b + P.hdrSize → h'.mem.load a n = h.mem.load a n

namespace SameHeader

variable {P : Profile} {b : Nat} {h h' : Heap}

theorem word (hs : SameHeader P b h h') : h'.word b = h.word b :=
  hs.load b 8 (le_refl b) (by cases P <;> simp [Profile.hdrSize, Profile.hasCrc])

theorem legible {s : Span} (hs : SameHeader P b h h') (hl : h.Legible P s b) :
    h'.Legible P s b := by
  refine ⟨hl.ne_zero, ?_, hl.start, hs.word ▸ hl.min_le, hs.word ▸ hl.le⟩
  rw [Heap.spanOf, hs.registry]
  exact hl.span

theorem sealed {s : Span} (hs : SameHeader P b h h') (hq : h.Sealed P s b) : h'.Sealed P s b := by
  intro hc
  have h16 : P.hdrSize = 16 := by rw [Profile.hdrSize, if_pos hc]
  rw [hs.load (b + 8) 4 (by omega) (by omega), hs.load (b + 12) 4 (by omega) (by omega), hs.word,
    hs.secret]
  exact hq hc

theorem headerOk {s : Span} (hs : SameHeader P b h h') (hk : h.HeaderOk P s b) :
    h'.HeaderOk P s b := ⟨hs.legible hk.toLegible, hs.sealed hk.sealed⟩

theorem symm (hs : SameHeader P b h h') : SameHeader P b h' h :=
  ⟨hs.registry.symm, hs.secret.symm, fun a n ha hn => (hs.load a n ha hn).symm⟩

end SameHeader

theorem Wrote.sameHeader {P : Profile} {x y b : Nat} {h h' : Heap} (hw : Wrote x y h h')
    (hb : b + P.hdrSize ≤ x ∨ y ≤ b) : SameHeader P b h h' :=
  ⟨hw.registry, hw.secret, fun _ _ _ _ => hw.load (by omega)⟩

theorem Alike.sameHeader {h h' : Heap} (ha : Alike h h') (P : Profile) (b : Nat) :
    SameHeader P b h h' := (Wrote.of_alike (x := b) (y := b) ha).sameHeader (Or.inr (le_refl b))

end Mars
