import MarsAllocator.Invariant.Arrivals
import MarsAllocator.Library.ByteStore

namespace Mars

open ByteMemory ByteStore StateProgram

def Heap.held (P : Profile) (h : Heap) (p : Nat) : List UInt8 := h.mem.bytes p (sizeOfLive P p h).1

def Heap.blocks (P : Profile) (h : Heap) (live : List Nat) : Blocks UInt8 :=
  Blocks.listed live (h.held P)

variable {P : Profile} {h h' : Heap} {s t : Span} {b n p q : Nat} {c d : Cell} {L L' : Span → List Cell}
  {X : Nat → Prop} {live live' : List Nat} {bs : List UInt8} {cs : List Cell}

@[simp] theorem Heap.blocks_nil : h.blocks P [] = Blocks.empty := rfl

theorem Heap.blocks_of_mem (hp : p ∈ live) : h.blocks P live p = some (h.held P p) :=
  Blocks.listed_of_mem hp

theorem Heap.blocks_of_notMem (hp : p ∉ live) : h.blocks P live p = none :=
  Blocks.listed_of_notMem hp

theorem Heap.mem_of_blocks (hp : h.blocks P live p = some bs) : p ∈ live ∧ bs = h.held P p :=
  Blocks.mem_of_listed hp

theorem Heap.blocks_congr (hh : ∀ q ∈ live, h'.held P q = h.held P q) :
    h'.blocks P live = h.blocks P live :=
  Blocks.listed_congr hh

theorem Heap.blocks_cons : h.blocks P (p :: live) = (h.blocks P live).put p (h.held P p) :=
  Blocks.listed_cons

theorem Heap.blocks_erase (hn : live.Nodup) : h.blocks P (live.erase p) = (h.blocks P live).drop p :=
  Blocks.listed_erase hn

theorem Heap.blocks_put (hp : p ∈ live) (hh : ∀ q ∈ live, q ≠ p → h'.held P q = h.held P q) :
    h'.blocks P live = (h.blocks P live).put p (h'.held P p) :=
  Blocks.listed_put hp hh

theorem lostBytes_at {x : Nat} (hc : At x cs b c) (hk : c.kind = .lost) : c.size ≤ lostBytes cs := by
  obtain ⟨pre, post, rfl, -⟩ := at_iff.mp hc
  rw [lostBytes_append, lostBytes_cons, if_pos hk]
  omega

theorem Heap.Thriving.not_lost (hT : h.Thriving P L) (hw : h.lostBytes = 0) (hc : h.CellIn L s b c) :
    c.kind ≠ .lost := fun hk => by
  have hpos := (hT.sound.tiled.plan.cell_fits hc).pos
  have hle := lostBytes_at hc.2 hk
  have hsum := ((List.perm_cons_erase hc.1).map fun t : Span => Mars.lostBytes (L t)).sum_nat
  have hlost := hT.lost
  rw [List.map_cons, List.sum_cons] at hsum
  omega

theorem Heap.Sound.held_eq (hS : h.Sound P L) (hc : h.CellIn L s b c) (hk : c.kind = .live) :
    h.held P (b + P.hdrSize) = h.mem.bytes (b + P.hdrSize) (c.requested P) := by
  rw [Heap.held, hS.sizeOfLive hc (.inl hk), if_pos hk]

namespace Heap.Kempt

variable (hK : h.Kempt P L live)
include hK

theorem mmCheckHeap : (mmCheckHeap P h).1 = .ok := by
  have hT : (clearError h).2.Thriving P L := hK.thriving.alike ⟨_, _, _, _⟩
  exact hT.checked

theorem live_cell (hw : h.lostBytes = 0) (hp : p ∈ live) :
    ∃ s b c, p = b + P.hdrSize ∧ h.CellIn L s b c ∧ c.kind = .live := by
  obtain ⟨s, b, c, hpb, hc, hk⟩ := hK.backing.backs p hp
  exact ⟨s, b, c, hpb, hc, hk.resolve_right (hK.thriving.not_lost hw hc)⟩

theorem blocks_apart (hw : h.lostBytes = 0) : (h.blocks P live).Apart := by
  intro p q bs cs hp hq hne
  obtain ⟨hmp, rfl⟩ := Heap.mem_of_blocks hp
  obtain ⟨hmq, rfl⟩ := Heap.mem_of_blocks hq
  have hS := hK.thriving.sound
  obtain ⟨s, b, c, rfl, hc, hk⟩ := hK.live_cell hw hmp
  obtain ⟨t, b', d, rfl, hd, hk'⟩ := hK.live_cell hw hmq
  rw [hS.held_eq hc hk, hS.held_eq hd hk', Memory.length_bytes, Memory.length_bytes, Cell.requested,
    Cell.requested]
  have hfit := (hS.tiled.plan.cell_fits hc).slack_le hk
  have hfit' := (hS.tiled.plan.cell_fits hd).slack_le hk'
  rcases hS.tiled.plan.apart hc hd with ⟨-, hb, -⟩ | hap
  · rw [hb] at hne
    exact absurd rfl hne
  · omega

theorem held_spares (hK' : h'.Kempt P L' live') (hw : h.lostBytes = 0) (hs : h.Spares P X L h' L')
    (hq : q ∈ live) (hX : ∀ t b c, q = b + P.hdrSize → h.CellIn L t b c → c.kind = .live → ¬ X b) :
    h'.held P q = h.held P q := by
  obtain ⟨t, b, c, rfl, hc, hk⟩ := hK.live_cell hw hq
  have hX' := hX t b c rfl hc hk
  have hc' : h'.CellIn L' t b c := (hs.cells t b c (Cell.used_of_ne (by rw [hk]; decide)) hX').mpr hc
  rw [hK'.thriving.sound.held_eq hc' hk, hK.thriving.sound.held_eq hc hk]
  refine Memory.bytes_eq_iff.mpr (Memory.load_congr fun a h₁ h₂ => ?_)
  obtain ⟨i, rfl⟩ := Nat.exists_eq_add_of_le h₁
  exact hs.bytes _ (hc.kept hk (hK.thriving.sound.tiled.plan.cell_fits hc) hX' (by omega))

end Heap.Kempt

end Mars
