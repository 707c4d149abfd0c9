import MarsAllocator.Properties.Simulation
import Mathlib.Algebra.BigOperators.Group.List.Basic
import Mathlib.Algebra.Group.Prod
import Mathlib.Algebra.Group.Nat.Defs

namespace Mars

open ByteMemory StateProgram

/-- What the live counters count of the block at `p`: a block, its extent, what was asked for. -/
def Heap.entry (P : Profile) (h : Heap) (p : Nat) : Nat × Nat × Nat :=
  (1, wordSize (h.word (p - P.hdrSize)), (sizeOfLive P p h).1)

/-- Every block in use is out, and the live counters count the blocks that are out. -/
structure Heap.Audited (P : Profile) (h : Heap) (L : Span → List Cell) (live : List Nat) : Prop where
  owned : ∀ s b c, h.CellIn L s b c → c.used = true → b + P.hdrSize ∈ live
  counted : h.stats.standing = (live.map (h.entry P)).sum

variable {P : Profile} {h h' : Heap} {s t : Span} {b b' n p q x : Nat} {c d : Cell} {call : Call} {r : Reply}
  {L L' : Span → List Cell} {X : Nat → Prop} {live live' : List Nat} {σ : Session} {α : Type}

theorem sum_erase {f : Nat → Nat × Nat × Nat} (hp : p ∈ live) :
    (live.map f).sum - f p = ((live.erase p).map f).sum := by
  rw [((List.perm_cons_erase hp).map f).sum_eq, List.map_cons, List.sum_cons]
  refine Prod.ext ?_ (Prod.ext ?_ ?_)
  · exact Nat.add_sub_cancel_left ..
  · exact Nat.add_sub_cancel_left ..
  · exact Nat.add_sub_cancel_left ..

theorem add_sum_erase {f : Nat → Nat × Nat × Nat} (hp : p ∈ live) (y : Nat × Nat × Nat) :
    (live.map f).sum + y - f p = ((live.erase p).map f).sum + y := by
  rw [((List.perm_cons_erase hp).map f).sum_eq, List.map_cons, List.sum_cons, add_assoc]
  refine Prod.ext ?_ (Prod.ext ?_ ?_)
  · exact Nat.add_sub_cancel_left ..
  · exact Nat.add_sub_cancel_left ..
  · exact Nat.add_sub_cancel_left ..

theorem Heap.Sound.entry_eq (hS : h.Sound P L) (hc : h.CellIn L s b c) (hk : c.kind = .live) :
    h.entry P (b + P.hdrSize) = (1, c.size, c.requested P) := by
  obtain ⟨u, -, hh⟩ := hS.tiled.cell hc
  rw [Heap.entry, Nat.add_sub_cancel, hh.word_eq, Cell.wordSize_word hh.fits, hS.sizeOfLive hc (.inl hk),
    if_pos hk]

namespace Heap.Kempt

variable (hK : h.Kempt P L live) (hw : h.lostBytes = 0)
include hK hw

theorem entry_spares (hS' : h'.Sound P L') (hs : h.Spares P X L h' L') (hq : q ∈ live)
    (hX : ∀ t b c, q = b + P.hdrSize → h.CellIn L t b c → c.kind = .live → ¬ X b) :
    h'.entry P q = h.entry P q := by
  obtain ⟨t, b, c, rfl, hc, hk⟩ := hK.live_cell hw hq
  have hc' := (hs.cells t b c (Cell.used_of_ne (by rw [hk]; decide)) (hX t b c rfl hc hk)).mpr hc
  rw [hS'.entry_eq hc' hk, hK.thriving.sound.entry_eq hc hk]

end Heap.Kempt

namespace Heap.Audited

variable (ha : h.Audited P L live)
include ha

theorem spares (hs : h.Spares P (fun _ => False) L h' L') (hst : h'.stats.standing = h.stats.standing)
    (he : ∀ q ∈ live, h'.entry P q = h.entry P q) : h'.Audited P L' live := by
  refine ⟨fun s b c hc hu => ha.owned s b c ((hs.cells s b c hu id).mp hc) hu, ?_⟩
  rw [hst, ha.counted, List.map_congr_left he]

theorem erase (hs : h.Spares P (· = b) L h' L') (hp : p = b + P.hdrSize) (hmem : p ∈ live)
    (hnodup : live.Nodup) (hgone : ∀ t d, h'.CellIn L' t b d → d.kind = .free)
    (hst : h'.stats.standing = h.stats.standing - h.entry P p)
    (he : ∀ q ∈ live.erase p, h'.entry P q = h.entry P q) : h'.Audited P L' (live.erase p) := by
  refine ⟨fun t x d hd hu => ?_, ?_⟩
  · have hx : x ≠ b := fun hx => Cell.used_iff.mp hu (hgone t d (hx ▸ hd))
    have hold := ha.owned t x d ((hs.cells t x d hu hx).mp hd) hu
    exact (List.Nodup.mem_erase_iff hnodup).mpr ⟨by omega, hold⟩
  · rw [hst, ha.counted, sum_erase hmem, List.map_congr_left he]

theorem cons (hs : h.Spares P (· = b) L h' L')
    (hst : h'.stats.standing = h.stats.standing + h'.entry P (b + P.hdrSize))
    (he : ∀ q ∈ live, h'.entry P q = h.entry P q) : h'.Audited P L' ((b + P.hdrSize) :: live) := by
  refine ⟨fun t x d hd hu => ?_, ?_⟩
  · by_cases hx : x = b
    · rw [hx]
      exact List.mem_cons_self
    · exact List.mem_cons_of_mem _ (ha.owned t x d ((hs.cells t x d hu hx).mp hd) hu)
  · rw [List.map_cons, List.sum_cons, hst, ha.counted, List.map_congr_left he]
    exact add_comm _ _

theorem moved (hs : h.Spares P (fun x => x = b ∨ x = b') L h' L') (hp : p = b + P.hdrSize)
    (hnodup : live.Nodup) (hgone : b ≠ b' → ∀ t d, h'.CellIn L' t b d → d.kind = .free)
    (hst : h'.stats.standing = ((live.erase p).map (h.entry P)).sum + h'.entry P (b' + P.hdrSize))
    (he : ∀ q ∈ live.erase p, h'.entry P q = h.entry P q) :
    h'.Audited P L' ((b' + P.hdrSize) :: live.erase p) := by
  refine ⟨fun t x d hd hu => ?_, ?_⟩
  · by_cases hx' : x = b'
    · rw [hx']
      exact List.mem_cons_self
    have hx : x ≠ b := fun hx => Cell.used_iff.mp hu
      (hgone (fun hb => hx' (hx.trans hb)) t d (hx ▸ hd))
    have hold := ha.owned t x d ((hs.cells t x d hu (not_or.mpr ⟨hx, hx'⟩)).mp hd) hu
    exact List.mem_cons_of_mem _ ((List.Nodup.mem_erase_iff hnodup).mpr ⟨by omega, hold⟩)
  · rw [List.map_cons, List.sum_cons, hst, List.map_congr_left he]
    exact add_comm _ _

end Heap.Audited

namespace Heap.Effect

variable (hK : h.Kempt P L live) (hw : h.lostBytes = 0) (hw' : h'.lostBytes = 0)
include hK hw hw'

theorem audited (he : h.Effect P L call r h' L') (hK' : h'.Kempt P L' (call.liveAfter live r))
    (hv : call.okFor live = true) (hok : call = .checkHeap → r = .status .ok)
    (ha : h.Audited P L live) : h'.Audited P L' (call.liveAfter live r) := by
  have hS := hK.thriving.sound
  have hS' := hK'.thriving.sound
  have hp := P.sizes
  have hnodup := hK.backing.nodup
  have hkept : h.Spares P (fun _ => False) L h' L' → ∀ q ∈ live, h'.entry P q = h.entry P q :=
    fun hs q hq => hK.entry_spares hw hS' hs hq fun _ _ _ _ _ _ hx => hx
  have hsame : (∀ x, h'.spans = h.spans ∧ h'.mem.byte x = h.mem.byte x) → L' = L →
      h.Spares P (fun _ => False) L h' L' := by
    rintro hm rfl
    exact ⟨fun t x d _ _ => by rw [Heap.CellIn, (hm 0).1]; rfl, fun x _ => (hm x).2⟩
  have hrest : ∀ {p x q : Nat}, p = x + P.hdrSize → h.Spares P (· = x) L h' L' → q ∈ live.erase p →
      h'.entry P q = h.entry P q := fun hpx hs hq =>
    hK.entry_spares hw hS' hs (List.mem_of_mem_erase hq) fun _ z _ hz _ _ hzx => by
      rw [hz, hzx, ← hpx] at hq
      exact hnodup.not_mem_erase hq
  cases he with
  | stayed _ hq hs =>
    rw [(hq.tells hK hw hv hok).1]
    exact ha.spares hs.spares hs.counts (hkept hs.spares)
  | alike _ hq hal hst =>
    have hsp : h.Spares P (fun _ => False) L h' L :=
      hsame (fun x => ⟨hal.spans, by obtain ⟨_, _, _, _⟩ := hal; rfl⟩) rfl
    rw [(hq.tells hK hw hv hok).1]
    rcases hst with hst | ⟨s, b, d, hd, hk⟩
    · exact ha.spares hsp (congrArg Stats.standing hst) (hkept hsp)
    · exact absurd hk (hK.thriving.not_lost hw hd)
  | tuned => exact ha.spares (hsame (fun _ => ⟨rfl, rfl⟩) rfl) rfl (hkept (hsame (fun _ => ⟨rfl, rfl⟩) rfl))
  | remoded => exact ha.spares (hsame (fun _ => ⟨rfl, rfl⟩) rfl) rfl (hkept (hsame (fun _ => ⟨rfl, rfl⟩) rfl))
  | @forgot mode _ _ hf =>
    refine ⟨fun t x d hd hu => ?_, ?_⟩
    · obtain ⟨ht, hat⟩ := hd
      rw [hf.work.kin.spans] at ht
      rw [hf.cells, if_pos ht, at_unsummed] at hat
      obtain ⟨e, he, rfl⟩ := hat
      exact ha.owned t x e ⟨ht, he⟩ hu
    · rw [hf.work.stats]
      refine ha.counted.trans (congrArg List.sum (List.map_congr_left fun q hq => ?_))
      obtain ⟨t, x, d, rfl, hd, hk⟩ := hK.live_cell hw hq
      have hd' : h'.CellIn L' t x d.unsummed := Heap.Forgot.cell (h := { h with mode := mode }) hf hd
      rw [hS.entry_eq hd hk, hS'.entry_eq hd' hk]
      rfl
  | @issued _ t x n d _ _ hn hi hal hz =>
    obtain ⟨hlive, -⟩ := Call.asked (p := x + P.hdrSize) hn
      (List.erase_of_not_mem fun h' => hK.backing.ne_zero h' rfl)
    rw [hlive, if_neg (by omega)]
    refine ha.cons hi.spares ?_ fun q hq => hK.entry_spares hw hS' hi.spares hq fun u y e _ he hk hyx => ?_
    · rw [hi.counts, hS'.entry_eq hi.cell hi.live]
    · have hfree := hi.vacant u e (hyx ▸ he)
      rw [hk] at hfree
      exact absurd hfree (by decide)
  | @freed ptr t x d _ _ hpx hd hk hr =>
    have hmem := (toNat_of_okFor hv).resolve_left (by omega)
    refine ha.erase hr.spares hpx hmem hnodup hr.gone ?_ fun q hq => hrest hpx hr.spares hq
    rw [hr.counts, hpx, hS.entry_eq hd hk]
  | @emptied ptr size t x d _ _ hpx hz hd hk hr =>
    have hmem := (toNat_of_okFor hv).resolve_left (by omega)
    rw [Call.liveAfter, if_neg (not_not.mpr rfl), if_pos hz]
    refine ha.erase hr.spares hpx hmem hnodup hr.gone ?_ fun q hq => hrest hpx hr.spares hq
    rw [hr.counts, hpx, hS.entry_eq hd hk]
  | @resized ptr size t x d d' _ _ hpx hz hd hk hcourse hr =>
    have hmem := (toNat_of_okFor hv).resolve_left (by omega)
    have hlive : (Call.realloc ptr size).liveAfter live (.pointer (x + P.hdrSize)) =
        (x + P.hdrSize) :: live.erase ptr.toNat := if_pos (by omega)
    rw [hlive]
    refine ha.moved (hr.spares.mono fun _ => .inl) hpx hnodup (fun hne => absurd rfl hne) ?_
      fun q hq => hrest hpx hr.spares hq
    rw [hr.counts, ha.counted, ← sum_erase hmem, hpx, hS.entry_eq hd hk, hS'.entry_eq hr.cell hr.live]
  | @shifted ptr size t u x y d d' _ _ hpx hz hd hk hm =>
    have hmem := (toNat_of_okFor hv).resolve_left (by omega)
    have hlive : (Call.realloc ptr size).liveAfter live (.pointer (y + P.hdrSize)) =
        (y + P.hdrSize) :: live.erase ptr.toNat := if_pos (by omega)
    rw [hlive]
    refine ha.moved hm.spares hpx hnodup (fun _ => hm.gone) ?_ fun q hq =>
      hK.entry_spares hw hS' hm.spares (List.mem_of_mem_erase hq) fun v z e hz' he hke hx => ?_
    · rw [hm.counts, ha.counted, ← add_sum_erase hmem, hpx, hS.entry_eq hd hk, hS'.entry_eq hm.cell hm.live]
    · rcases hx with hx | hx
      · rw [hz', hx, ← hpx] at hq
        exact hnodup.not_mem_erase hq
      · have hfree := hm.vacant v e (hx ▸ he)
        rw [hke] at hfree
        exact absurd hfree (by decide)
  | @surrendered _ _ _ _ t x d _ _ hpx hd hk hbad hs =>
    have hlost := hs.served.lostBytes
    change _ = h.lostBytes + d.size at hlost
    have := (hS.tiled.plan.cell_fits hd).pos
    omega
  | @written ptr off src bs t x d _ _ hpx hd hk hsrc hin hwr =>
    obtain ⟨v, hv'⟩ := hwr.cell
    have hkv : (d.summed v).kind = .live := hk
    change h'.Audited P L' live
    refine ⟨fun u y e he hu => ?_, ?_⟩
    · by_cases hy : y = x
      · rw [hy, ← hpx]
        exact List.contains_iff_mem.mp hv
      · exact ha.owned u y e ((hwr.spares.cells u y e hu hy).mp he) hu
    · rw [hwr.counts]
      refine ha.counted.trans (congrArg List.sum (List.map_congr_left fun q hq => ?_))
      by_cases hqx : q = x + P.hdrSize
      · rw [hqx, hS.entry_eq hd hk, hS'.entry_eq hv' hkv]
        rfl
      · exact (hK.entry_spares hw hS' hwr.spares hq fun _ z _ hz _ _ hzx => hqx (hz.trans (by rw [hzx]))).symm

end Heap.Effect

end Mars
