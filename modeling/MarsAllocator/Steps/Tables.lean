import MarsAllocator.Model.Lookups
import MarsAllocator.Properties.RegistryMap

namespace Mars

open LinearProbe

/-- A probe for `u` walks past `d` slots and comes to its entry. -/
structure Index.LeadsAt (ix : Index) (u s d : Nat) : Prop where
  lt : d < ix.cap
  entry : ix.slot ((slotFor u ix.cap + d) % ix.cap) = ⟨u, s⟩
  real : RealSpan s
  passed : ∀ e < d, (ix.slot ((slotFor u ix.cap + e) % ix.cap)).stops u = false

def Index.Leads (ix : Index) (u s : Nat) : Prop := ∃ d, ix.LeadsAt u s d

theorem Index.Good.leads {ix : Index} {u s : Nat} (hg : ix.Good) (hf : ix.Files u s) :
    ix.Leads u s := by
  obtain ⟨j, hj, hl⟩ := hf
  have hsearch := hg.sound.find hj hl
  obtain ⟨d, hd, rfl, -, hpassed⟩ := search_some hg.slotFor_lt hsearch
  obtain ⟨he, hs⟩ := view_live.mp hl
  exact ⟨d, hd, he, hs, fun e hlt => (view_stops u _).symm.trans (hpassed e hlt)⟩

theorem unitSlot_eq {x : UnitSlot} {u s : Nat} (hu : x.unit = u) (hs : x.span = s) : x = ⟨u, s⟩ := by
  subst hu hs
  rfl

section Terms

variable (reg : List (Nat × Descriptor)) (past : List Descriptor)

/-- Every registered span can be found in the table. -/
def Served (ix : Index) : Prop := ∀ x ∈ reg, ∀ u, x.2.HasUnit u → ix.Leads u x.1

/-- Entries are appended, or marked as deleted when their span is not registered; a table is complete
when it is published. -/
def Shared.Allows (σ : Shared) : Write → Prop
  | .unit t i _ => ((σ.table t).slot i).span = 0
  | .span t i s =>
      ((σ.table t).slot i).span = 0 ∧ s ≠ 0 ∧
          (∃ d ∈ past, d.HasUnit ((σ.table t).slot i).unit) ∨
        ((σ.table t).slot i).span ≠ 0 ∧ s = unitTomb ∧
          ∀ x ∈ reg, x.1 ≠ ((σ.table t).slot i).span
  | .map cap => ∃ k, cap = 2 ^ k
  | .publish t => t < σ.mapped ∧ Served reg (σ.table t)
  | .counts _ _ | .refused => True

def Shared.Steady : Shared → List Write → Prop
  | _, [] => True
  | σ, w :: ws => σ.Allows reg past w ∧ Shared.Steady (σ.write w) ws

end Terms

namespace Shared

variable {reg : List (Nat × Descriptor)} {past : List Descriptor} {σ : Shared} {ws ws' : List Write}
  {t u s : Nat}

theorem run_append : σ.run (ws ++ ws') = (σ.run ws).run ws' := List.foldl_append

theorem steady_append : Steady reg past σ (ws ++ ws') ↔
    Steady reg past σ ws ∧ Steady reg past (σ.run ws) ws' := by
  induction ws generalizing σ with
  | nil => exact ⟨fun h => ⟨trivial, h⟩, fun h => h.2⟩
  | cons w ws ih =>
    rw [List.cons_append, Steady, Steady, ih, and_assoc]
    rfl

/-- What holds of the tables between any two stores. -/
structure Whole (reg : List (Nat × Descriptor)) (past : List Descriptor) (σ : Shared) : Prop where
  pow : ∀ t, ∃ k, (σ.table t).cap = 2 ^ k
  current : σ.current < σ.mapped
  served : Served reg (σ.table σ.current)
  filed : ∀ t i, ((σ.table t).slot i).span ≠ 0 → ∃ d ∈ past, d.HasUnit ((σ.table t).slot i).unit

theorem table_setSlot (σ : Shared) (t i t' : Nat) (x : UnitSlot) :
    (σ.setSlot t i x).table t' = if t' = t then (σ.table t).set i x else σ.table t' := by
  by_cases h : t' = t
  · subst h
    simp [setSlot]
  · simp [setSlot, h]

theorem slot_set (ix : Index) (i j : Nat) (x : UnitSlot) :
    (ix.set i x).slot j = if j = i then x else ix.slot j := by
  by_cases h : j = i
  · subst h
    simp [Index.set]
  · simp [Index.set, h]

theorem slot_setSlot (σ : Shared) (t i t' j : Nat) (x : UnitSlot) :
    ((σ.setSlot t i x).table t').slot j = if t' = t ∧ j = i then x else (σ.table t').slot j := by
  rw [table_setSlot]
  by_cases h : t' = t
  · subst h
    simp [slot_set]
  · simp [h]

theorem cap_setSlot (σ : Shared) (t i t' : Nat) (x : UnitSlot) :
    ((σ.setSlot t i x).table t').cap = (σ.table t').cap := by
  rw [table_setSlot]
  split
  · rename_i h
    rw [h]
    rfl
  · rfl

theorem Allows.slot {w : Write} (hw : σ.Allows reg past w) {t j : Nat} (ht : t < σ.mapped) :
    ((σ.write w).table t).cap = (σ.table t).cap ∧
    (((σ.table t).slot j).span ≠ 0 →
      (((σ.write w).table t).slot j).unit = ((σ.table t).slot j).unit ∧
      ((((σ.write w).table t).slot j).span = ((σ.table t).slot j).span ∨
        (((σ.write w).table t).slot j).span = unitTomb ∧
          ∀ x ∈ reg, x.1 ≠ ((σ.table t).slot j).span)) := by
  cases w with
  | unit t' i v =>
    refine ⟨cap_setSlot _ _ _ _ _, fun hne => ?_⟩
    have hother : ¬ (t = t' ∧ j = i) := by
      rintro ⟨rfl, rfl⟩
      exact hne hw
    simp only [write, slot_setSlot, if_neg hother]
    exact ⟨trivial, .inl trivial⟩
  | span t' i v =>
    refine ⟨cap_setSlot _ _ _ _ _, fun hne => ?_⟩
    by_cases hsame : t = t' ∧ j = i
    · obtain ⟨rfl, rfl⟩ := hsame
      rcases hw with ⟨h0, _⟩ | ⟨_, htomb, hreg⟩
      · exact absurd h0 hne
      · simp only [write, slot_setSlot, and_self, if_true]
        exact ⟨trivial, .inr ⟨htomb, hreg⟩⟩
    · simp only [write, slot_setSlot, if_neg hsame]
      exact ⟨trivial, .inl trivial⟩
  | map cap =>
    have hne : t ≠ σ.mapped := by omega
    simp only [write, Function.update_of_ne hne]
    exact ⟨trivial, fun _ => ⟨trivial, .inl trivial⟩⟩
  | counts a b | refused | publish t' => exact ⟨rfl, fun _ => ⟨rfl, .inl rfl⟩⟩

theorem Allows.leadsAt {w : Write} (hw : σ.Allows reg past w) (ht : t < σ.mapped)
    {x : Nat × Descriptor} (hx : x ∈ reg) {d : Nat} (h : (σ.table t).LeadsAt u x.1 d) :
    ((σ.write w).table t).LeadsAt u x.1 d := by
  have hcap := (hw.slot ht (j := 0)).1
  have hkeep := fun j => (hw.slot ht (j := j)).2
  refine ⟨by rw [hcap]; exact h.lt, ?_, h.real, fun e he => ?_⟩
  · rw [hcap]
    have hentry := h.entry
    obtain ⟨hunit, hspan⟩ := hkeep ((slotFor u (σ.table t).cap + d) % (σ.table t).cap)
      (by rw [hentry]; exact h.real.1)
    rw [hentry] at hunit hspan
    rcases hspan with hspan | ⟨_, hno⟩
    · exact unitSlot_eq hunit hspan
    · exact absurd rfl (hno x hx)
  · rw [hcap]
    have hpassed := h.passed e he
    rw [UnitSlot.stops, Bool.or_eq_false_iff, beq_eq_false_iff_ne, Bool.and_eq_false_iff] at hpassed ⊢
    obtain ⟨hunit, hspan⟩ := hkeep _ hpassed.1
    rw [hunit]
    rcases hspan with hspan | ⟨htomb, _⟩
    · rw [hspan]
      exact hpassed
    · rw [htomb]
      exact ⟨by decide, .inl (by simp)⟩

theorem Whole.write (h : σ.Whole reg past) {w : Write} (hw : σ.Allows reg past w) :
    (σ.write w).Whole reg past := by
  have hserved : Served reg ((σ.write w).table σ.current) := by
    intro x hx u hu
    obtain ⟨d, hd⟩ := h.served x hx u hu
    exact ⟨d, hw.leadsAt h.current hx hd⟩
  cases w with
  | unit t' i v =>
    refine ⟨fun t => ?_, h.current, hserved, fun t j hne => ?_⟩
    · obtain ⟨k, hk⟩ := h.pow t
      exact ⟨k, (cap_setSlot _ _ _ _ _).trans hk⟩
    · simp only [Shared.write, slot_setSlot] at hne ⊢
      split
      · rename_i hsame
        rw [if_pos hsame] at hne
        exact absurd hw hne
      · rename_i hother
        rw [if_neg hother] at hne
        exact h.filed t j hne
  | span t' i v =>
    refine ⟨fun t => ?_, h.current, hserved, fun t j hne => ?_⟩
    · obtain ⟨k, hk⟩ := h.pow t
      exact ⟨k, (cap_setSlot _ _ _ _ _).trans hk⟩
    · simp only [Shared.write, slot_setSlot] at hne ⊢
      split
      · rcases hw with ⟨_, _, hd⟩ | ⟨hold, _⟩
        · exact hd
        · exact h.filed _ _ hold
      · rename_i hother
        rw [if_neg hother] at hne
        exact h.filed t j hne
  | map cap =>
    refine ⟨fun t => ?_, Nat.lt_succ_of_lt h.current, hserved, fun t j hne => ?_⟩
    · by_cases ht : t = σ.mapped
      · subst ht
        simp only [Shared.write, Function.update_self]
        exact hw
      · simpa only [Shared.write, Function.update_of_ne ht] using h.pow t
    · by_cases ht : t = σ.mapped
      · subst ht
        simp [Shared.write, Index.blank] at hne
      · simp only [Shared.write, Function.update_of_ne ht] at hne ⊢
        exact h.filed t j hne
  | publish t' => exact ⟨h.pow, hw.1, hw.2, h.filed⟩
  | counts a b | refused => exact ⟨h.pow, h.current, h.served, h.filed⟩

theorem Whole.run (h : σ.Whole reg past) (hs : Steady reg past σ ws) :
    (σ.run ws).Whole reg past := by
  induction ws generalizing σ with
  | nil => exact h
  | cons w ws ih => exact ih (h.write hs.1) hs.2

theorem setSlot_setSlot (σ : Shared) (t i : Nat) (x y : UnitSlot) :
    (σ.setSlot t i x).setSlot t i y = σ.setSlot t i y := by
  have hset : ((σ.table t).set i x).set i y = (σ.table t).set i y := by
    simp [Index.set]
  rw [setSlot, table_setSlot, if_pos rfl, hset, setSlot, setSlot]
  simp

variable (reg past) in
theorem putWrites_spec (hg : (σ.table t).Good) (hroom : (σ.table t).filled < (σ.table t).cap)
    (hs : s ≠ 0) (hno : ∀ x, ¬ (σ.table t).Files u x) (hpast : ∃ d ∈ past, d.HasUnit u)
    {ix : Index} (hput : indexPut (σ.table t) u s = some ix) :
    ∃ ws, σ.putWrites t u s = some ws ∧ σ.run ws = { σ with table := Function.update σ.table t ix } ∧
      Steady reg past σ ws := by
  obtain ⟨i, hi⟩ := Option.isSome_iff_exists.mp (hg.probe_isSome hroom u)
  have hspan := hg.probe_vacant hno hi
  rw [indexPut, hi, Option.map_some, if_pos hspan] at hput
  obtain rfl := Option.some.inj hput
  refine ⟨[.unit t i u, .span t i s], by rw [putWrites, hi, Option.map_some, if_pos hspan], ?_,
    hspan, .inl ?_, trivial⟩
  · change (σ.setSlot t i { (σ.table t).slot i with unit := u }).setSlot t i
      { ((σ.setSlot t i { (σ.table t).slot i with unit := u }).table t).slot i with span := s } = _
    rw [setSlot_setSlot, slot_setSlot, if_pos ⟨rfl, rfl⟩]
    rfl
  · simp only [write, slot_setSlot, and_self, if_true]
    exact ⟨hspan, hs, hpast⟩

variable (reg past) in
theorem delWrites_spec (hg : (σ.table σ.current).Good)
    (hgone : ∀ x, (σ.table σ.current).Files u x → ∀ y ∈ reg, y.1 ≠ x) :
    (σ.run (σ.delWrites u)).registry = σ.registry.indexDel u ∧
      Steady reg past σ (σ.delWrites u) := by
  cases hp : (σ.table σ.current).probe u with
  | none =>
    have hr : σ.registry.index.probe u = none := hp
    rw [delWrites, hp, Registry.indexDel, hr]
    exact ⟨rfl, trivial⟩
  | some i =>
    have hr : σ.registry.index.probe u = some i := hp
    rw [delWrites, hp, Registry.indexDel, hr]
    change (σ.run (if ((σ.table σ.current).slot i).span = 0 then [] else _)).registry =
      (if ((σ.table σ.current).slot i).span = 0 then σ.registry else _) ∧
        Steady reg past σ (if ((σ.table σ.current).slot i).span = 0 then [] else _)
    split
    · exact ⟨rfl, trivial⟩
    · rename_i hne
      refine ⟨?_, .inr ⟨hne, rfl, hgone _ (hg.probe_found hp hne)⟩, trivial, trivial⟩
      simp [run, write, setSlot, registry]

variable (reg past) in
theorem copyWrites_spec {left : Nat} (hne : t ≠ σ.current) (ho : (σ.table σ.current).Good)
    (hle : left ≤ (σ.table σ.current).cap)
    (hc : (σ.table σ.current).Copied ((σ.table σ.current).cap - left) (σ.table t))
    (hroom : (σ.table σ.current).entries < (σ.table t).cap)
    (hfiled : ∀ i, ((σ.table σ.current).slot i).span ≠ 0 →
      ∃ d ∈ past, d.HasUnit ((σ.table σ.current).slot i).unit) :
    ∃ ws ix, copyWrites t left σ = some ws ∧
      rehashFrom (σ.table σ.current) left (σ.table t) = some ix ∧
      σ.run ws = { σ with table := Function.update σ.table t ix } ∧ Steady reg past σ ws := by
  induction left generalizing σ with
  | zero => exact ⟨[], σ.table t, rfl, rfl, by simp [run], trivial⟩
  | succ left ih =>
    have hfill : (σ.table t).filled < (σ.table t).cap := by
      have : count ((σ.table σ.current).cap - (left + 1)) Slot.isLive (σ.table σ.current).view ≤
          count (σ.table σ.current).cap Slot.isLive (σ.table σ.current).view :=
        count_prefix (Nat.sub_le (σ.table σ.current).cap (left + 1))
      have hentries : (σ.table σ.current).entries =
        count (σ.table σ.current).cap Slot.isLive (σ.table σ.current).view := rfl
      rw [hc.filled]
      omega
    have hn : (σ.table σ.current).cap - (left + 1) < (σ.table σ.current).cap := by omega
    obtain ⟨ix₁, hstep, hc₁, hcap₁⟩ := hc.step ho hn hfill
    rw [show (σ.table σ.current).cap - (left + 1) + 1 = (σ.table σ.current).cap - left by omega] at hc₁
    rw [copyWrites, rehashFrom]
    by_cases hl : RealSpan ((σ.table σ.current).slot ((σ.table σ.current).cap - (left + 1))).span
    · have hcond := hl
      rw [RealSpan] at hcond
      rw [if_pos hcond] at hstep
      obtain ⟨ws, hput, hrun, hsteady⟩ := putWrites_spec reg past hc.good hfill
        hl.1 (hc.vacant ho hn hl) (hfiled _ hl.1) hstep
      have hold : (σ.run ws).table (σ.run ws).current = σ.table σ.current := by
        rw [hrun]
        exact Function.update_of_ne hne.symm _ _
      have hnew : (σ.run ws).table t = ix₁ := by
        rw [hrun]
        exact Function.update_self _ _ _
      have hcur : (σ.run ws).current = σ.current := by rw [hrun]
      obtain ⟨ws', ix, hcopy, hre, hrun', hsteady'⟩ := ih (σ := σ.run ws) (by rw [hcur]; exact hne)
        (by rw [hold]; exact ho) (by rw [hold]; omega) (by rw [hold, hnew]; exact hc₁)
        (by rw [hold, hnew, hcap₁]; exact hroom) (by rw [hold]; exact hfiled)
      rw [hold, hnew] at hre
      refine ⟨ws ++ ws', ix, ?_, ?_, ?_, steady_append.mpr ⟨hsteady, hsteady'⟩⟩
      · simp only [if_pos hcond, hput, Option.bind_some, hcopy, Option.map_some]
      · simp only [if_pos hcond, hstep, Option.bind_some, hre]
      · rw [run_append, hrun', hrun]
        simp
    · have hcond := hl
      rw [RealSpan] at hcond
      rw [if_neg hcond] at hstep
      obtain rfl := Option.some.inj hstep
      simp only [if_neg hcond]
      exact ih hne ho (by omega) hc₁ hroom hfiled

/-- The registered spans are filed in the published table. -/
def Lists (reg : List (Nat × Descriptor)) (r : Registry) : Prop :=
  ∀ x ∈ reg, ∀ u, x.2.HasUnit u → r.index.Files u x.1

theorem rehashWrites_spec (hk : σ.registry.Kept) (hw : σ.Whole reg past)
    (hl : Lists reg σ.registry) : ∃ ws ok, σ.rehashWrites = some (ws, ok) ∧
      σ.registry.indexRehash = some ((σ.run ws).registry, ok) ∧ Steady reg past σ ws := by
  rw [rehashWrites, Registry.indexRehash]
  have hsupply : σ.registry.supply = σ.supply := rfl
  rw [hsupply]
  rcases hs : σ.supply with _ | ⟨answer, rest⟩
  · exact ⟨[], false, rfl, rfl, trivial⟩
  cases answer with
  | false =>
    refine ⟨[.refused], false, rfl, ?_, trivial, trivial⟩
    simp [run, write, registry, hs]
  | true =>
    obtain ⟨⟨k, hcap⟩, hlarge⟩ := rehashCap_spec σ.live
    have hne : σ.mapped ≠ σ.current := by
      have := hw.current
      omega
    have hold : (σ.write (.map (rehashCap σ.live))).table
        (σ.write (.map (rehashCap σ.live))).current = σ.table σ.current :=
      Function.update_of_ne hne.symm _ _
    have hnew : (σ.write (.map (rehashCap σ.live))).table σ.mapped =
        Index.blank (rehashCap σ.live) := Function.update_self _ _ _
    have hgood : (σ.table σ.current).Good := hk.good
    have hstart : (σ.table σ.current).Copied ((σ.table σ.current).cap - (σ.table σ.current).cap)
        (Index.blank (rehashCap σ.live)) := by
      rw [Nat.sub_self]
      refine ⟨Index.good_blank hcap, fun u x => ?_, Index.count_blank _ _ _ rfl,
        Index.count_blank _ _ _ rfl⟩
      exact iff_of_false (Index.blank_files _) (by simp)
    have hentries : (σ.table σ.current).entries < rehashCap σ.live := by
      have hlive : (σ.table σ.current).entries = σ.live := hk.live
      omega
    obtain ⟨ws, ix, hcopy, hre, hrun, hsteady⟩ := copyWrites_spec reg past
      (σ := σ.write (.map (rehashCap σ.live))) (t := σ.mapped)
      hne (by rw [hold]; exact hgood) (show (σ.table σ.current).cap ≤ _ by rw [hold])
      (by rw [hold, hnew]; exact hstart) (by rw [hold, hnew]; exact hentries)
      (by rw [hold]; exact hw.filed σ.current)
    rw [hold, hnew] at hre
    obtain ⟨ix', hre', hc, -⟩ := rehashFrom_spec hgood (le_refl _) hstart hentries
    obtain rfl := Option.some.inj (hre.symm.trans hre')
    refine ⟨.map (rehashCap σ.live) :: ws ++ [.publish σ.mapped, .counts σ.live σ.live], true,
      ?_, ?_, ?_⟩
    · simp only [hcopy, Option.map_some]
    · change Option.map _ (rehashFrom (σ.table σ.current) (σ.table σ.current).cap
        (Index.blank (rehashCap σ.live))) = _
      rw [hre, Option.map_some, List.cons_append]
      change _ = some (((σ.write (.map (rehashCap σ.live))).run
        (ws ++ [.publish σ.mapped, .counts σ.live σ.live])).registry, true)
      rw [run_append, hrun]
      simp [run, write, registry, hs]
    · rw [List.cons_append]
      refine ⟨⟨k, hcap⟩, steady_append.mpr ⟨hsteady, ?_, trivial, trivial⟩⟩
      rw [hrun]
      refine ⟨Nat.lt_succ_self _, ?_⟩
      simp only [Function.update_self]
      exact fun x hx u hu => hc.good.leads ((hc.files u x.1).mpr (hl x hx u hu))

theorem addWrites_spec (hk : σ.registry.Kept) (hw : σ.Whole reg past) (hl : Lists reg σ.registry)
    (hs : RealSpan s) (hno : ∀ x, ¬ σ.registry.index.Files u x) (hpast : ∃ d ∈ past, d.HasUnit u) :
    ∃ ws ok, σ.addWrites u s = some (ws, ok) ∧
      σ.registry.indexAdd u s = some ((σ.run ws).registry, ok) ∧ Steady reg past σ ws := by
  have hreserve : ∃ ws ok, σ.reserveWrites = some (ws, ok) ∧
      σ.registry.indexReserve = some ((σ.run ws).registry, ok) ∧ Steady reg past σ ws := by
    rw [reserveWrites, Registry.indexReserve]
    change ∃ ws ok, _ ∧ (if (σ.table σ.current).cap ≤ (σ.used + 1) * 2 then _ else _) = _ ∧ _
    split
    · exact rehashWrites_spec hk hw hl
    · exact ⟨[], true, rfl, rfl, trivial⟩
  obtain ⟨ws, ok, hres, hseq, hsteady⟩ := hreserve
  obtain ⟨r₁, ok₁, hseq₁, hk₁, -, hf₁, -⟩ := Registry.indexReserve_spec hk
  obtain ⟨rfl, rfl⟩ := Prod.mk.inj (Option.some.inj (hseq.symm.trans hseq₁))
  rw [addWrites, hres, Registry.indexAdd, hseq, Option.bind_some, Option.bind_some]
  cases ok with
  | false => exact ⟨ws, false, rfl, rfl, hsteady⟩
  | true =>
    have hno₁ : ∀ x, ¬ (σ.run ws).registry.index.Files u x := fun x hx => hno x ((hf₁ u x).mp hx)
    obtain ⟨ix, hput, -⟩ := hk₁.good.put hk₁.filled_lt hs hno₁
    obtain ⟨ws', hput', hrun, hsteady'⟩ := putWrites_spec reg past
      (σ := σ.run ws) (t := (σ.run ws).current) hk₁.good hk₁.filled_lt hs.1 hno₁ hpast hput
    refine ⟨ws ++ ws' ++ [.counts ((σ.run ws).used + 1) ((σ.run ws).live + 1)], true, ?_, ?_, ?_⟩
    · simp only [if_true, hput', Option.map_some]
    · simp only [if_true, hput, Option.map_some]
      rw [run_append, run_append, hrun]
      simp [run, write, registry]
    · exact steady_append.mpr ⟨steady_append.mpr ⟨hsteady, hsteady'⟩, trivial, trivial⟩

variable (reg past) in
theorem delUnitsWrites_spec (left v : Nat) (hk : σ.registry.Kept)
    (hgone : ∀ u, v ≤ u → u < v + left → ∀ x, σ.registry.index.Files u x → ∀ y ∈ reg, y.1 ≠ x) :
    (σ.run (delUnitsWrites left v σ)).registry = Registry.delUnits left v σ.registry ∧
      Steady reg past σ (delUnitsWrites left v σ) := by
  induction left generalizing v σ with
  | zero => exact ⟨rfl, trivial⟩
  | succ left ih =>
    obtain ⟨hreg, hsteady⟩ := delWrites_spec reg past (u := v) hk.good
      (hgone v le_rfl (by omega))
    obtain ⟨hk₁, -, hf₁⟩ := Registry.indexDel_spec hk v
    obtain ⟨hreg', hsteady'⟩ := ih (v := v + 1) (σ := σ.run (σ.delWrites v))
      (by rw [hreg]; exact hk₁) (by
        rw [hreg]
        intro u h₁ h₂ x hx
        exact hgone u (by omega) (by omega) x ((hf₁ u x).mp hx).2)
    rw [delUnitsWrites, Registry.delUnits]
    refine ⟨?_, steady_append.mpr ⟨hsteady, hsteady'⟩⟩
    rw [run_append, hreg', hreg]

theorem addUnitsWrites_spec (r₀ : Registry) (first left : Nat) (hs : RealSpan s)
    (hnew : ∀ y ∈ reg, y.1 ≠ s)
    (hno : ∀ u', first ≤ u' → u' < u + left → ∀ x, ¬ r₀.index.Files u' x)
    (hpast : ∀ u', first ≤ u' → u' < u + left → ∃ d ∈ past, d.HasUnit u') (hu : first ≤ u)
    (hk : σ.registry.Kept) (hw : σ.Whole reg past) (hl : Lists reg σ.registry)
    (hf : ∀ u' x, σ.registry.index.Files u' x ↔
      (first ≤ u' ∧ u' < u ∧ x = s) ∨ r₀.index.Files u' x) :
    ∃ ws ok, addUnitsWrites s first left u σ = some (ws, ok) ∧
      Registry.addUnits s first left u σ.registry = some ((σ.run ws).registry, ok) ∧
      Steady reg past σ ws := by
  induction left generalizing u σ with
  | zero => exact ⟨[], true, rfl, rfl, trivial⟩
  | succ left ih =>
    have hfree : ∀ x, ¬ σ.registry.index.Files u x := by
      intro x hx
      rcases (hf u x).mp hx with hx | hx
      · omega
      · exact hno u hu (by omega) x hx
    obtain ⟨ws, ok, hadd, hseq, hsteady⟩ := addWrites_spec hk hw hl hs hfree
      (hpast u hu (by omega))
    obtain ⟨r₁, ok₁, hseq₁, hk₁, -, hf₁⟩ := Registry.indexAdd_spec hk hs hfree
    obtain ⟨rfl, rfl⟩ := Prod.mk.inj (Option.some.inj (hseq.symm.trans hseq₁))
    rw [addUnitsWrites, Registry.addUnits, hadd, hseq, Option.bind_some, Option.bind_some]
    cases ok with
    | true =>
      have hf₂ : ∀ u' x, (σ.run ws).registry.index.Files u' x ↔
          (first ≤ u' ∧ u' < u + 1 ∧ x = s) ∨ r₀.index.Files u' x := by
        intro u' x
        rw [hf₁, hf]
        constructor
        · rintro (⟨-, rfl, rfl⟩ | ⟨h₁, h₂, rfl⟩ | hx)
          · exact .inl ⟨hu, by omega, rfl⟩
          · exact .inl ⟨h₁, by omega, rfl⟩
          · exact .inr hx
        · rintro (⟨h₁, h₂, rfl⟩ | hx)
          · by_cases he : u' = u
            · exact .inl ⟨rfl, he, rfl⟩
            · exact .inr (.inl ⟨h₁, by omega, rfl⟩)
          · exact .inr (.inr hx)
      obtain ⟨ws', ok', hrest, hseq', hsteady'⟩ := ih (u := u + 1) (σ := σ.run ws)
        (fun u' h₁ h₂ => hno u' h₁ (by omega)) (fun u' h₁ h₂ => hpast u' h₁ (by omega)) (by omega)
        hk₁ (hw.run hsteady) (fun x hx u' hu' => (hf₁ u' x.1).mpr (.inr (hl x hx u' hu'))) hf₂
      refine ⟨ws ++ ws', ok', ?_, ?_, steady_append.mpr ⟨hsteady, hsteady'⟩⟩
      · simp only [if_true, hrest, Option.map_some]
      · simp only [if_true, hseq', run_append]
    | false =>
      obtain ⟨hdel, hsteady'⟩ := delUnitsWrites_spec reg past (u - first) first
        (σ := σ.run ws) hk₁ (by
          intro u' h₁ h₂ x hx y hy
          rcases (hf₁ u' x).mp hx with ⟨hb, -⟩ | hx
          · simp at hb
          · rcases (hf u' x).mp hx with ⟨-, -, rfl⟩ | hx
            · exact hnew y hy
            · exact absurd hx (hno u' h₁ (by omega) x))
      refine ⟨ws ++ delUnitsWrites (u - first) first (σ.run ws), false, ?_, ?_,
        steady_append.mpr ⟨hsteady, hsteady'⟩⟩
      · simp only [Bool.false_eq_true, if_false]
      · simp only [Bool.false_eq_true, if_false, run_append, hdel]

end Shared

end Mars
