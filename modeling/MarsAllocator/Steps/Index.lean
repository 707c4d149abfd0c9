import MarsAllocator.Library.LinearProbe
import MarsAllocator.Model.Registry

namespace Mars

open LinearProbe

def UnitSlot.view (x : UnitSlot) : Slot Nat Nat :=
  if x.span = 0 then .empty else if x.span = unitTomb then .tomb else .live x.unit x.span

/-- A descriptor's address is neither NULL nor the mark of a deleted entry. -/
def RealSpan (s : Nat) : Prop := s ≠ 0 ∧ s ≠ unitTomb

instance (s : Nat) : Decidable (RealSpan s) := inferInstanceAs (Decidable (_ ∧ _))

theorem view_live {x : UnitSlot} {u s : Nat} :
    x.view = .live u s ↔ x = ⟨u, s⟩ ∧ RealSpan s := by
  rw [UnitSlot.view]
  by_cases h0 : x.span = 0
  · rw [if_pos h0]
    refine iff_of_false (by simp) ?_
    rintro ⟨rfl, hs⟩
    exact hs.1 h0
  rw [if_neg h0]
  by_cases h1 : x.span = unitTomb
  · rw [if_pos h1]
    refine iff_of_false (by simp) ?_
    rintro ⟨rfl, hs⟩
    exact hs.2 h1
  rw [if_neg h1, Slot.live.injEq]
  constructor
  · rintro ⟨rfl, rfl⟩
    exact ⟨rfl, h0, h1⟩
  · rintro ⟨rfl, -⟩
    exact ⟨rfl, rfl⟩

theorem view_isEmpty (x : UnitSlot) : x.view.isEmpty = (x.span == 0) := by
  rw [UnitSlot.view]
  by_cases h0 : x.span = 0
  · simp [h0, Slot.isEmpty]
  · rw [if_neg h0]
    split <;> simp [h0, Slot.isEmpty]

theorem view_stops (unit : Nat) (x : UnitSlot) : x.view.stops unit = x.stops unit := by
  rw [UnitSlot.view, UnitSlot.stops]
  by_cases h0 : x.span = 0
  · simp [h0, Slot.stops]
  · rw [if_neg h0]
    by_cases h1 : x.span = unitTomb
    · simp [h1, Slot.stops, unitTomb]
    · have hz : (x.span == 0) = false := beq_eq_false_iff_ne.mpr h0
      have ht : (x.span != unitTomb) = true := bne_iff_ne.mpr h1
      rw [if_neg h1, hz, ht, Bool.false_or, Bool.true_and]
      rfl

def Index.view (ix : Index) (i : Nat) : Slot Nat Nat := (ix.slot i).view

theorem view_set (ix : Index) (i : Nat) (x : UnitSlot) :
    (ix.set i x).view = Function.update ix.view i x.view := by
  funext j
  by_cases hj : j = i
  · subst hj
    rw [Function.update_self]
    exact congrArg UnitSlot.view (Function.update_self _ _ _)
  · rw [Function.update_of_ne hj]
    exact congrArg UnitSlot.view (Function.update_of_ne hj _ _)

/-- A table whose probes come to every slot, with no entry hidden from them. -/
structure Index.Good (ix : Index) : Prop where
  pow : ∃ k, ix.cap = 2 ^ k
  sound : Sound ix.cap (fun u => slotFor u ix.cap) ix.view

/-- `unit` is filed under `s`. -/
def Index.Files (ix : Index) (unit s : Nat) : Prop := Holds ix.cap ix.view unit s

def Index.filled (ix : Index) : Nat := count ix.cap (fun x => !x.isEmpty) ix.view

def Index.entries (ix : Index) : Nat := count ix.cap Slot.isLive ix.view

theorem slotFor_lt (unit : Nat) {cap k : Nat} (hc : cap = 2 ^ k) : slotFor unit cap < cap := by
  rw [slotFor, hc, Nat.and_two_pow_sub_one_eq_mod]
  exact Nat.mod_lt _ (Nat.two_pow_pos k)

namespace Index

variable {ix ix' : Index} {unit s i : Nat}

theorem probeFrom_eq {k : Nat} (hc : ix.cap = 2 ^ k) (probes i : Nat) :
    ix.probeFrom unit probes i = search ix.cap (fun j => (ix.view j).stops unit) probes i := by
  induction probes generalizing i with
  | zero => rfl
  | succ probes ih =>
    rw [probeFrom, search, ← ih]
    have hs : (ix.view i).stops unit = (ix.slot i).stops unit := view_stops _ _
    rw [hs, hc, Nat.and_two_pow_sub_one_eq_mod]

theorem Good.probe_eq (hg : ix.Good) : ix.probe unit =
    search ix.cap (fun j => (ix.view j).stops unit) ix.cap (slotFor unit ix.cap) := by
  obtain ⟨k, hc⟩ := hg.pow
  exact probeFrom_eq hc _ _

theorem Good.slotFor_lt (hg : ix.Good) : slotFor unit ix.cap < ix.cap := hg.sound.home_lt unit

theorem Good.probe_isSome (hg : ix.Good) (hroom : ix.filled < ix.cap) (unit : Nat) :
    (ix.probe unit).isSome := by
  obtain ⟨j, hj, he⟩ := exists_of_count_lt hroom
  have hstop : (ix.view j).stops unit = true := by
    rcases hv : ix.view j with _ | _ | ⟨k, v⟩
    · rfl
    · rw [hv] at he
      simp [Slot.isEmpty] at he
    · rw [hv] at he
      simp [Slot.isEmpty] at he
  rw [hg.probe_eq]
  exact search_isSome hg.slotFor_lt hj hstop

theorem good_blank {cap k : Nat} (hc : cap = 2 ^ k) : (Index.blank cap).Good :=
  ⟨⟨k, hc⟩, Sound.fresh fun u => Mars.slotFor_lt u hc⟩

theorem blank_files (cap : Nat) : ¬ (Index.blank cap).Files unit s := by
  rintro ⟨j, -, hl⟩
  cases hl

theorem count_blank (cap n : Nat) (p : Slot Nat Nat → Bool) (hp : p .empty = false) :
    count n p (Index.blank cap).view = 0 := by
  induction n with
  | zero => rfl
  | succ n ih =>
    have he : (Index.blank cap).view n = .empty := rfl
    rw [count_succ, ih, he, hp]
    rfl

/-- What `index_put` does with a unit that is not filed yet. -/
structure Put (ix : Index) (unit s : Nat) (ix' : Index) : Prop where
  good : ix'.Good
  cap : ix'.cap = ix.cap
  files : ∀ u x, ix'.Files u x ↔ (u = unit ∧ x = s) ∨ ix.Files u x
  filled : ix'.filled = ix.filled + 1
  entries : ix'.entries = ix.entries + 1

theorem Good.probe_found (hg : ix.Good) (hi : ix.probe unit = some i)
    (hne : (ix.slot i).span ≠ 0) : ix.Files unit (ix.slot i).span := by
  rw [hg.probe_eq] at hi
  have hempty : (ix.view i).isEmpty = false := by
    have hv := view_isEmpty (ix.slot i)
    rw [Index.view, hv]
    simpa using hne
  obtain ⟨hlt, v, hl⟩ := hg.sound.found hi hempty
  have he := (view_live.mp hl).1
  exact ⟨i, hlt, by rw [hl, he]⟩

theorem Good.probe_vacant (hg : ix.Good) (hno : ∀ x, ¬ ix.Files unit x)
    (hi : ix.probe unit = some i) : (ix.slot i).span = 0 := by
  by_contra hne
  exact hno _ (hg.probe_found hi hne)

theorem Good.put (hg : ix.Good) (hroom : ix.filled < ix.cap) (hs : RealSpan s)
    (hno : ∀ x, ¬ ix.Files unit x) : ∃ ix', indexPut ix unit s = some ix' ∧ ix.Put unit s ix' := by
  obtain ⟨i, hi⟩ := Option.isSome_iff_exists.mp (hg.probe_isSome hroom unit)
  have hspan := hg.probe_vacant hno hi
  have hsearch := hi
  rw [hg.probe_eq] at hsearch
  have hempty : (ix.view i).isEmpty = true := by
    rw [Index.view, view_isEmpty, hspan]
    rfl
  have hlt : i < ix.cap := by
    obtain ⟨e, he, rfl, -⟩ := search_some hg.slotFor_lt hsearch
    exact Nat.mod_lt _ (by omega)
  have hview : (ix.set i ⟨unit, s⟩).view = Function.update ix.view i (.live unit s) := by
    rw [view_set, view_live.mpr ⟨rfl, hs⟩]
  have hnl : (ix.view i).isLive = false := by
    rcases hv : ix.view i with _ | _ | ⟨k, v⟩
    · rfl
    · rfl
    · rw [hv] at hempty
      simp [Slot.isEmpty] at hempty
  refine ⟨ix.set i ⟨unit, s⟩, by rw [indexPut, hi, Option.map_some, if_pos hspan], ⟨hg.pow, ?_⟩, rfl,
    fun u x => ?_, ?_, ?_⟩
  · rw [hview]
    exact hg.sound.put hno hsearch s
  · rw [Files, hview]
    exact holds_put hlt hempty
  · rw [filled, hview]
    exact count_add hlt (by simp [hempty]) rfl
  · rw [entries, hview]
    exact count_add hlt hnl rfl

/-- What `index_del` does. -/
structure Del (ix : Index) (unit : Nat) (ix' : Index) : Prop where
  good : ix'.Good
  cap : ix'.cap = ix.cap
  files : ∀ u x, ix'.Files u x ↔ u ≠ unit ∧ ix.Files u x
  filled : ix'.filled = ix.filled

theorem Good.del (hg : ix.Good) (hi : ix.probe unit = some i) (hne : (ix.slot i).span ≠ 0) :
    ix.Del unit (ix.set i { ix.slot i with span := unitTomb }) ∧
      (ix.set i { ix.slot i with span := unitTomb }).entries + 1 = ix.entries := by
  rw [hg.probe_eq] at hi
  have hempty : (ix.view i).isEmpty = false := by
    have hv := view_isEmpty (ix.slot i)
    rw [Index.view, hv]
    simpa using hne
  obtain ⟨hlt, v, hl⟩ := hg.sound.found hi hempty
  have hview : (ix.set i { ix.slot i with span := unitTomb }).view =
      Function.update ix.view i .tomb := by
    rw [view_set]
    rfl
  refine ⟨⟨⟨hg.pow, ?_⟩, rfl, fun u x => ?_, ?_⟩, ?_⟩
  · rw [hview]
    exact hg.sound.del i
  · rw [Files, hview]
    exact holds_del hg.sound hlt hl
  · rw [filled, hview]
    exact count_same (by rw [hempty]; rfl)
  · rw [entries, hview]
    exact count_remove hlt (by rw [hl]; rfl) rfl

theorem Good.missing (hg : ix.Good)
    (hm : ∀ i, ix.probe unit = some i → (ix.slot i).span = 0) : ¬ ix.Files unit s := by
  refine hg.sound.absent fun j hj => ?_
  rw [← hg.probe_eq] at hj
  have hv := view_isEmpty (ix.slot j)
  rw [Index.view, hv, hm j hj]
  rfl

theorem Good.probe_files (hg : ix.Good) (hf : ix.Files unit s) :
    ∃ i, ix.probe unit = some i ∧ (ix.slot i).span = s ∧ (ix.slot i).span ≠ 0 := by
  obtain ⟨j, hj, hl⟩ := hf
  obtain ⟨he, hs⟩ := view_live.mp hl
  have hspan : (ix.slot j).span = s := by rw [he]
  refine ⟨j, ?_, hspan, hspan ▸ hs.1⟩
  rw [hg.probe_eq]
  exact hg.sound.find hj hl

end Index

theorem growCap_eq (need fuel cap : Nat) : ∃ k, growCap need fuel cap = cap * 2 ^ k := by
  induction fuel generalizing cap with
  | zero => exact ⟨0, by rw [growCap, Nat.pow_zero, Nat.mul_one]⟩
  | succ fuel ih =>
    rw [growCap]
    split
    · obtain ⟨k, hk⟩ := ih (cap * 2)
      exact ⟨k + 1, by rw [hk, Nat.pow_succ, Nat.mul_assoc, Nat.mul_comm 2]⟩
    · exact ⟨0, by rw [Nat.pow_zero, Nat.mul_one]⟩

theorem le_growCap {need fuel cap : Nat} (hn : need ≤ cap * 2 ^ fuel) :
    need ≤ growCap need fuel cap := by
  induction fuel generalizing cap with
  | zero => simpa [growCap] using hn
  | succ fuel ih =>
    rw [growCap]
    split
    · exact ih (by rw [Nat.mul_assoc, ← Nat.pow_succ']; exact hn)
    · omega

theorem rehashCap_spec (live : Nat) :
    (∃ k, rehashCap live = 2 ^ k) ∧ (live + 1) * 4 ≤ rehashCap live := by
  constructor
  · obtain ⟨k, hk⟩ := growCap_eq ((live + 1) * 4) ((live + 1) * 4) indexStatic
    exact ⟨10 + k, by rw [rehashCap, hk, Nat.pow_add]; rfl⟩
  · apply le_growCap
    have hlt := Nat.lt_two_pow_self (n := (live + 1) * 4)
    have hmul : 1 * 2 ^ ((live + 1) * 4) ≤ indexStatic * 2 ^ ((live + 1) * 4) :=
      Nat.mul_le_mul_right _ (by decide)
    omega

/-- The copy of a table, after the slots before `n` have been looked at. -/
structure Index.Copied (old : Index) (n : Nat) (ix : Index) : Prop where
  good : ix.Good
  files : ∀ u x, ix.Files u x ↔ ∃ j < n, old.view j = .live u x
  filled : ix.filled = count n Slot.isLive old.view
  entries : ix.entries = count n Slot.isLive old.view

theorem Index.Copied.vacant {old ix : Index} {n : Nat} (ho : old.Good) (hn : n < old.cap)
    (hc : old.Copied n ix) (hl : RealSpan (old.slot n).span) (x : Nat) :
    ¬ ix.Files (old.slot n).unit x := by
  intro hf
  have hv : old.view n = .live (old.slot n).unit (old.slot n).span := view_live.mpr ⟨rfl, hl⟩
  obtain ⟨j, hj, hlj⟩ := (hc.files _ _).mp hf
  have := ho.sound.once j (by omega) n hn _ _ _ hlj hv
  omega

theorem Index.Copied.step {old ix : Index} {n : Nat} (ho : old.Good) (hn : n < old.cap)
    (hc : old.Copied n ix) (hroom : ix.filled < ix.cap) :
    ∃ ix', (if (old.slot n).span ≠ 0 ∧ (old.slot n).span ≠ unitTomb then
      indexPut ix (old.slot n).unit (old.slot n).span else some ix) = some ix' ∧
      old.Copied (n + 1) ix' ∧ ix'.cap = ix.cap := by
  by_cases hl : (old.slot n).span ≠ 0 ∧ (old.slot n).span ≠ unitTomb
  · have hv : old.view n = .live (old.slot n).unit (old.slot n).span := view_live.mpr ⟨rfl, hl⟩
    obtain ⟨ix', hput, hp⟩ := hc.good.put hroom hl (hc.vacant ho hn hl)
    have hcount : count (n + 1) Slot.isLive old.view = count n Slot.isLive old.view + 1 := by
      rw [count_succ, hv]
      rfl
    rw [if_pos hl]
    refine ⟨ix', hput, ⟨hp.good, fun u x => ?_, ?_, ?_⟩, hp.cap⟩
    · rw [hp.files, hc.files]
      constructor
      · rintro (⟨rfl, rfl⟩ | ⟨j, hj, hlj⟩)
        · exact ⟨n, by omega, hv⟩
        · exact ⟨j, by omega, hlj⟩
      · rintro ⟨j, hj, hlj⟩
        by_cases hjn : j = n
        · subst hjn
          obtain ⟨rfl, rfl⟩ := Slot.live.inj (hv.symm.trans hlj)
          exact Or.inl ⟨rfl, rfl⟩
        · exact Or.inr ⟨j, by omega, hlj⟩
    · rw [hp.filled, hc.filled, hcount]
    · rw [hp.entries, hc.entries, hcount]
  · have hv : (old.view n).isLive = false := by
      rcases hv : old.view n with _ | _ | ⟨u, s⟩
      · rfl
      · rfl
      · obtain ⟨he, hs⟩ := view_live.mp hv
        rw [he] at hl
        exact absurd hs hl
    have hcount : count (n + 1) Slot.isLive old.view = count n Slot.isLive old.view := by
      rw [count_succ, hv]
      rfl
    rw [if_neg hl]
    refine ⟨ix, rfl, ⟨hc.good, fun u x => ?_, ?_, ?_⟩, rfl⟩
    · rw [hc.files]
      constructor
      · rintro ⟨j, hj, hlj⟩
        exact ⟨j, by omega, hlj⟩
      · rintro ⟨j, hj, hlj⟩
        by_cases hjn : j = n
        · subst hjn
          rw [hlj] at hv
          simp [Slot.isLive] at hv
        · exact ⟨j, by omega, hlj⟩
    · rw [hc.filled, hcount]
    · rw [hc.entries, hcount]

theorem rehashFrom_spec {old ix : Index} {left : Nat} (ho : old.Good) (hle : left ≤ old.cap)
    (hc : old.Copied (old.cap - left) ix) (hroom : old.entries < ix.cap) :
    ∃ ix', rehashFrom old left ix = some ix' ∧ old.Copied old.cap ix' ∧ ix'.cap = ix.cap := by
  induction left generalizing ix with
  | zero => exact ⟨ix, rfl, hc, rfl⟩
  | succ left ih =>
    have hmono : ∀ m ≤ old.cap, count m Slot.isLive old.view ≤ old.entries := fun m hm =>
      count_prefix hm
    have hfill : ix.filled < ix.cap := by
      have := hmono (old.cap - (left + 1)) (by omega)
      rw [hc.filled]
      omega
    obtain ⟨ix₁, hstep, hc₁, hcap₁⟩ := hc.step ho (by omega) hfill
    rw [show old.cap - (left + 1) + 1 = old.cap - left by omega] at hc₁
    obtain ⟨ix', hrest, hc', hcap'⟩ := ih (by omega) hc₁ (by omega)
    refine ⟨ix', ?_, hc', by omega⟩
    rw [rehashFrom]
    split at hstep
    · rename_i hl
      rw [if_pos hl, hstep]
      exact hrest
    · rename_i hl
      rw [if_neg hl, Option.some.inj hstep]
      exact hrest

end Mars
