import Mathlib.Algebra.Order.Group.Nat
import Mathlib.Data.Finset.Card
import Mathlib.Data.Nat.Find
import Mathlib.Logic.Function.Basic

namespace LinearProbe

/-- How many steps round a ring of `cap` places lead from `i` to `j`. -/
def dist (cap i j : Nat) : Nat := if i ≤ j then j - i else j + cap - i

section Ring

variable {cap i j d : Nat}

theorem dist_lt (hi : i < cap) (hj : j < cap) : dist cap i j < cap := by
  rw [dist]
  split <;> omega

theorem add_dist (hi : i < cap) (hj : j < cap) : (i + dist cap i j) % cap = j := by
  rw [dist]
  split
  · rw [Nat.add_sub_cancel' ‹_›, Nat.mod_eq_of_lt hj]
  · rw [show i + (j + cap - i) = j + cap by omega, Nat.add_mod_right, Nat.mod_eq_of_lt hj]

theorem dist_add (hi : i < cap) (hd : d < cap) : dist cap i ((i + d) % cap) = d := by
  rw [dist]
  by_cases hlt : i + d < cap
  · rw [Nat.mod_eq_of_lt hlt, if_pos (by omega)]
    omega
  · rw [Nat.mod_eq_sub_mod (by omega), Nat.mod_eq_of_lt (by omega), if_neg (by omega)]
    omega

theorem step_eq : ((i + d) % cap + 1) % cap = (i + (d + 1)) % cap := by
  rw [Nat.mod_add_mod, Nat.add_assoc]

/-- The first place from `i` on where `stop` holds, looking at `n` of them. -/
def search (cap : Nat) (stop : Nat → Bool) : (n : Nat) → (i : Nat) → Option Nat
  | 0, _ => none
  | n + 1, i => if stop i then some i else search cap stop n ((i + 1) % cap)

variable {stop : Nat → Bool} {n : Nat}

theorem search_from (hj : search cap stop n ((i + d) % cap) = some j) :
    ∃ e < n, j = (i + (d + e)) % cap ∧ stop j = true ∧ ∀ e' < e, stop ((i + (d + e')) % cap) = false := by
  induction n generalizing d with
  | zero => simp [search] at hj
  | succ n ih =>
    rw [search] at hj
    split at hj
    · rename_i hs
      obtain rfl := Option.some.inj hj
      exact ⟨0, by omega, rfl, hs, by simp⟩
    · rename_i hs
      rw [step_eq] at hj
      obtain ⟨e, he, hje, hstop, hno⟩ := ih hj
      refine ⟨e + 1, by omega, by rw [hje, Nat.add_assoc, Nat.add_comm 1 e], hstop, fun e' he' => ?_⟩
      cases e' with
      | zero => simpa using hs
      | succ e' =>
        have := hno e' (by omega)
        rwa [Nat.add_assoc, Nat.add_comm 1 e'] at this

theorem search_some (hi : i < cap) (hj : search cap stop n i = some j) :
    ∃ e < n, j = (i + e) % cap ∧ stop j = true ∧ ∀ e' < e, stop ((i + e') % cap) = false := by
  rw [← Nat.mod_eq_of_lt hi] at hj
  obtain ⟨e, he, hje, hs, hno⟩ := search_from (d := 0) (by simpa using hj)
  exact ⟨e, he, by simpa using hje, hs, fun e' he' => by simpa using hno e' he'⟩

theorem search_first_from {e : Nat} (he : e < n)
    (hs : stop ((i + (d + e)) % cap) = true)
    (hno : ∀ e' < e, stop ((i + (d + e')) % cap) = false) :
    search cap stop n ((i + d) % cap) = some ((i + (d + e)) % cap) := by
  induction n generalizing d e with
  | zero => omega
  | succ n ih =>
    rw [search]
    cases e with
    | zero =>
      rw [Nat.add_zero] at hs
      rw [if_pos hs, Nat.add_zero]
    | succ e =>
      have h0 : stop ((i + d) % cap) = false := by simpa using hno 0 (by omega)
      have hadd : ∀ x, d + (x + 1) = d + 1 + x := by omega
      rw [if_neg (by simp [h0]), step_eq, hadd e]
      refine ih (by omega) (by rwa [← hadd e]) fun e' he' => ?_
      rw [← hadd e']
      exact hno (e' + 1) (by omega)

theorem search_first (hi : i < cap) {e : Nat} (he : e < n) (hs : stop ((i + e) % cap) = true)
    (hno : ∀ e' < e, stop ((i + e') % cap) = false) :
    search cap stop n i = some ((i + e) % cap) := by
  have := search_first_from (d := 0) he (by simpa using hs) (by simpa using hno)
  simpa [Nat.mod_eq_of_lt hi] using this

theorem search_isSome (hi : i < cap) (hj : j < cap) (hs : stop j = true) :
    (search cap stop cap i).isSome := by
  have hex : ∃ e, e < cap ∧ stop ((i + e) % cap) = true :=
    ⟨dist cap i j, dist_lt hi hj, by rwa [add_dist hi hj]⟩
  have hfirst := Nat.find_spec hex
  rw [search_first hi hfirst.1 hfirst.2 fun e' he' => ?_]
  · rfl
  · have hmin := Nat.find_min hex he'
    have hlt : e' < cap := by have := hfirst.1; omega
    simpa [hlt] using hmin

end Ring

/-- A place of an open-addressed table whose entries are taken out by leaving a marker. -/
inductive Slot (K V : Type) where
  | empty
  | tomb
  | live (k : K) (v : V)

variable {K V : Type}

def Slot.isEmpty : Slot K V → Bool
  | empty => true
  | _ => false

def Slot.isLive : Slot K V → Bool
  | live _ _ => true
  | _ => false

/-- Where a search for `k` ends: at its entry, or at the first empty place. -/
def Slot.stops [DecidableEq K] (k : K) : Slot K V → Bool
  | empty => true
  | tomb => false
  | live k' _ => k' == k

/-- No search is cut short before it has passed its entry, and no key has two entries. -/
structure Sound (cap : Nat) (home : K → Nat) (slot : Nat → Slot K V) : Prop where
  home_lt : ∀ k, home k < cap
  unbroken : ∀ j < cap, ∀ k v, slot j = .live k v → ∀ e < dist cap (home k) j,
    (slot ((home k + e) % cap)).isEmpty = false
  once : ∀ j < cap, ∀ j' < cap, ∀ k v v', slot j = .live k v → slot j' = .live k v' → j = j'

/-- `k` is filed with `v`. -/
def Holds (cap : Nat) (slot : Nat → Slot K V) (k : K) (v : V) : Prop :=
  ∃ j < cap, slot j = .live k v

namespace Sound

variable [DecidableEq K] {cap : Nat} {home : K → Nat} {slot : Nat → Slot K V} {k : K} {v : V} {j : Nat}

theorem find (hs : Sound cap home slot) (hj : j < cap) (hl : slot j = .live k v) :
    search cap (fun i => (slot i).stops k) cap (home k) = some j := by
  have hk := hs.home_lt k
  have hstop : (slot ((home k + dist cap (home k) j) % cap)).stops k = true := by
    rw [add_dist hk hj, hl]
    exact beq_self_eq_true k
  have hsearch : search cap (fun i => (slot i).stops k) cap (home k) =
      some ((home k + dist cap (home k) j) % cap) := search_first hk (dist_lt hk hj) hstop ?_
  · rwa [add_dist hk hj] at hsearch
  intro e he
  have hne := hs.unbroken j hj k v hl e he
  have hlt : e < cap := he.trans (dist_lt hk hj)
  change (slot ((home k + e) % cap)).stops k = false
  rcases hsl : slot ((home k + e) % cap) with _ | _ | ⟨k', v'⟩
  · rw [hsl] at hne
    simp [Slot.isEmpty] at hne
  · rfl
  · refine beq_eq_false_iff_ne.mpr fun he' => ?_
    subst he'
    have hsame := hs.once _ (Nat.mod_lt _ (by omega)) j hj k' v' v hsl hl
    have hd := dist_add hk hlt
    rw [hsame] at hd
    omega

theorem absent (hs : Sound cap home slot)
    (hn : ∀ j, search cap (fun i => (slot i).stops k) cap (home k) = some j →
      (slot j).isEmpty = true) : ¬ Holds cap slot k v := by
  rintro ⟨j, hj, hl⟩
  have := hn j (hs.find hj hl)
  rw [hl] at this
  simp [Slot.isEmpty] at this

theorem found (hs : Sound cap home slot)
    (hf : search cap (fun i => (slot i).stops k) cap (home k) = some j)
    (hne : (slot j).isEmpty = false) : j < cap ∧ ∃ v, slot j = .live k v := by
  obtain ⟨e, he, rfl, hstop, -⟩ := search_some (hs.home_lt k) hf
  refine ⟨Nat.mod_lt _ (by omega), ?_⟩
  rcases hsl : slot ((home k + e) % cap) with _ | _ | ⟨k', v'⟩
  · rw [hsl] at hne
    simp [Slot.isEmpty] at hne
  · rw [hsl] at hstop
    simp [Slot.stops] at hstop
  · rw [hsl] at hstop
    obtain rfl : k' = k := by simpa [Slot.stops] using hstop
    exact ⟨v', rfl⟩

theorem put (hs : Sound cap home slot) (hno : ∀ v', ¬ Holds cap slot k v')
    (hf : search cap (fun i => (slot i).stops k) cap (home k) = some j) (v : V) :
    Sound cap home (Function.update slot j (.live k v)) := by
  obtain ⟨e, he, hje, -, hbefore⟩ := search_some (hs.home_lt k) hf
  have hj : j < cap := by
    rw [hje]
    exact Nat.mod_lt _ (by omega)
  have hkeep : ∀ i, (slot i).isEmpty = false →
      (Function.update slot j (.live k v) i).isEmpty = false := by
    intro i hi
    by_cases hij : i = j
    · rw [hij, Function.update_self]
      rfl
    · rwa [Function.update_of_ne hij]
  refine ⟨hs.home_lt, fun i hi k' v' hl e' he' => ?_, fun i hi i' hi' k' v' v'' hl hl' => ?_⟩
  · apply hkeep
    by_cases hij : i = j
    · rw [hij, Function.update_self] at hl
      obtain ⟨rfl, -⟩ := Slot.live.inj hl
      have hd : dist cap (home k) j = e := by rw [hje, dist_add (hs.home_lt k) he]
      rw [hij, hd] at he'
      have hb := hbefore e' he'
      rcases hsl : slot ((home k + e') % cap) with _ | _ | ⟨k'', v''⟩
      · rw [hsl] at hb
        simp [Slot.stops] at hb
      · rfl
      · rfl
    · rw [Function.update_of_ne hij] at hl
      exact hs.unbroken i hi k' v' hl e' he'
  · by_cases hij : i = j
    · by_cases hij' : i' = j
      · rw [hij, hij']
      · rw [hij, Function.update_self] at hl
        rw [Function.update_of_ne hij'] at hl'
        obtain ⟨rfl, -⟩ := Slot.live.inj hl
        exact absurd ⟨i', hi', hl'⟩ (hno v'')
    · rw [Function.update_of_ne hij] at hl
      by_cases hij' : i' = j
      · rw [hij', Function.update_self] at hl'
        obtain ⟨rfl, -⟩ := Slot.live.inj hl'
        exact absurd ⟨i, hi, hl⟩ (hno v')
      · rw [Function.update_of_ne hij'] at hl'
        exact hs.once i hi i' hi' k' v' v'' hl hl'

omit [DecidableEq K] in
theorem del (hs : Sound cap home slot) (j : Nat) :
    Sound cap home (Function.update slot j .tomb) := by
  have hlive : ∀ i k' (v' : V), Function.update slot j .tomb i = .live k' v' → slot i = .live k' v' := by
    intro i k' v' hl
    by_cases hij : i = j
    · rw [hij, Function.update_self] at hl
      cases hl
    · rwa [Function.update_of_ne hij] at hl
  refine ⟨hs.home_lt, fun i hi k' v' hl e he => ?_, fun i hi i' hi' k' v' v'' hl hl' =>
    hs.once i hi i' hi' k' v' v'' (hlive _ _ _ hl) (hlive _ _ _ hl')⟩
  have hne := hs.unbroken i hi k' v' (hlive _ _ _ hl) e he
  by_cases hij : (home k' + e) % cap = j
  · rw [hij, Function.update_self]
    rfl
  · rwa [Function.update_of_ne hij]

omit [DecidableEq K] in
theorem fresh (hk : ∀ k, home k < cap) : Sound cap home fun _ => (.empty : Slot K V) :=
  ⟨hk, fun _ _ _ _ hl => (nomatch hl), fun _ _ _ _ _ _ _ hl => (nomatch hl)⟩

end Sound

section Entries

variable {cap : Nat} {home : K → Nat} {slot : Nat → Slot K V} {k : K} {v : V} {j : Nat}

theorem holds_put (hj : j < cap) (he : (slot j).isEmpty = true) {k' : K} {v' : V} :
    Holds cap (Function.update slot j (.live k v)) k' v' ↔
      (k' = k ∧ v' = v) ∨ Holds cap slot k' v' := by
  constructor
  · rintro ⟨i, hi, hl⟩
    by_cases hij : i = j
    · rw [hij, Function.update_self] at hl
      obtain ⟨rfl, rfl⟩ := Slot.live.inj hl
      exact Or.inl ⟨rfl, rfl⟩
    · rw [Function.update_of_ne hij] at hl
      exact Or.inr ⟨i, hi, hl⟩
  · rintro (⟨rfl, rfl⟩ | ⟨i, hi, hl⟩)
    · exact ⟨j, hj, Function.update_self _ _ _⟩
    · refine ⟨i, hi, ?_⟩
      have hij : i ≠ j := by
        rintro rfl
        rw [hl] at he
        simp [Slot.isEmpty] at he
      rw [Function.update_of_ne hij, hl]

theorem holds_del (hs : Sound cap home slot) (hj : j < cap) (hl : slot j = .live k v) {k' : K}
    {v' : V} : Holds cap (Function.update slot j .tomb) k' v' ↔ k' ≠ k ∧ Holds cap slot k' v' := by
  constructor
  · rintro ⟨i, hi, hl'⟩
    by_cases hij : i = j
    · rw [hij, Function.update_self] at hl'
      cases hl'
    · rw [Function.update_of_ne hij] at hl'
      refine ⟨?_, i, hi, hl'⟩
      rintro rfl
      exact hij (hs.once i hi j hj k' v' v hl' hl)
  · rintro ⟨hne, i, hi, hl'⟩
    refine ⟨i, hi, ?_⟩
    have hij : i ≠ j := by
      rintro rfl
      rw [hl] at hl'
      exact hne (Slot.live.inj hl').1.symm
    rw [Function.update_of_ne hij, hl']

end Entries

/-- How many of the first `cap` places satisfy `p`. -/
def count (cap : Nat) (p : Slot K V → Bool) (slot : Nat → Slot K V) : Nat :=
  ((Finset.range cap).filter fun i => p (slot i) = true).card

section Count

variable {cap : Nat} {p : Slot K V → Bool} {slot : Nat → Slot K V} {j : Nat} {x : Slot K V}

theorem count_add (hj : j < cap) (ho : p (slot j) = false) (hx : p x = true) :
    count cap p (Function.update slot j x) = count cap p slot + 1 := by
  have he : ((Finset.range cap).filter fun i => p (Function.update slot j x i) = true) =
      insert j ((Finset.range cap).filter fun i => p (slot i) = true) := by
    ext i
    rw [Finset.mem_insert, Finset.mem_filter, Finset.mem_filter, Finset.mem_range]
    by_cases hij : i = j
    · subst hij
      simp [hj, hx]
    · simp [hij]
  rw [count, he, Finset.card_insert_of_notMem (by simp [ho])]
  rfl

theorem count_remove (hj : j < cap) (ho : p (slot j) = true) (hx : p x = false) :
    count cap p (Function.update slot j x) + 1 = count cap p slot := by
  have hback : slot = Function.update (Function.update slot j x) j (slot j) := by
    rw [Function.update_idem, Function.update_eq_self]
  conv_rhs => rw [hback]
  exact (count_add hj (by simpa using hx) ho).symm

theorem count_same (hs : p (slot j) = p x) :
    count cap p (Function.update slot j x) = count cap p slot := by
  have he : ∀ i, p (Function.update slot j x i) = p (slot i) := by
    intro i
    by_cases hij : i = j
    · rw [hij, Function.update_self, hs]
    · rw [Function.update_of_ne hij]
  rw [count, count]
  simp only [he]

theorem count_succ (n : Nat) :
    count (n + 1) p slot = count n p slot + if p (slot n) then 1 else 0 := by
  rw [count, count, Finset.range_add_one, Finset.filter_insert]
  split
  · rw [Finset.card_insert_of_notMem (by simp)]
  · rfl

theorem count_prefix {n : Nat} (hn : n ≤ cap) : count n p slot ≤ count cap p slot :=
  Finset.card_le_card fun i hi => by
    rw [Finset.mem_filter, Finset.mem_range] at hi ⊢
    exact ⟨hi.1.trans_le hn, hi.2⟩

theorem exists_of_count_lt (hc : count cap p slot < cap) : ∃ j < cap, p (slot j) = false := by
  by_contra hno
  have hall : ∀ j < cap, p (slot j) = true := fun j hj => by
    by_contra hp
    exact hno ⟨j, hj, by simpa using hp⟩
  have : ((Finset.range cap).filter fun i => p (slot i) = true) = Finset.range cap :=
    Finset.filter_true_of_mem fun i hi => hall i (Finset.mem_range.mp hi)
  rw [count, this, Finset.card_range] at hc
  exact lt_irrefl _ hc

end Count

end LinearProbe
