import Mathlib.Logic.Relation
import Mathlib.Logic.Function.Basic
import Mathlib.Data.List.Basic

namespace LockOrder

variable {L R α β : Type}

/-- What a thread still has to do: it holds locks and has a register of its own, which it may set for
a while (`put`) or for good (`move`); `choose` stands for whatever its data decide. -/
inductive Code (L R α : Type) where
  | done (a : α)
  | lock (l : L) (next : Code L R α)
  | unlock (l : L) (next : Code L R α)
  | get (next : R → Code L R α)
  | put (r : R) (next : Code L R α)
  | move (r : R) (next : Code L R α)
  | choose (next : Nat → Code L R α)

namespace Code

def bind : Code L R α → (α → Code L R β) → Code L R β
  | done a, f => f a
  | lock l k, f => lock l (k.bind f)
  | unlock l k, f => unlock l (k.bind f)
  | get k, f => get fun r => (k r).bind f
  | put r k, f => put r (k.bind f)
  | move r k, f => move r (k.bind f)
  | choose k, f => choose fun n => (k n).bind f

instance : Monad (Code L R) where
  pure := done
  bind := bind

end Code

def acquire (l : L) : Code L R Unit := .lock l (.done ())

def release (l : L) : Code L R Unit := .unlock l (.done ())

def register : Code L R R := .get .done

def setRegister (r : R) : Code L R Unit := .put r (.done ())

def moveTo (r : R) : Code L R Unit := .move r (.done ())

def decideNat : Code L R Nat := .choose .done

def guarded (l : L) (c : Code L R α) : Code L R α := do
  acquire l
  let a ← c
  release l
  pure a

def times (c : Code L R Unit) : Nat → Code L R Unit
  | 0 => pure ()
  | n + 1 => c >>= fun _ => times c n

def forRange (c : Nat → Code L R Unit) : (n : Nat) → (i : Nat) → Code L R Unit
  | 0, _ => pure ()
  | n + 1, i => c i >>= fun _ => forRange c n (i + 1)

/-- What belongs to one thread; the locks it holds are listed, the last one taken first, and `moved`
is where its register went for good, if it did. -/
structure Here (L R : Type) where
  held : List L
  reg : R
  moved : Option R

section Rules

variable (rank : L → Nat)

/-- Every lock is taken while only lower ones are held and given back in turn, and `Q` holds at the
end, whatever is chosen. -/
def wp : Code L R α → (α → Here L R → Prop) → Here L R → Prop
  | .done a, Q, s => Q a s
  | .lock l k, Q, s => (∀ m ∈ s.held, rank m < rank l) ∧ wp k Q { s with held := l :: s.held }
  | .unlock l k, Q, s => ∃ rest, s.held = l :: rest ∧ wp k Q { s with held := rest }
  | .get k, Q, s => wp (k s.reg) Q s
  | .put r k, Q, s => wp k Q { s with reg := r }
  | .move r k, Q, s => wp k Q { s with reg := r, moved := some r }
  | .choose k, Q, s => ∀ n, wp (k n) Q s

variable {rank} {c : Code L R α} {f : α → Code L R β} {Q : α → Here L R → Prop}
  {P : β → Here L R → Prop} {s : Here L R}

theorem wp_bind : wp rank (c >>= f) P s ↔ wp rank c (fun a s => wp rank (f a) P s) s := by
  change wp rank (c.bind f) P s ↔ _
  induction c generalizing s with
  | done a => rfl
  | lock l k ih => exact and_congr_right fun _ => ih
  | unlock l k ih => exact exists_congr fun _ => and_congr_right fun _ => ih
  | get k ih => exact ih s.reg
  | put r k ih => exact ih
  | move r k ih => exact ih
  | choose k ih => exact forall_congr' fun n => ih n

theorem wp_mono {Q' : α → Here L R → Prop} (h : wp rank c Q s) (hq : ∀ a s, Q a s → Q' a s) :
    wp rank c Q' s := by
  induction c generalizing s with
  | done a => exact hq a s h
  | lock l k ih => exact ⟨h.1, ih h.2⟩
  | unlock l k ih =>
    obtain ⟨rest, hr, hk⟩ := h
    exact ⟨rest, hr, ih hk⟩
  | get k ih => exact ih s.reg h
  | put r k ih => exact ih h
  | move r k ih => exact ih h
  | choose k ih => exact fun n => ih n (h n)

variable {l : L}

theorem wp_acquire {Q : Unit → Here L R → Prop} (hr : ∀ m ∈ s.held, rank m < rank l) (h : Q () { s with held := l :: s.held }) :
    wp rank (acquire l) Q s := ⟨hr, h⟩

theorem wp_release {Q : Unit → Here L R → Prop} {rest : List L} (hh : s.held = l :: rest) (h : Q () { s with held := rest }) :
    wp rank (release l) Q s := ⟨rest, hh, h⟩

variable (rank) in
/-- `c` gives back every lock it takes and leaves the register alone. -/
def Keeps (c : Code L R α) (s : Here L R) : Prop := wp rank c (fun _ s' => s' = s) s

theorem Keeps.wp (h : Keeps rank c s) (hq : ∀ a, Q a s) :
    wp rank c Q s := wp_mono h fun a _ hs => hs ▸ hq a

theorem keeps_pure (a : α) : Keeps rank (pure a : Code L R α) s := rfl

theorem keeps_bind (hc : Keeps rank c s) (hf : ∀ a, Keeps rank (f a) s) :
    Keeps rank (c >>= f) s := wp_bind.mpr (hc.wp hf)

theorem keeps_guarded (hr : ∀ m ∈ s.held, rank m < rank l)
    (hc : Keeps rank c { s with held := l :: s.held }) : Keeps rank (guarded l c) s :=
  wp_bind.mpr (wp_acquire hr (wp_bind.mpr (hc.wp fun _ => wp_bind.mpr (wp_release rfl rfl))))

theorem keeps_decide : Keeps rank (decideNat : Code L R Nat) s := fun _ => rfl

theorem keeps_ite {p : Prop} [Decidable p] {c c' : Code L R α} (hc : p → Keeps rank c s)
    (hc' : ¬ p → Keeps rank c' s) : Keeps rank (if p then c else c') s := by
  by_cases hp : p
  · rw [if_pos hp]
    exact hc hp
  · rw [if_neg hp]
    exact hc' hp

theorem keeps_times {c : Code L R Unit} (hc : Keeps rank c s) (n : Nat) :
    Keeps rank (times c n) s := by
  induction n with
  | zero => exact keeps_pure ()
  | succ n ih => exact keeps_bind hc fun _ => ih

theorem wp_forRange {I : Here L R → Prop} {c : Nat → Code L R Unit}
    (hc : ∀ i s, I s → wp rank (c i) (fun _ => I) s) (n i : Nat) (h : I s) :
    wp rank (forRange c n i) (fun _ => I) s := by
  induction n generalizing i s with
  | zero => exact h
  | succ n ih => exact wp_bind.mpr (wp_mono (hc i s h) fun _ _ hs => ih (i + 1) hs)

end Rules

structure Thread (L R : Type) where
  code : Code L R Unit
  here : Here L R
  /-- The register when the operation began. -/
  entry : R

/-- One step of one thread: it begins an operation, or does what comes next in its code. -/
inductive Step (ops : Code L R Unit → Prop) (σ : Nat → Thread L R) : (Nat → Thread L R) → Prop
  | begin (t : Nat) (c : Code L R Unit) (hc : ops c) (ht : (σ t).code = .done ()) :
      Step ops σ (Function.update σ t ⟨c, { (σ t).here with moved := none }, (σ t).here.reg⟩)
  | lock (t : Nat) {l : L} {k : Code L R Unit} (ht : (σ t).code = .lock l k)
      (hfree : ∀ u, l ∉ (σ u).here.held) :
      Step ops σ (Function.update σ t
        { σ t with code := k, here := { (σ t).here with held := l :: (σ t).here.held } })
  | unlock (t : Nat) {l : L} {k : Code L R Unit} {rest : List L} (ht : (σ t).code = .unlock l k)
      (hh : (σ t).here.held = l :: rest) :
      Step ops σ (Function.update σ t
        { σ t with code := k, here := { (σ t).here with held := rest } })
  | get (t : Nat) {k : R → Code L R Unit} (ht : (σ t).code = .get k) :
      Step ops σ (Function.update σ t { σ t with code := k (σ t).here.reg })
  | put (t : Nat) {r : R} {k : Code L R Unit} (ht : (σ t).code = .put r k) :
      Step ops σ (Function.update σ t { σ t with code := k, here := { (σ t).here with reg := r } })
  | move (t : Nat) {r : R} {k : Code L R Unit} (ht : (σ t).code = .move r k) :
      Step ops σ (Function.update σ t
        { σ t with code := k, here := { (σ t).here with reg := r, moved := some r } })
  | choose (t n : Nat) {k : Nat → Code L R Unit} (ht : (σ t).code = .choose k) :
      Step ops σ (Function.update σ t { σ t with code := k n })

/-- Every run from threads that hold nothing and have not begun. -/
inductive Reached (ops : Code L R Unit → Prop) : (Nat → Thread L R) → Prop
  | start (reg : Nat → R) : Reached ops fun t => ⟨.done (), ⟨[], reg t, none⟩, reg t⟩
  | next {σ σ' : Nat → Thread L R} (h : Reached ops σ) (hs : Step ops σ σ') : Reached ops σ'

/-- The register is what it was, or what it was moved to for good. -/
def Homed (entry : R) (s : Here L R) : Prop := s.reg = s.moved.getD entry

def Settled (entry : R) (s : Here L R) : Prop := s.held = [] ∧ Homed entry s

/-- Thread `t` is about to take a lock that `u` holds. -/
def WaitsFor (σ : Nat → Thread L R) (t u : Nat) : Prop :=
  ∃ l k, (σ t).code = .lock l k ∧ l ∈ (σ u).here.held

section Safety

variable {rank : L → Nat} {ops : Code L R Unit → Prop} {σ σ' : Nat → Thread L R} {t u : Nat} {l : L}

structure Safe (rank : L → Nat) (σ : Nat → Thread L R) : Prop where
  goes : ∀ t, wp rank (σ t).code (fun _ => Settled (σ t).entry) (σ t).here
  sorted : ∀ t, (σ t).here.held.Pairwise fun l m => rank m < rank l
  once : ∀ t u l, l ∈ (σ t).here.held → l ∈ (σ u).here.held → t = u

theorem count_rank_le_one {held : List L} (h : held.Pairwise fun l m => rank m < rank l) (r : Nat) :
    held.countP (rank · == r) ≤ 1 := by
  induction h with
  | nil => exact Nat.zero_le 1
  | @cons l rest hl _ ih =>
    rw [List.countP_cons]
    by_cases hr : rank l = r
    · have hnone : rest.countP (rank · == r) = 0 := by
        rw [List.countP_eq_zero]
        intro m hm
        have := hl m hm
        simp only [beq_iff_eq]
        omega
      rw [hnone]
      split <;> omega
    · rw [if_neg (by simpa using hr)]
      exact ih

theorem Safe.update (h : Safe rank σ) {x : Thread L R}
    (hx : wp rank x.code (fun _ => Settled x.entry) x.here)
    (hh : x.here.held.Sublist (σ t).here.held) : Safe rank (Function.update σ t x) := by
  have hheld : ∀ u, (Function.update σ t x u).here.held.Sublist (σ u).here.held := by
    intro u
    by_cases hut : u = t
    · subst hut
      rw [Function.update_self]
      exact hh
    · rw [Function.update_of_ne hut]
  constructor
  · intro u
    by_cases hut : u = t
    · subst hut
      rw [Function.update_self]
      exact hx
    · rw [Function.update_of_ne hut]
      exact h.goes u
  · exact fun u => (h.sorted u).sublist (hheld u)
  · exact fun u v l hu hv => h.once u v l ((hheld u).mem hu) ((hheld v).mem hv)

theorem Safe.step (h : Safe rank σ)
    (hops : ∀ c, ops c → ∀ s : Here L R, s.held = [] → s.moved = none →
      wp rank c (fun _ => Settled s.reg) s)
    (hs : Step ops σ σ') : Safe rank σ' := by
  cases hs with
  | begin t c hc ht =>
    have hdone := h.goes t
    rw [ht] at hdone
    exact h.update (hops c hc { (σ t).here with moved := none } hdone.1 rfl) (List.Sublist.refl _)
  | lock t ht hfree =>
    rename_i l k
    have hgoes := h.goes t
    rw [ht] at hgoes
    have hheld : ∀ u m, m ∈ (Function.update σ t { σ t with
        code := k, here := { (σ t).here with held := l :: (σ t).here.held } } u).here.held →
        u = t ∧ m = l ∨ m ∈ (σ u).here.held := by
      intro u m hm
      by_cases hut : u = t
      · subst hut
        rw [Function.update_self] at hm
        exact (List.mem_cons.mp hm).imp (fun he => ⟨rfl, he⟩) id
      · rw [Function.update_of_ne hut] at hm
        exact .inr hm
    refine ⟨fun u => ?_, fun u => ?_, fun u v m hu hv => ?_⟩
    · by_cases hut : u = t
      · subst hut
        rw [Function.update_self]
        exact hgoes.2
      · rw [Function.update_of_ne hut]
        exact h.goes u
    · by_cases hut : u = t
      · subst hut
        rw [Function.update_self]
        exact List.pairwise_cons.mpr ⟨hgoes.1, h.sorted u⟩
      · rw [Function.update_of_ne hut]
        exact h.sorted u
    · rcases hheld u m hu with ⟨rfl, rfl⟩ | hu
      · rcases hheld v m hv with ⟨rfl, -⟩ | hv
        · rfl
        · exact absurd hv (hfree v)
      · rcases hheld v m hv with ⟨-, hml⟩ | hv
        · exact absurd (hml ▸ hu) (hfree u)
        · exact h.once u v m hu hv
  | unlock t ht hh =>
    rename_i l k rest
    have hgoes := h.goes t
    rw [ht] at hgoes
    obtain ⟨rest', hh', hk⟩ := hgoes
    obtain rfl := (List.cons.inj (hh.symm.trans hh')).2
    exact h.update hk (by rw [hh]; exact List.sublist_cons_self _ _)
  | get t ht =>
    have hgoes := h.goes t
    rw [ht] at hgoes
    exact h.update hgoes (List.Sublist.refl _)
  | put t ht =>
    have hgoes := h.goes t
    rw [ht] at hgoes
    exact h.update hgoes (List.Sublist.refl _)
  | move t ht =>
    have hgoes := h.goes t
    rw [ht] at hgoes
    exact h.update hgoes (List.Sublist.refl _)
  | choose t n ht =>
    have hgoes := h.goes t
    rw [ht] at hgoes
    exact h.update (hgoes n) (List.Sublist.refl _)

theorem Reached.safe (h : Reached ops σ)
    (hops : ∀ c, ops c → ∀ s : Here L R, s.held = [] → s.moved = none →
      wp rank c (fun _ => Settled s.reg) s) :
    Safe rank σ := by
  induction h with
  | start reg =>
    exact ⟨fun t => ⟨rfl, rfl⟩, fun _ => List.Pairwise.nil, fun _ _ _ hl => absurd hl List.not_mem_nil⟩
  | next _ hs ih => exact ih.step hops hs

theorem Safe.order (h : Safe rank σ) {k : Code L R Unit} (ht : (σ t).code = .lock l k) :
    ∀ m ∈ (σ t).here.held, rank m < rank l := by
  have hgoes := h.goes t
  rw [ht] at hgoes
  exact hgoes.1

/-- Along a chain of waiting threads the locks awaited go up. -/
theorem Safe.chain (h : Safe rank σ) (hw : Relation.TransGen (WaitsFor σ) t u) {k : Code L R Unit}
    (hu : (σ u).code = .lock l k) :
    ∃ m k', (σ t).code = .lock m k' ∧ rank m < rank l := by
  induction hw generalizing l k with
  | single hone =>
    obtain ⟨m, k', ht, hm⟩ := hone
    exact ⟨m, k', ht, h.order hu m hm⟩
  | tail _ hone ih =>
    obtain ⟨m, k', hb, hm⟩ := hone
    obtain ⟨m', k'', ht, hlt⟩ := ih hb
    exact ⟨m', k'', ht, Nat.lt_trans hlt (h.order hu m hm)⟩

theorem Safe.acyclic (h : Safe rank σ) (t : Nat) : ¬ Relation.TransGen (WaitsFor σ) t t := by
  intro hw
  obtain ⟨l, k, ht⟩ : ∃ l k, (σ t).code = .lock l k := by
    obtain ⟨u, ⟨l, k, ht, -⟩, -⟩ := Relation.TransGen.head'_iff.mp hw
    exact ⟨l, k, ht⟩
  obtain ⟨m, k', ht', hlt⟩ := h.chain hw ht
  rw [ht] at ht'
  obtain ⟨rfl, -⟩ := Code.lock.inj ht'
  exact Nat.lt_irrefl _ hlt

theorem Safe.busy (h : Safe rank σ) (hl : l ∈ (σ t).here.held) : (σ t).code ≠ .done () := by
  intro hdone
  have hgoes := h.goes t
  rw [hdone] at hgoes
  rw [hgoes.1] at hl
  exact absurd hl List.not_mem_nil

theorem Safe.goes_on (h : Safe rank σ) (ht : (σ t).code ≠ .done ()) :
    (∃ σ', Step ops σ σ' ∧ ∀ v, v ≠ t → σ' v = σ v) ∨ ∃ u, WaitsFor σ t u := by
  have hother : ∀ x : Thread L R, ∀ v, v ≠ t → Function.update σ t x v = σ v :=
    fun x v hv => Function.update_of_ne hv _ _
  cases hc : (σ t).code with
  | done a => exact absurd hc ht
  | lock l k =>
    by_cases hfree : ∀ u, l ∉ (σ u).here.held
    · exact .inl ⟨_, .lock t hc hfree, hother _⟩
    · obtain ⟨u, hu⟩ := not_forall.mp hfree
      exact .inr ⟨u, l, k, hc, not_not.mp hu⟩
  | unlock l k =>
    have hgoes := h.goes t
    rw [hc] at hgoes
    obtain ⟨rest, hh, -⟩ := hgoes
    exact .inl ⟨_, .unlock t hc hh, hother _⟩
  | get k => exact .inl ⟨_, .get t hc, hother _⟩
  | put r k => exact .inl ⟨_, .put t hc, hother _⟩
  | move r k => exact .inl ⟨_, .move t hc, hother _⟩
  | choose k => exact .inl ⟨_, .choose t 0 hc, hother _⟩

theorem Safe.progress (h : Safe rank σ) {bound : Nat} (hrank : ∀ l, rank l < bound)
    (ht : (σ t).code ≠ .done ()) :
    ∃ u, Relation.ReflTransGen (WaitsFor σ) t u ∧ (σ u).code ≠ .done () ∧
      ∃ σ', Step ops σ σ' ∧ ∀ v, v ≠ u → σ' v = σ v := by
  -- the rank of the lock awaited can go up only so often
  suffices hind : ∀ n t, (σ t).code ≠ .done () →
      (∀ l k, (σ t).code = .lock l k → bound ≤ rank l + n) →
      ∃ u, Relation.ReflTransGen (WaitsFor σ) t u ∧ (σ u).code ≠ .done () ∧
        ∃ σ', Step ops σ σ' ∧ ∀ v, v ≠ u → σ' v = σ v from
    hind bound t ht fun l k _ => by omega
  intro n
  induction n with
  | zero =>
    intro t ht hn
    rcases h.goes_on ht with hstep | ⟨u, l, k, hc, -⟩
    · exact ⟨t, .refl, ht, hstep⟩
    · have := hn l k hc
      have := hrank l
      omega
  | succ n ih =>
    intro t ht hn
    rcases h.goes_on ht with hstep | ⟨u, l, k, hc, hu⟩
    · exact ⟨t, .refl, ht, hstep⟩
    · obtain ⟨v, hv, hv', hstep⟩ := ih u (h.busy hu) fun m k' hm => by
        have hup := h.order hm l hu
        have := hn l k hc
        omega
      exact ⟨v, .head ⟨l, k, hc, hu⟩ hv, hv', hstep⟩

end Safety

end LockOrder
