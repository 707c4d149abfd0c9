import MarsAllocator.Steps.Tables

namespace Mars

open LinearProbe

section Reader

variable {σ : Shared} {reg : List (Nat × Descriptor)} {past : List Descriptor} {p installed : Nat}
  {x : Nat × Descriptor} {l : Looking}

/-- The first checks of a lookup cannot end at the caller-supplied span. -/
def Passing (σ : Shared) (installed p : Nat) : Looking → Prop
  | .userLo u => u = installed ∧ ¬ ((σ.desc u).lo ≤ p ∧ p < (σ.desc u).hi)
  | .userHi u => u = installed ∧ ¬ p < (σ.desc u).hi
  | _ => True

/-- A lookup on its way to the registered span `x`. -/
def Chasing (σ : Shared) (x : Nat × Descriptor) (p : Nat) : Looking → Prop
  | .span t i probes => t < σ.mapped ∧ ∃ d e, (σ.table t).LeadsAt (unitOf p) x.1 d ∧ e ≤ d ∧
      i = (slotFor (unitOf p) (σ.table t).cap + e) % (σ.table t).cap ∧
      probes + e = (σ.table t).cap
  | .unit t i probes s => t < σ.mapped ∧ ∃ d e, (σ.table t).LeadsAt (unitOf p) x.1 d ∧ e ≤ d ∧
      i = (slotFor (unitOf p) (σ.table t).cap + e) % (σ.table t).cap ∧
      probes + 1 + e = (σ.table t).cap ∧ ((σ.table t).slot i).span ≠ 0 ∧
      if e = d then s = x.1 else ((σ.table t).slot i).unit ≠ unitOf p
  | .again _ => False
  | .magic s | .lo s | .hi s | .returned s => s = x.1
  | _ => True

/-- A lookup on its way to the caller-supplied span. -/
def Settling (installed : Nat) : Looking → Prop
  | .idle | .user => True
  | .userLo u | .userHi u | .returned u => u = installed
  | _ => False

/-- A lookup of an address whose unit no span has ever covered. -/
def Missing (σ : Shared) (p : Nat) : Looking → Prop
  | .span t _ _ => t < σ.mapped
  | .unit t i _ _ => t < σ.mapped ∧ ((σ.table t).slot i).span ≠ 0 ∧
      ((σ.table t).slot i).unit ≠ unitOf p
  | .magic _ | .lo _ | .hi _ => False
  | .returned s => s = 0
  | _ => True

theorem next_slot {cap h e : Nat} (hcap : ∃ k, cap = 2 ^ k) :
    ((h + e) % cap + 1) &&& (cap - 1) = (h + (e + 1)) % cap := by
  obtain ⟨k, rfl⟩ := hcap
  rw [Nat.and_two_pow_sub_one_eq_mod, step_eq]

theorem Passing.load (h : Passing σ installed p l) (hu : σ.user = 0 ∨ σ.user = installed ∧
    ¬ ((σ.desc installed).lo ≤ p ∧ p < (σ.desc installed).hi)) :
    Passing σ installed p (lookStep σ p l) := by
  cases l with
  | user =>
    rw [lookStep]
    split
    · rename_i hne
      rcases hu with h0 | ⟨rfl, hout⟩
      · exact absurd h0 hne
      · exact ⟨rfl, hout⟩
    · trivial
  | userLo u =>
    rw [lookStep]
    split
    · rename_i hlo
      exact ⟨h.1, fun hhi => h.2 ⟨hlo, hhi⟩⟩
    · trivial
  | span t i probes =>
    cases probes with
    | zero => trivial
    | succ probes =>
      simp only [lookStep]
      split
      · trivial
      · split <;> trivial
  | userHi | unit | again | magic | lo | hi =>
    simp only [lookStep]
    split <;> trivial
  | idle | index | returned => trivial

theorem Chasing.load (h : Chasing σ x p l) (hpass : Passing σ installed p l)
    (hw : σ.Whole reg past) (hx : x ∈ reg) (hunit : x.2.HasUnit (unitOf p))
    (hdesc : σ.desc x.1 = x.2) (hmagic : x.2.magic = spanMagicFor x.1) (hlo : x.2.lo ≤ p)
    (hhi : p < x.2.hi) (hidle : l ≠ .idle) : Chasing σ x p (lookStep σ p l) := by
  cases l with
  | idle => exact absurd rfl hidle
  | user =>
    rw [lookStep]
    split <;> trivial
  | userLo u =>
    rw [lookStep]
    split <;> trivial
  | userHi u =>
    rw [lookStep, if_neg hpass.2]
    trivial
  | index =>
    obtain ⟨d, hd⟩ := hw.served x hx _ hunit
    obtain ⟨k, hk⟩ := hw.pow σ.current
    have hlt : slotFor (unitOf p) (σ.table σ.current).cap < (σ.table σ.current).cap :=
      slotFor_lt _ hk
    refine ⟨hw.current, d, 0, hd, Nat.zero_le _, ?_, Nat.add_zero _⟩
    rw [Nat.add_zero, Nat.mod_eq_of_lt hlt]
  | span t i probes =>
    obtain ⟨ht, d, e, hd, hed, rfl, hprobes⟩ := h
    cases probes with
    | zero =>
      have := hd.lt
      omega
    | succ probes =>
      simp only [lookStep]
      rcases Nat.eq_or_lt_of_le hed with rfl | hlt
      · have hspan : ((σ.table t).slot ((slotFor (unitOf p) (σ.table t).cap + e) %
            (σ.table t).cap)).span = x.1 := by rw [hd.entry]
        rw [hspan, if_neg hd.real.1, if_neg hd.real.2]
        exact ⟨ht, e, e, hd, le_rfl, rfl, by omega, by rw [hspan]; exact hd.real.1,
          by rw [if_pos rfl]⟩
      · have hpassed := hd.passed e hlt
        rw [UnitSlot.stops, Bool.or_eq_false_iff, beq_eq_false_iff_ne,
          Bool.and_eq_false_iff] at hpassed
        rw [if_neg hpassed.1]
        split
        · exact ⟨ht, d, e + 1, hd, hlt, next_slot (hw.pow t), by omega⟩
        · rename_i htomb
          refine ⟨ht, d, e, hd, hed, rfl, by omega, hpassed.1, ?_⟩
          rw [if_neg hlt.ne]
          simpa [htomb] using hpassed.2
  | unit t i probes s =>
    obtain ⟨ht, d, e, hd, hed, rfl, hprobes, hspan, hs⟩ := h
    simp only [lookStep]
    rcases Nat.eq_or_lt_of_le hed with rfl | hlt
    · rw [if_pos rfl] at hs
      rw [if_pos (by rw [hd.entry])]
      exact hs
    · rw [if_neg hlt.ne] at hs
      rw [if_neg hs]
      exact ⟨ht, d, e + 1, hd, hlt, next_slot (hw.pow t), by omega⟩
  | again t => exact h.elim
  | magic s =>
    obtain rfl : s = x.1 := h
    rw [lookStep, hdesc, if_neg (not_not.mpr hmagic)]
    rfl
  | lo s =>
    obtain rfl : s = x.1 := h
    rw [lookStep, hdesc, if_pos hlo]
    rfl
  | hi s =>
    obtain rfl : s = x.1 := h
    rw [lookStep, hdesc, if_pos hhi]
    rfl
  | returned s => exact h

theorem Settling.load (h : Settling installed l) (huser : σ.user = installed)
    (hreal : installed ≠ 0) (hlo : (σ.desc installed).lo ≤ p) (hhi : p < (σ.desc installed).hi) :
    Settling installed (lookStep σ p l) := by
  cases l with
  | user =>
    rw [lookStep, if_pos (by rw [huser]; exact hreal)]
    exact huser
  | userLo u =>
    obtain rfl : u = installed := h
    rw [lookStep, if_pos hlo]
    rfl
  | userHi u =>
    obtain rfl : u = installed := h
    rw [lookStep, if_pos hhi]
    rfl
  | idle | returned s => exact h
  | _ => exact h.elim

theorem Missing.load (h : Missing σ p l) (hpass : Passing σ installed p l)
    (hw : σ.Whole reg past) (hno : ∀ d ∈ past, ¬ d.HasUnit (unitOf p)) :
    Missing σ p (lookStep σ p l) := by
  cases l with
  | user =>
    rw [lookStep]
    split <;> trivial
  | userLo u =>
    rw [lookStep]
    split <;> trivial
  | userHi u =>
    rw [lookStep, if_neg hpass.2]
    trivial
  | index => exact hw.current
  | span t i probes =>
    cases probes with
    | zero => trivial
    | succ probes =>
      simp only [lookStep]
      split
      · trivial
      · rename_i hspan
        split
        · exact h
        · refine ⟨h, hspan, fun he => ?_⟩
          obtain ⟨d, hd, hunit⟩ := hw.filed t i hspan
          rw [he] at hunit
          exact hno d hd hunit
  | unit t i probes s =>
    rw [lookStep, if_neg h.2.2]
    exact h.1
  | again t =>
    rw [lookStep]
    split
    · rfl
    · trivial
  | idle | returned s => exact h
  | _ => exact h.elim

theorem Chasing.write {w : Write} (h : Chasing σ x p l) (hw : σ.Allows reg past w) (hx : x ∈ reg) :
    Chasing (σ.write w) x p l := by
  have hmapped : σ.mapped ≤ (σ.write w).mapped := by
    cases w <;> simp [Shared.write, Shared.setSlot]
  cases l with
  | span t i probes =>
    obtain ⟨ht, d, e, hd, hed, hi, hprobes⟩ := h
    have hcap := (hw.slot ht (j := 0)).1
    exact ⟨by omega, d, e, hw.leadsAt ht hx hd, hed, by rw [hcap]; exact hi,
      by rw [hcap]; exact hprobes⟩
  | unit t i probes s =>
    obtain ⟨ht, d, e, hd, hed, hi, hprobes, hspan, hs⟩ := h
    obtain ⟨hcap, hkeep⟩ := hw.slot ht (j := i)
    obtain ⟨hunit, hspan'⟩ := hkeep hspan
    refine ⟨by omega, d, e, hw.leadsAt ht hx hd, hed, by rw [hcap]; exact hi,
      by rw [hcap]; exact hprobes, ?_, by rw [hunit]; exact hs⟩
    rcases hspan' with he | ⟨he, -⟩
    · rw [he]
      exact hspan
    · rw [he]
      decide
  | _ => exact h

theorem Missing.write {w : Write} (h : Missing σ p l) (hw : σ.Allows reg past w) :
    Missing (σ.write w) p l := by
  have hmapped : σ.mapped ≤ (σ.write w).mapped := by
    cases w <;> simp [Shared.write, Shared.setSlot]
  cases l with
  | span t i probes =>
    have ht : t < σ.mapped := h
    exact Nat.lt_of_lt_of_le ht hmapped
  | unit t i probes s =>
    obtain ⟨ht, hspan, hunit⟩ := h
    obtain ⟨hunit', hspan'⟩ := (hw.slot ht (j := i)).2 hspan
    refine ⟨by omega, ?_, by rw [hunit']; exact hunit⟩
    rcases hspan' with he | ⟨he, -⟩
    · rw [he]
      exact hspan
    · rw [he]
      decide
  | _ => exact h

end Reader

/-- A caller-supplied span and a mapping that have no byte in common. -/
def Descriptor.Beside (d d' : Descriptor) : Prop :=
  d.hi ≤ d'.mapBase ∨ d'.mapBase + d'.mapSize ≤ d.lo

instance (d d' : Descriptor) : Decidable (d.Beside d') := inferInstanceAs (Decidable (_ ∨ _))

/-- Mappings are disjoint while they are live, one writer at a time holds `g_index_lock`, and a
descriptor is written to before its span is registered or after it no longer is; the static one of
caller-supplied memory is written to by `mm_init`, with no lookup under way. -/
def LookupEvent.Proper (ρ : LookupRun) : LookupEvent → Prop
  | .register s =>
      if (ρ.shared.desc s).kind = .user then
        s = ρ.installed ∧ ∀ x ∈ ρ.outcome, (ρ.shared.desc s).Beside x.2
      else ρ.pending = [] ∧ (ρ.shared.desc s).Mapped s ∧
        (∀ x ∈ ρ.registered, x.1 ≠ s ∧ (ρ.shared.desc s).Apart x.2) ∧
        (ρ.shared.user ≠ 0 → (ρ.shared.desc ρ.installed).Beside (ρ.shared.desc s))
  | .unregister s =>
      (ρ.shared.desc s).kind ≠ .user → ρ.pending = [] ∧ ∃ x ∈ ρ.registered, x.1 = s
  | .field s f _ => (∀ x ∈ ρ.outcome, x.1 ≠ s) ∧
      (s = ρ.installed →
        ρ.shared.user = 0 ∧ ρ.looking.resting = true ∧ f ≠ .chunk ∧ f ≠ .large)
  | .lookup _ => ρ.looking.resting = true
  | .write | .load => True

instance (ρ : LookupRun) (e : LookupEvent) : Decidable (e.Proper ρ) :=
  match e with
  | .register _ => inferInstanceAs (Decidable (ite _ _ _))
  | .unregister _ => inferInstanceAs (Decidable (_ → _))
  | .field _ _ _ => inferInstanceAs (Decidable (_ ∧ _))
  | .lookup _ => inferInstanceAs (Decidable (_ = _))
  | .write | .load => inferInstanceAs (Decidable True)

inductive LookupReached : LookupRun → Prop
  | start (desc : Nat → Descriptor) (supply : List Bool) (installed : Nat)
      (hu : (desc installed).kind = .user) (h0 : installed ≠ 0) :
      LookupReached (LookupRun.start desc supply installed)
  | next {ρ ρ' : LookupRun} (hr : LookupReached ρ) (e : LookupEvent) (he : e.Proper ρ)
      (hn : ρ.next e = some ρ') : LookupReached ρ'

/-- Where the events lead, one by one, as long as each of them is proper. -/
def LookupRun.play (ρ : LookupRun) : List LookupEvent → Option LookupRun
  | [] => some ρ
  | e :: rest => if e.Proper ρ then (ρ.next e).bind fun ρ' => ρ'.play rest else none

theorem LookupReached.play {ρ ρ' : LookupRun} {events : List LookupEvent} (hr : LookupReached ρ)
    (hp : ρ.play events = some ρ') : LookupReached ρ' := by
  induction events generalizing ρ with
  | nil => exact Option.some.inj hp ▸ hr
  | cons e rest ih =>
    rw [LookupRun.play] at hp
    split at hp
    · obtain ⟨ρ₁, hn, hp⟩ := Option.bind_eq_some_iff.mp hp
      exact ih (hr.next e ‹_› hn) hp
    · exact absurd hp nofun

/-- The index files exactly the units of the spans listed. -/
structure Shared.Settled (reg : List (Nat × Descriptor)) (σ : Shared) : Prop where
  kept : σ.registry.Kept
  files : ∀ u s, σ.registry.index.Files u s ↔ ∃ x ∈ reg, x.1 = s ∧ x.2.HasUnit u

namespace LookupRun

/-- Whatever a writer still has to do, it may do, and it will have done what it set out to do. -/
structure Going (ρ : LookupRun) : Prop where
  whole : ρ.shared.Whole ρ.registered ρ.past
  steady : Shared.Steady ρ.registered ρ.past ρ.shared ρ.pending
  settled : (ρ.shared.run ρ.pending).Settled ρ.outcome
  sub : ∀ x ∈ ρ.registered, x ∈ ρ.outcome
  described : ∀ x ∈ ρ.outcome, ρ.shared.desc x.1 = x.2
  mapped : ∀ x ∈ ρ.outcome, x.2.Mapped x.1
  apart : ∀ x ∈ ρ.outcome, ∀ y ∈ ρ.outcome, x.1 ≠ y.1 → x.2.Apart y.2
  kind : (ρ.shared.desc ρ.installed).kind = .user
  real : ρ.installed ≠ 0
  user : ρ.shared.user = 0 ∨ ρ.shared.user = ρ.installed ∧
    (∀ x ∈ ρ.outcome, (ρ.shared.desc ρ.installed).Beside x.2) ∧
    ρ.shared.desc ρ.installed ∈ ρ.installs

/-- What a lookup may have come to. -/
structure Tracked (ρ : LookupRun) : Prop where
  since : ∀ x ∈ ρ.since, x ∈ ρ.registered
  userSince : ρ.userSince = true → ρ.shared.user ≠ 0
  idle : ρ.looking = .idle → ρ.since = []
  chasing : ∀ x ∈ ρ.since, x.2.lo ≤ ρ.address → ρ.address < x.2.hi →
    Passing ρ.shared ρ.installed ρ.address ρ.looking ∧ Chasing ρ.shared x ρ.address ρ.looking
  settling : ρ.userSince = true → (ρ.shared.desc ρ.installed).lo ≤ ρ.address →
    ρ.address < (ρ.shared.desc ρ.installed).hi → Settling ρ.installed ρ.looking
  missing : (∀ d ∈ ρ.past, ¬ d.HasUnit (unitOf ρ.address)) →
    (∀ d ∈ ρ.installs, ¬ ∃ q, d.lo ≤ q ∧ q < d.hi ∧ unitOf q = unitOf ρ.address) →
    Passing ρ.shared ρ.installed ρ.address ρ.looking ∧ Missing ρ.shared ρ.address ρ.looking

/-- The lock is free exactly when nothing is left to store. -/
structure Sound (ρ : LookupRun) : Prop where
  going : ρ.Going
  tracked : ρ.Tracked
  idle : ρ.pending = [] → ρ.registered = ρ.outcome

variable {ρ : LookupRun}

theorem sound_start {desc : Nat → Descriptor} {supply : List Bool} {installed : Nat}
    (hu : (desc installed).kind = .user) (h0 : installed ≠ 0) :
    (start desc supply installed).Sound := by
  have hempty : ∀ x, x ∉ ([] : List (Nat × Descriptor)) := fun x => List.not_mem_nil
  refine ⟨⟨⟨fun _ => ⟨10, rfl⟩, Nat.zero_lt_one, fun x hx => absurd hx (hempty x), ?_⟩, trivial,
    ⟨Registry.kept_start desc supply, fun u s => ?_⟩, fun x hx => hx, fun x hx => absurd hx (hempty x),
    fun x hx => absurd hx (hempty x), fun x hx => absurd hx (hempty x), hu, h0, .inl rfl⟩, ?_,
    fun _ => rfl⟩
  · intro t i hne
    exact absurd rfl hne
  · refine iff_of_false (Index.blank_files _) ?_
    rintro ⟨x, hx, -⟩
    exact hempty x hx
  · exact ⟨fun x hx => hx, fun h => absurd h Bool.false_ne_true, fun _ => rfl,
      fun x hx => absurd hx (hempty x), fun h => absurd h Bool.false_ne_true, fun _ _ => ⟨trivial, trivial⟩⟩

theorem Sound.settle (h : ρ.Going) (ht : ρ.Tracked) : ρ.settle.Sound := by
  rw [LookupRun.settle]
  split
  · rename_i hp
    have hs := h.settled
    rw [hp] at hs
    refine ⟨⟨⟨h.whole.pow, h.whole.current, ?_, h.whole.filed⟩, ?_, h.settled, fun x hx => hx,
      h.described, h.mapped, h.apart, h.kind, h.real, h.user⟩, ⟨fun x hx => h.sub x (ht.since x hx),
      ht.userSince, ht.idle, ht.chasing, ht.settling, ht.missing⟩, fun _ => rfl⟩
    · exact fun x hx u hu => hs.kept.good.leads ((hs.files u x.1).mpr ⟨x, hx, rfl, hu⟩)
    · simp only [hp]
      trivial
  · exact ⟨h, ht, fun hp => absurd hp ‹_›⟩

end LookupRun

theorem Shared.write_aside (σ : Shared) (f : Nat → Descriptor) (v : Nat) (w : Write) :
    Shared.write { σ with desc := f, user := v } w = { σ.write w with desc := f, user := v } := by
  cases w <;> rfl

theorem Shared.run_aside (σ : Shared) (f : Nat → Descriptor) (v : Nat) (ws : List Write) :
    Shared.run { σ with desc := f, user := v } ws = { σ.run ws with desc := f, user := v } := by
  induction ws generalizing σ with
  | nil => rfl
  | cons w ws ih => exact (congrArg (Shared.run · ws) (σ.write_aside f v w)).trans (ih (σ.write w))

theorem Shared.steady_aside {reg : List (Nat × Descriptor)} {past : List Descriptor} (σ : Shared)
    (f : Nat → Descriptor) (v : Nat) (ws : List Write) (h : Shared.Steady reg past σ ws) :
    Shared.Steady reg past { σ with desc := f, user := v } ws := by
  induction ws generalizing σ with
  | nil => trivial
  | cons w ws ih =>
    refine ⟨?_, ?_⟩
    · have hw := h.1
      cases w <;> exact hw
    · rw [Shared.write_aside]
      exact ih _ h.2

theorem Shared.Settled.aside {reg : List (Nat × Descriptor)} {σ : Shared} (h : σ.Settled reg)
    (f : Nat → Descriptor) (v : Nat) : Shared.Settled reg { σ with desc := f, user := v } :=
  ⟨⟨h.kept.good, h.kept.used, h.kept.live, h.kept.room⟩, h.files⟩

theorem chasing_aside {σ : Shared} {x : Nat × Descriptor} {p : Nat} {l : Looking}
    (h : Chasing σ x p l) (f : Nat → Descriptor) (v : Nat) :
    Chasing { σ with desc := f, user := v } x p l := by
  cases l <;> exact h

theorem missing_aside {σ : Shared} {p : Nat} {l : Looking} (h : Missing σ p l)
    (f : Nat → Descriptor) (v : Nat) : Missing { σ with desc := f, user := v } p l := by
  cases l <;> exact h

theorem passing_aside {σ σ' : Shared} {installed p : Nat} {l : Looking}
    (h : Passing σ installed p l)
    (hd : l.resting = false → σ'.desc installed = σ.desc installed) :
    Passing σ' installed p l := by
  cases l with
  | userLo u =>
    obtain ⟨rfl, hout⟩ := h
    exact ⟨rfl, by rw [hd rfl]; exact hout⟩
  | userHi u =>
    obtain ⟨rfl, hout⟩ := h
    exact ⟨rfl, by rw [hd rfl]; exact hout⟩
  | _ => trivial

namespace LookupRun

variable {ρ : LookupRun}

theorem Going.aside (h : ρ.Going) {f : Nat → Descriptor} {v : Nat} (installs : List Descriptor)
    (userSince : Bool) (hf : ∀ x ∈ ρ.outcome, f x.1 = ρ.shared.desc x.1)
    (hkind : (f ρ.installed).kind = .user)
    (huser : v = 0 ∨ v = ρ.installed ∧ (∀ x ∈ ρ.outcome, (f ρ.installed).Beside x.2) ∧
      f ρ.installed ∈ installs) :
    Going { ρ with
      shared := { ρ.shared with desc := f, user := v }
      installs := installs
      userSince := userSince } where
  whole := ⟨h.whole.pow, h.whole.current, h.whole.served, h.whole.filed⟩
  steady := ρ.shared.steady_aside f v _ h.steady
  settled := by
    change (Shared.run { ρ.shared with desc := f, user := v } ρ.pending).Settled ρ.outcome
    rw [Shared.run_aside]
    exact h.settled.aside f v
  sub := h.sub
  described := fun x hx => (hf x hx).trans (h.described x hx)
  mapped := h.mapped
  apart := h.apart
  kind := hkind
  real := h.real
  user := huser

theorem Sound.install (hρ : ρ.Sound) {s : Nat} (he : (LookupEvent.register s).Proper ρ)
    (hk : (ρ.shared.desc s).kind = .user) : ∃ ρ', ρ.register s = some ρ' ∧ ρ'.Sound := by
  have h := hρ.going
  have ht := hρ.tracked
  rw [LookupEvent.Proper, if_pos hk] at he
  obtain ⟨rfl, hbeside⟩ := he
  have hnext : ρ.register ρ.installed = some { ρ with
      shared := { ρ.shared with user := ρ.installed }
      installs := ρ.shared.desc ρ.installed :: ρ.installs } := if_pos hk
  refine ⟨_, hnext, ?_, ⟨ht.since, fun _ => h.real, ht.idle, ?_, ht.settling, fun hno hno' => ?_⟩,
    hρ.idle⟩
  · exact h.aside (f := ρ.shared.desc) (v := ρ.installed) _ _ (fun _ _ => rfl) h.kind
      (.inr ⟨rfl, hbeside, List.mem_cons_self⟩)
  · exact fun x hx hlo hhi => ⟨passing_aside (ht.chasing x hx hlo hhi).1 fun _ => rfl,
      chasing_aside (ht.chasing x hx hlo hhi).2 ρ.shared.desc ρ.installed⟩
  · have hm := ht.missing hno fun d hd => hno' d (List.mem_cons_of_mem _ hd)
    exact ⟨passing_aside hm.1 fun _ => rfl, missing_aside hm.2 ρ.shared.desc ρ.installed⟩

theorem Sound.remove (hρ : ρ.Sound) {s : Nat} (hk : (ρ.shared.desc s).kind = .user) :
    (ρ.unregister s).Sound := by
  have h := hρ.going
  have ht := hρ.tracked
  rw [unregister, if_pos hk]
  split
  · refine ⟨h.aside (f := ρ.shared.desc) (v := 0) _ _ (fun _ _ => rfl) h.kind (.inl rfl), ⟨ht.since,
      fun hf => absurd hf Bool.false_ne_true, ht.idle, ?_, fun hf => absurd hf Bool.false_ne_true,
      fun hno hno' => ?_⟩, hρ.idle⟩
    · exact fun x hx hlo hhi => ⟨passing_aside (ht.chasing x hx hlo hhi).1 fun _ => rfl,
        chasing_aside (ht.chasing x hx hlo hhi).2 ρ.shared.desc 0⟩
    · have hm := ht.missing hno hno'
      exact ⟨passing_aside hm.1 fun _ => rfl, missing_aside hm.2 ρ.shared.desc 0⟩
  · exact hρ

theorem Sound.field (hρ : ρ.Sound) {s v : Nat} {f : DescriptorField}
    (he : (LookupEvent.field s f v).Proper ρ) :
    ∃ ρ', ρ.next (.field s f v) = some ρ' ∧ ρ'.Sound := by
  have h := hρ.going
  have ht := hρ.tracked
  obtain ⟨hout, hinst⟩ := he
  have hdesc : ∀ t, t ≠ s → Function.update ρ.shared.desc s ((ρ.shared.desc s).set v f) t =
      ρ.shared.desc t := fun t ht => Function.update_of_ne ht _ _
  have hlisted : ∀ x ∈ ρ.outcome, Function.update ρ.shared.desc s ((ρ.shared.desc s).set v f) x.1 =
      ρ.shared.desc x.1 := fun x hx => hdesc x.1 (hout x hx)
  have hpass : ρ.looking.resting = false →
      Function.update ρ.shared.desc s ((ρ.shared.desc s).set v f) ρ.installed =
        ρ.shared.desc ρ.installed := by
    intro hl
    refine hdesc _ fun hs => ?_
    have hrest := (hinst hs.symm).2.1
    rw [hl] at hrest
    exact absurd hrest Bool.false_ne_true
  refine ⟨_, rfl, ?_, ⟨ht.since, ht.userSince, ht.idle, ?_, ?_, fun hno hno' => ?_⟩, hρ.idle⟩
  · by_cases hs : s = ρ.installed
    · subst hs
      obtain ⟨hu, -, hchunk, hlarge⟩ := hinst rfl
      refine h.aside ρ.installs ρ.userSince hlisted ?_ (.inl hu)
      rw [Function.update_self]
      cases f with
      | chunk => exact absurd rfl hchunk
      | large => exact absurd rfl hlarge
      | _ => exact h.kind
    · have hi := hdesc ρ.installed (Ne.symm hs)
      refine h.aside ρ.installs ρ.userSince hlisted
        (by rw [hi]; exact h.kind) ?_
      rw [hi]
      exact h.user
  · exact fun x hx hlo hhi => ⟨passing_aside (ht.chasing x hx hlo hhi).1 hpass,
      chasing_aside (ht.chasing x hx hlo hhi).2 _ ρ.shared.user⟩
  · intro hu hlo hhi
    have hs : ρ.installed ≠ s := fun hs => ht.userSince hu (hinst hs.symm).1
    change (Function.update ρ.shared.desc s _ ρ.installed).lo ≤ ρ.address at hlo
    change ρ.address < (Function.update ρ.shared.desc s _ ρ.installed).hi at hhi
    rw [hdesc _ hs] at hlo hhi
    exact ht.settling hu hlo hhi
  · have hm := ht.missing hno hno'
    exact ⟨passing_aside hm.1 hpass, missing_aside hm.2 _ ρ.shared.user⟩

end LookupRun

namespace LookupRun

variable {ρ : LookupRun}

theorem Going.idle_settled (h : ρ.Going) (hp : ρ.pending = []) : ρ.shared.Settled ρ.outcome := by
  have hs := h.settled
  rw [hp] at hs
  exact hs

theorem fileable (h : ρ.Going) (hidle : ρ.registered = ρ.outcome) {s : Nat}
    (hm : (ρ.shared.desc s).Mapped s)
    (hap : ∀ x ∈ ρ.registered, x.1 ≠ s ∧ (ρ.shared.desc s).Apart x.2)
    (hfiles : ∀ u s, ρ.shared.registry.index.Files u s ↔
      ∃ x ∈ ρ.outcome, x.1 = s ∧ x.2.HasUnit u) {u : Nat}
    (hu : (ρ.shared.desc s).HasUnit u) (x : Nat) : ¬ ρ.shared.registry.index.Files u x := by
  intro hf
  obtain ⟨y, hy, -, hyu⟩ := (hfiles u x).mp hf
  exact (hap y (hidle ▸ hy)).2.units hm (h.mapped y hy) hu hyu

theorem Sound.file (hρ : ρ.Sound) {s : Nat} (he : (LookupEvent.register s).Proper ρ)
    (hk : (ρ.shared.desc s).kind ≠ .user) : ∃ ρ', ρ.register s = some ρ' ∧ ρ'.Sound := by
  have h := hρ.going
  have ht := hρ.tracked
  rw [LookupEvent.Proper, if_neg hk] at he
  obtain ⟨hp, hm, hap, hbeside⟩ := he
  have hout := hρ.idle hp
  have hs : ρ.shared.Settled ρ.outcome := h.idle_settled hp
  have hrange := fun u => unitCount_range (u := u) hm
  have hno : ∀ u, (ρ.shared.desc s).firstUnit ≤ u →
      u < (ρ.shared.desc s).firstUnit + (ρ.shared.desc s).unitCount →
      ∀ x, ¬ ρ.shared.registry.index.Files u x :=
    fun u h₁ h₂ => fileable h hout hm hap hs.files ((hrange u).mpr ⟨h₁, h₂⟩)
  have hl : Shared.Lists ρ.registered ρ.shared.registry := fun x hx u hu =>
    (hs.files u x.1).mpr ⟨x, h.sub x hx, rfl, hu⟩
  have hw : ρ.shared.Whole ρ.registered (ρ.shared.desc s :: ρ.past) :=
    ⟨h.whole.pow, h.whole.current, h.whole.served, fun t i hne =>
      (h.whole.filed t i hne).imp fun d hd => ⟨List.mem_cons_of_mem _ hd.1, hd.2⟩⟩
  have hbefore : ∀ u' x, ρ.shared.registry.index.Files u' x ↔
      ((ρ.shared.desc s).firstUnit ≤ u' ∧ u' < (ρ.shared.desc s).firstUnit ∧ x = s) ∨
        ρ.shared.registry.index.Files u' x :=
    fun u' x => ⟨.inr, fun hx => hx.resolve_left (by omega)⟩
  obtain ⟨ws, ok, hws, hseq, hsteady⟩ := Shared.addUnitsWrites_spec ρ.shared.registry
    (ρ.shared.desc s).firstUnit (ρ.shared.desc s).unitCount hm.real (fun y hy => (hap y hy).1) hno
    (fun u h₁ h₂ => ⟨_, List.mem_cons_self, (hrange u).mpr ⟨h₁, h₂⟩⟩) le_rfl hs.kept hw hl hbefore
  obtain ⟨r, ok', hseq', hkept, -, hfiles⟩ := Registry.addUnits_spec ρ.shared.registry
    hm.real hno le_rfl hs.kept ⟨rfl, rfl⟩ hbefore
  obtain ⟨rfl, rfl⟩ := Prod.mk.inj (Option.some.inj (hseq.symm.trans hseq'))
  have hnext : ρ.register s = some (LookupRun.settle { ρ with
      pending := ws
      outcome := if ok then (s, ρ.shared.desc s) :: ρ.registered else ρ.registered
      past := ρ.shared.desc s :: ρ.past }) := by
    have hreg : ρ.shared.registerWrites s = some (ws, ok) := hws
    refine (if_neg hk).trans ?_
    rw [hreg, Option.map_some]
  have hmem : ∀ x, x ∈ (if ok then (s, ρ.shared.desc s) :: ρ.registered else ρ.registered) ↔
      ok = true ∧ x = (s, ρ.shared.desc s) ∨ x ∈ ρ.registered := by
    intro x
    cases ok <;> simp
  refine ⟨_, hnext, .settle ⟨hw, hsteady, ⟨hkept, fun u x => ?_⟩, fun x hx => (hmem x).mpr (.inr hx),
    fun x hx => ?_, fun x hx => ?_, fun x hx y hy hxy => ?_, h.kind, h.real, ?_⟩ ⟨ht.since,
    ht.userSince, ht.idle, ht.chasing, ht.settling, fun hno' => ht.missing fun d hd =>
      hno' d (List.mem_cons_of_mem _ hd)⟩⟩
  · refine (hfiles u x).trans ?_
    rw [hs.files, ← hout]
    constructor
    · rintro (⟨hok, h₁, h₂, rfl⟩ | ⟨y, hy, rfl, hyu⟩)
      · exact ⟨_, (hmem _).mpr (.inl ⟨hok, rfl⟩), rfl, (hrange u).mpr ⟨h₁, h₂⟩⟩
      · exact ⟨y, (hmem y).mpr (.inr hy), rfl, hyu⟩
    · rintro ⟨y, hy, rfl, hyu⟩
      rcases (hmem y).mp hy with ⟨hok, rfl⟩ | hy
      · obtain ⟨h₁, h₂⟩ := (hrange u).mp hyu
        exact .inl ⟨hok, h₁, h₂, rfl⟩
      · exact .inr ⟨y, hy, rfl, hyu⟩
  · rcases (hmem x).mp hx with ⟨-, rfl⟩ | hx
    · rfl
    · exact h.described x (h.sub x hx)
  · rcases (hmem x).mp hx with ⟨-, rfl⟩ | hx
    · exact hm
    · exact h.mapped x (h.sub x hx)
  · rcases (hmem x).mp hx with ⟨-, rfl⟩ | hx
    · rcases (hmem y).mp hy with ⟨-, rfl⟩ | hy
      · exact absurd rfl hxy
      · exact (hap y hy).2
    · rcases (hmem y).mp hy with ⟨-, rfl⟩ | hy
      · exact (hap x hx).2.symm
      · exact h.apart x (h.sub x hx) y (h.sub y hy) hxy
  · refine h.user.imp id fun hu => ⟨hu.1, fun x hx => ?_, hu.2.2⟩
    rcases (hmem x).mp hx with ⟨-, rfl⟩ | hx
    · exact hbeside (by rw [hu.1]; exact h.real)
    · exact hu.2.1 x (h.sub x hx)

theorem mem_without {s : Nat} {l : List (Nat × Descriptor)} {x : Nat × Descriptor} :
    x ∈ without s l ↔ x ∈ l ∧ x.1 ≠ s := by
  rw [without, List.mem_filter, bne_iff_ne]

theorem Sound.drop (hρ : ρ.Sound) {s : Nat} (he : (LookupEvent.unregister s).Proper ρ)
    (hk : (ρ.shared.desc s).kind ≠ .user) : (ρ.unregister s).Sound := by
  have h := hρ.going
  have ht := hρ.tracked
  obtain ⟨hp, x₀, hx₀, hxs⟩ := he hk
  have hout := hρ.idle hp
  have hs : ρ.shared.Settled ρ.outcome := h.idle_settled hp
  have hdesc := h.described x₀ (h.sub x₀ hx₀)
  rw [hxs] at hdesc
  have hm := h.mapped x₀ (h.sub x₀ hx₀)
  rw [← hdesc, hxs] at hm
  have hrange := fun u => unitCount_range (u := u) hm
  -- the units of `s` are filed under `s` alone
  have hown : ∀ u, (ρ.shared.desc s).HasUnit u → ∀ y ∈ ρ.outcome, y.2.HasUnit u → y.1 = s := by
    intro u hu y hy hyu
    by_contra hne
    have hap := h.apart x₀ (h.sub x₀ hx₀) y hy (by rw [hxs]; exact Ne.symm hne)
    rw [← hdesc] at hap
    exact hap.units hm (h.mapped y hy) hu hyu
  obtain ⟨hreg, hsteady⟩ := Shared.delUnitsWrites_spec (without s ρ.registered)
    ρ.past (ρ.shared.desc s).unitCount (ρ.shared.desc s).firstUnit hs.kept
    (by
      intro u h₁ h₂ x hx y hy
      obtain ⟨z, hz, rfl, hzu⟩ := (hs.files u x).mp hx
      rw [hown u ((hrange u).mpr ⟨h₁, h₂⟩) z hz hzu]
      exact (mem_without.mp hy).2)
  obtain ⟨hkept, -, hfiles⟩ := Registry.delUnits_spec hs.kept (ρ.shared.desc s).unitCount
    (ρ.shared.desc s).firstUnit
  rw [unregister, if_neg hk]
  refine .settle ⟨⟨h.whole.pow, h.whole.current, fun x hx => h.whole.served x (mem_without.mp hx).1,
      h.whole.filed⟩, hsteady, ⟨?_, fun u x => ?_⟩, fun x hx => hx,
      fun x hx => h.described x (h.sub x (mem_without.mp hx).1),
      fun x hx => h.mapped x (h.sub x (mem_without.mp hx).1),
      fun x hx y hy => h.apart x (h.sub x (mem_without.mp hx).1) y (h.sub y (mem_without.mp hy).1),
      h.kind, h.real, h.user.imp id fun hu =>
        ⟨hu.1, fun x hx => hu.2.1 x (h.sub x (mem_without.mp hx).1), hu.2.2⟩⟩
    ⟨fun x hx => ?_, ht.userSince, fun hl => ?_, fun x hx => ht.chasing x (mem_without.mp hx).1,
      ht.settling, ht.missing⟩
  · change (ρ.shared.run (Shared.delUnitsWrites _ _ ρ.shared)).registry.Kept
    rw [hreg]
    exact hkept
  · change (ρ.shared.run (Shared.delUnitsWrites _ _ ρ.shared)).registry.index.Files u x ↔ _
    rw [hreg, hfiles, ← hrange, hs.files]
    constructor
    · rintro ⟨hno, y, hy, rfl, hyu⟩
      refine ⟨y, mem_without.mpr ⟨hout ▸ hy, fun hys => hno ?_⟩, rfl, hyu⟩
      have hyd := h.described y hy
      rw [hys] at hyd
      rw [hyd]
      exact hyu
    · rintro ⟨y, hy, rfl, hyu⟩
      obtain ⟨hy, hne⟩ := mem_without.mp hy
      exact ⟨fun hu => hne (hown u hu y (h.sub y hy) hyu), y, h.sub y hy, rfl, hyu⟩
  · obtain ⟨hx, hne⟩ := mem_without.mp hx
    exact mem_without.mpr ⟨ht.since x hx, hne⟩
  · change without s ρ.since = []
    rw [ht.idle hl]
    rfl

theorem Sound.store (hρ : ρ.Sound) : ρ.write.Sound := by
  have h := hρ.going
  have ht := hρ.tracked
  rw [LookupRun.write]
  rcases hp : ρ.pending with _ | ⟨w, ws⟩
  · exact hρ
  have hsteady := h.steady
  have hsettled := h.settled
  rw [hp] at hsteady hsettled
  have hdesc : (ρ.shared.write w).desc = ρ.shared.desc := by cases w <;> rfl
  have huser : (ρ.shared.write w).user = ρ.shared.user := by cases w <;> rfl
  have hpass : ∀ l p, Passing ρ.shared ρ.installed p l → Passing (ρ.shared.write w) ρ.installed p l :=
    fun l p hl => passing_aside hl fun _ => congrFun hdesc _
  refine .settle
    ⟨h.whole.write hsteady.1, hsteady.2, hsettled, h.sub, ?_, h.mapped, h.apart, ?_, h.real, ?_⟩
    ⟨ht.since, ?_, ht.idle, fun x hx hlo hhi => ?_, ?_, fun hno hno' => ?_⟩
  · rw [hdesc]
    exact h.described
  · rw [hdesc]
    exact h.kind
  · rw [hdesc, huser]
    exact h.user
  · rw [huser]
    exact ht.userSince
  · have hc := ht.chasing x hx hlo hhi
    exact ⟨hpass _ _ hc.1, hc.2.write hsteady.1 (ht.since x hx)⟩
  · rw [hdesc]
    exact ht.settling
  · have hm := ht.missing hno hno'
    exact ⟨hpass _ _ hm.1, hm.2.write hsteady.1⟩

theorem Sound.lookup (hρ : ρ.Sound) (p : Nat) : Sound { ρ with
    looking := .user
    address := p
    since := ρ.registered
    userSince := ρ.shared.user != 0 } := by
  have h := hρ.going
  refine ⟨⟨h.whole, h.steady, h.settled, h.sub, h.described, h.mapped, h.apart, h.kind, h.real,
    h.user⟩, ⟨fun x hx => hx, fun hu => bne_iff_ne.mp hu, fun hl => ?_, fun _ _ _ _ =>
    ⟨trivial, trivial⟩, fun _ _ _ => trivial, fun _ _ => ⟨trivial, trivial⟩⟩, hρ.idle⟩
  cases hl

theorem Sound.load (hρ : ρ.Sound) :
    Sound { ρ with looking := lookStep ρ.shared ρ.address ρ.looking } := by
  have h := hρ.going
  have ht := hρ.tracked
  refine ⟨⟨h.whole, h.steady, h.settled, h.sub, h.described, h.mapped, h.apart, h.kind, h.real,
    h.user⟩, ⟨ht.since, ht.userSince, fun hl => ?_, fun x hx hlo hhi => ?_, fun hu hlo hhi => ?_,
    fun hno hno' => ?_⟩, hρ.idle⟩
  · apply ht.idle
    cases hc : ρ.looking with
    | idle => rfl
    | span t i probes =>
      cases probes with
      | zero => simp [hc, lookStep] at hl
      | succ probes =>
        simp only [hc, lookStep] at hl
        split at hl
        · simp at hl
        · split at hl <;> simp at hl
    | index | returned s => simp [hc, lookStep] at hl
    | _ =>
      simp only [hc, lookStep] at hl
      split at hl <;> simp at hl
  · have hc := ht.chasing x hx hlo hhi
    have hreg := ht.since x hx
    have hm := h.mapped x (h.sub x hreg)
    refine ⟨hc.1.load ?_, hc.2.load hc.1 h.whole hreg (hasUnit_unitOf hm hlo hhi)
      (h.described x (h.sub x hreg)) hm.magic hlo hhi fun hl => ?_⟩
    · refine h.user.imp id fun hu => ⟨hu.1, ?_⟩
      have hbeside := hu.2.1 x (h.sub x hreg)
      have hbase := hm.base_le
      have hend := hm.le_end
      have hin : x.2.lo ≤ ρ.address ∧ ρ.address < x.2.hi := ⟨hlo, hhi⟩
      rw [Descriptor.Beside] at hbeside
      omega
    · have hs := ht.idle hl
      rw [hs] at hx
      exact absurd hx List.not_mem_nil
  · have huser := ht.userSince hu
    exact (ht.settling hu hlo hhi).load (h.user.resolve_left huser).1 h.real hlo hhi
  · have hm := ht.missing hno hno'
    refine ⟨hm.1.load (h.user.imp id fun hu => ⟨hu.1, fun hin => ?_⟩), hm.2.load hm.1 h.whole hno⟩
    exact hno' _ hu.2.2 ⟨ρ.address, hin.1, hin.2, rfl⟩

theorem Sound.next (h : ρ.Sound) {e : LookupEvent} (he : e.Proper ρ) :
    ∃ ρ', ρ.next e = some ρ' ∧ ρ'.Sound := by
  cases e with
  | register s =>
    by_cases hk : (ρ.shared.desc s).kind = .user
    · exact h.install he hk
    · exact h.file he hk
  | unregister s =>
    by_cases hk : (ρ.shared.desc s).kind = .user
    · exact ⟨_, rfl, h.remove hk⟩
    · exact ⟨_, rfl, h.drop he hk⟩
  | write => exact ⟨_, rfl, h.store⟩
  | field s f v => exact h.field he
  | lookup p => exact ⟨_, rfl, h.lookup p⟩
  | load => exact ⟨_, rfl, h.load⟩

end LookupRun

theorem LookupReached.sound {ρ : LookupRun} (h : LookupReached ρ) : ρ.Sound := by
  induction h with
  | start desc supply installed hu h0 => exact LookupRun.sound_start hu h0
  | next _ e he hn ih =>
    obtain ⟨ρ', hn', hs⟩ := ih.next he
    obtain rfl := Option.some.inj (hn.symm.trans hn')
    exact hs

def Returns (σ : Shared) (p : Nat) (l : Looking) : Prop :=
  ∃ n s, (lookStep σ p)^[n] l = .returned s

section Ends

variable {σ : Shared} {p : Nat} {l : Looking}

theorem Returns.step (h : Returns σ p (lookStep σ p l)) : Returns σ p l := by
  obtain ⟨n, s, hn⟩ := h
  exact ⟨n + 1, s, hn⟩

theorem returns_returned (s : Nat) : Returns σ p (.returned s) := ⟨0, s, rfl⟩

theorem returns_magic (s : Nat) : Returns σ p (.magic s) := by
  apply Returns.step
  rw [lookStep]
  split
  · exact returns_returned 0
  apply Returns.step
  rw [lookStep]
  split
  · apply Returns.step
    rw [lookStep]
    split <;> exact returns_returned _
  · exact returns_returned 0

theorem returns_span {t : Nat} (hagain : Returns σ p (.again t)) (i probes : Nat) :
    Returns σ p (.span t i probes) := by
  induction probes generalizing i with
  | zero => exact Returns.step hagain
  | succ probes ih =>
    apply Returns.step
    simp only [lookStep]
    split
    · exact hagain
    split
    · exact ih _
    apply Returns.step
    simp only [lookStep]
    split
    · exact returns_magic _
    · exact ih _

theorem returns_index : Returns σ p .index := by
  have hagain : Returns σ p (.again σ.current) := by
    apply Returns.step
    rw [lookStep, if_pos rfl]
    exact returns_returned 0
  exact Returns.step (returns_span hagain _ _)

theorem returns_again (t : Nat) : Returns σ p (.again t) := by
  apply Returns.step
  rw [lookStep]
  split
  · exact returns_returned 0
  · exact returns_index

theorem returns_userHi (u : Nat) : Returns σ p (.userHi u) := by
  apply Returns.step
  rw [lookStep]
  split
  · exact returns_returned u
  · exact returns_index

theorem returns_userLo (u : Nat) : Returns σ p (.userLo u) := by
  apply Returns.step
  rw [lookStep]
  split
  · exact returns_userHi u
  · exact returns_index

/-- However many lookups and writers there have been, a lookup that has begun returns as soon as the
writers leave it alone. -/
theorem lookup_ends (hl : l ≠ .idle) : Returns σ p l := by
  cases l with
  | idle => exact absurd rfl hl
  | user =>
    apply Returns.step
    rw [lookStep]
    split
    · exact returns_userLo _
    · exact returns_index
  | userLo u => exact returns_userLo u
  | userHi u => exact returns_userHi u
  | index => exact returns_index
  | span t i probes => exact returns_span (returns_again t) i probes
  | unit t i probes s =>
    apply Returns.step
    rw [lookStep]
    split
    · exact returns_magic s
    · exact returns_span (returns_again t) _ _
  | again t => exact returns_again t
  | magic s => exact returns_magic s
  | lo s =>
    apply Returns.step
    rw [lookStep]
    split
    · apply Returns.step
      rw [lookStep]
      split <;> exact returns_returned _
    · exact returns_returned 0
  | hi s =>
    apply Returns.step
    rw [lookStep]
    split <;> exact returns_returned _
  | returned s => exact returns_returned s

end Ends

/-- A lookup beside any number of writers returns the span that was registered all along, and
nothing where no span has ever covered the unit; no writer is kept from going on. -/
theorem lookup_meets_registry {ρ : LookupRun} (h : LookupReached ρ) :
    (∀ r, ρ.looking = .returned r →
      (∀ x ∈ ρ.since, x.2.lo ≤ ρ.address → ρ.address < x.2.hi → r = x.1) ∧
      (ρ.userSince = true → (ρ.shared.desc ρ.installed).lo ≤ ρ.address →
        ρ.address < (ρ.shared.desc ρ.installed).hi → r = ρ.installed) ∧
      ((∀ d ∈ ρ.past, ¬ d.HasUnit (unitOf ρ.address)) →
        (∀ d ∈ ρ.installs, ¬ ∃ q, d.lo ≤ q ∧ q < d.hi ∧ unitOf q = unitOf ρ.address) → r = 0)) ∧
    (∀ x ∈ ρ.since, x ∈ ρ.registered ∧ ρ.shared.desc x.1 = x.2) ∧
    (ρ.looking ≠ .idle → Returns ρ.shared ρ.address ρ.looking) ∧
    ∀ e : LookupEvent, e.Proper ρ → (ρ.next e).isSome := by
  have hs := h.sound
  refine ⟨fun r hr => ⟨fun x hx hlo hhi => ?_, fun hu hlo hhi => ?_, fun hno hno' => ?_⟩,
    fun x hx => ?_, lookup_ends, fun e he => ?_⟩
  · have hc := (hs.tracked.chasing x hx hlo hhi).2
    rw [hr] at hc
    exact hc
  · have hc := hs.tracked.settling hu hlo hhi
    rw [hr] at hc
    exact hc
  · have hc := (hs.tracked.missing hno hno').2
    rw [hr] at hc
    exact hc
  · have hreg := hs.tracked.since x hx
    exact ⟨hreg, hs.going.described x (hs.going.sub x hreg)⟩
  · obtain ⟨ρ', hn, -⟩ := hs.next he
    rw [hn]
    rfl

/-- A span that a lookup may meet, another one, and caller-supplied memory that is not installed. -/
def besideDesc (s : Nat) : Descriptor :=
  if s = 8 then { oneChunk with kind := .user } else if s = 8192 then wideNext else oneChunk

/-- One span is registered and another one is being registered, store by store, while the first one
is looked up. -/
def besides : List LookupEvent :=
  [.register 4096, .write, .write, .write, .register 8192, .write, .lookup 10485768, .load, .write,
    .load, .write, .load, .write, .load, .write, .load, .load, .write, .load]

theorem besides_played : ((LookupRun.start besideDesc [] 8).play besides).isSome = true := by
  decide +kernel

def lookedUp : LookupRun := ((LookupRun.start besideDesc [] 8).play besides).get besides_played

theorem lookup_meets_registry_chunk :
    lookedUp.pending.length = 3 ∧ lookedUp.since = [(4096, oneChunk)] ∧
      ∀ x ∈ lookedUp.since, x.2.lo ≤ lookedUp.address → lookedUp.address < x.2.hi → 4096 = x.1 := by
  have hr := (LookupReached.start besideDesc [] 8 rfl (by decide)).play
    (Option.some_get besides_played).symm
  have hend : lookedUp.looking = .returned 4096 := by decide +kernel
  exact ⟨by decide +kernel, by decide +kernel, ((lookup_meets_registry hr).1 4096 hend).1⟩

end Mars
