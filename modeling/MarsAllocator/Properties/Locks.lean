import MarsAllocator.Model.Locking

namespace Mars.Locking

open LockOrder

def Lock.rank : Lock → Nat
  | arenas => 0
  | arena _ => 1
  | index => 2

abbrev Place := Here Lock (Option Nat)

variable {s : Place} {α : Type}

/-- Nothing held stands at the index lock. -/
def Outer (s : Place) : Prop := ∀ m ∈ s.held, m.rank < Lock.index.rank

theorem outer_nil (h : s.held = []) : Outer s := by
  intro m hm
  rw [h] at hm
  exact absurd hm List.not_mem_nil

theorem outer_arena {a : Nat} (h : s.held = [.arena a]) : Outer s := by
  intro m hm
  rw [h, List.mem_singleton] at hm
  rw [hm]
  exact Nat.lt_succ_self 1

theorem test_keeps : Keeps Lock.rank test s := keeps_bind keeps_decide fun _ => keeps_pure _

theorem span_desc_free_keeps (h : Outer s) : Keeps Lock.rank spanDescFree s :=
  keeps_guarded h (keeps_pure ())

theorem span_unregister_keeps (h : Outer s) (user : Bool) :
    Keeps Lock.rank (spanUnregister user) s :=
  keeps_ite (fun _ => keeps_pure ()) fun _ => keeps_guarded h (keeps_pure ())

theorem span_register_keeps (h : Outer s) (user : Bool) :
    Keeps Lock.rank (spanRegister user) s :=
  keeps_ite (fun _ => keeps_pure true) fun _ => keeps_guarded h test_keeps

theorem map_span_keeps (h : Outer s) : Keeps Lock.rank mapSpan s := by
  have hback : Keeps Lock.rank (do spanDescFree; pure false) s :=
    keeps_bind (span_desc_free_keeps h) fun _ => keeps_pure false
  refine keeps_bind test_keeps fun can => keeps_ite (fun _ => ?_) fun _ => keeps_pure false
  refine keeps_bind (keeps_guarded h test_keeps) fun desc =>
    keeps_ite (fun _ => ?_) fun _ => keeps_pure false
  refine keeps_bind test_keeps fun base => keeps_ite (fun _ => ?_) fun _ => hback
  exact keeps_bind (span_register_keeps h false) fun adopted =>
    keeps_ite (fun _ => keeps_pure true) fun _ => hback

theorem arena_grow_keeps (h : Outer s) : Keeps Lock.rank arenaGrow s :=
  keeps_bind test_keeps fun _ => keeps_ite (fun _ => map_span_keeps h) fun _ => keeps_pure false

theorem span_drop_keeps (h : Outer s) :
    Keeps Lock.rank (do spanUnregister false; spanDescFree) s :=
  keeps_bind (span_unregister_keeps h false) fun _ => span_desc_free_keeps h

theorem reclaim_keeps (h : Outer s) : Keeps Lock.rank reclaim s :=
  keeps_bind test_keeps fun _ => keeps_ite
    (fun _ => keeps_bind test_keeps fun _ =>
      keeps_ite (fun _ => span_drop_keeps h) fun _ => keeps_pure ())
    fun _ => keeps_pure ()

theorem arena_reset_keeps (h : Outer s) : Keeps Lock.rank arenaReset s :=
  keeps_bind keeps_decide fun spans => keeps_times
    (keeps_bind test_keeps fun _ =>
      keeps_ite (fun _ => span_unregister_keeps h true) fun _ => span_drop_keeps h) spans

theorem grow_for_keeps (h : Outer s) : Keeps Lock.rank growFor s :=
  keeps_bind test_keeps fun _ => keeps_ite
    (fun _ => keeps_bind test_keeps fun _ =>
      keeps_ite (fun _ => map_span_keeps h) fun _ => arena_grow_keeps h)
    fun _ => keeps_pure false

theorem malloc_unlocked_keeps (h : Outer s) : Keeps Lock.rank mallocUnlocked s := by
  refine keeps_bind test_keeps fun fits => keeps_ite (fun _ => ?_) fun _ => keeps_pure false
  have hfind : Keeps Lock.rank findOrGrow s := keeps_bind test_keeps fun found =>
    keeps_ite (fun _ => keeps_pure true) fun _ => grow_for_keeps h
  exact keeps_bind hfind fun got => keeps_ite (fun _ => test_keeps) fun _ => keeps_pure false

theorem free_unlocked_keeps (h : Outer s) : Keeps Lock.rank freeUnlocked s :=
  keeps_bind test_keeps fun _ => keeps_ite (fun _ => reclaim_keeps h) fun _ => keeps_pure ()

theorem memalign_unlocked_keeps (h : Outer s) : Keeps Lock.rank memalignUnlocked s := by
  refine keeps_bind (malloc_unlocked_keeps h) fun raw => keeps_bind test_keeps fun wide => ?_
  refine keeps_ite (fun _ => keeps_bind test_keeps fun cut => keeps_ite (fun _ => ?_) fun _ => ?_)
    fun _ => keeps_pure raw
  · exact keeps_bind (reclaim_keeps h) fun _ => keeps_pure true
  · exact keeps_bind (free_unlocked_keeps h) fun _ => keeps_pure false

theorem realloc_unlocked_keeps (h : Outer s) (null zero : Bool) :
    Keeps Lock.rank (reallocUnlocked null zero) s := by
  refine keeps_ite (fun _ => malloc_unlocked_keeps h) fun _ => keeps_ite (fun _ => ?_) fun _ => ?_
  · exact keeps_bind (free_unlocked_keeps h) fun _ => keeps_pure false
  · refine keeps_bind test_keeps fun inPlace => keeps_ite (fun _ => test_keeps) fun _ => ?_
    exact keeps_bind (malloc_unlocked_keeps h) fun fresh => keeps_ite
      (fun _ => keeps_bind (free_unlocked_keeps h) fun _ => keeps_pure true) fun _ => keeps_pure false

theorem remote_drain_keeps (h : Outer s) : Keeps Lock.rank remoteDrain s :=
  keeps_bind keeps_decide fun queued => keeps_times (free_unlocked_keeps h) queued

section Home

variable {entry : Option Nat}

/-- At work in arena `a`, the thread's own. -/
def Inside (entry : Option Nat) (a : Nat) (s : Place) : Prop :=
  s.held = [.arena a] ∧ Homed entry s

theorem below_arena (h : s.held = []) (l : Lock) : ∀ m ∈ s.held, m.rank < l.rank := by
  intro m hm
  rw [h] at hm
  exact absurd hm List.not_mem_nil

theorem arena_adopt_wp (h : s.held = []) :
    wp Lock.rank arenaAdopt (fun _ => Settled entry) s := by
  have hpick : Keeps Lock.rank (guarded Lock.arenas (decideNat : Locked Nat)) s :=
    keeps_guarded (below_arena h _) keeps_decide
  refine wp_bind.mpr (hpick.wp fun a => wp_bind.mpr ?_)
  change wp _ _ _ { s with reg := some a, moved := some (some a) }
  have hhome : Settled entry { s with reg := some a, moved := some (some a) } := ⟨h, rfl⟩
  refine (keeps_ite (fun _ => keeps_pure a) fun _ => ?_).wp fun _ => hhome
  refine keeps_bind test_keeps fun bare => keeps_ite (fun _ => ?_) fun _ => keeps_pure a
  have hgrow : Keeps Lock.rank (guarded (.arena a) arenaGrow)
      { s with reg := some a, moved := some (some a) } :=
    keeps_guarded (below_arena (s := { s with reg := some a, moved := some (some a) }) h _)
      (arena_grow_keeps (outer_arena (congrArg (Lock.arena a :: ·) h)))
  exact keeps_bind hgrow fun _ => keeps_pure a

theorem enter_wp (h : Settled entry s) : wp Lock.rank enter (Inside entry) s := by
  have hself : wp Lock.rank selfOrAdopt (fun _ => Settled entry) s := by
    have hreg : ∀ Q : Option Nat → _ → Prop, Q s.reg s → wp Lock.rank register Q s := fun _ h => h
    refine wp_bind.mpr (hreg _ ?_)
    cases s.reg with
    | none => exact arena_adopt_wp h.1
    | some a =>
      refine wp_bind.mpr (test_keeps.wp fun stale => ?_)
      cases stale with
      | true => exact arena_adopt_wp h.1
      | false => exact h
  refine wp_bind.mpr (wp_mono hself fun a s' hs' => wp_bind.mpr (wp_acquire (below_arena hs'.1 _) ?_))
  have hin : Inside entry a { s' with held := .arena a :: s'.held } :=
    ⟨congrArg (Lock.arena a :: ·) hs'.1, hs'.2⟩
  refine wp_bind.mpr (test_keeps.wp fun queued => ?_)
  cases queued with
  | false => exact hin
  | true => exact wp_bind.mpr ((remote_drain_keeps (outer_arena hin.1)).wp fun _ => hin)

theorem leave_wp {a : Nat} (h : Inside entry a s) :
    wp Lock.rank (leave a) (fun _ => Settled entry) s := wp_release h.1 ⟨rfl, h.2⟩

/-- At work in the arena of the guard, from which `leaveFor` leads home. -/
def Visiting (entry : Option Nat) (g : Guard) (s : Place) : Prop :=
  s.held = [.arena g.arena] ∧
    Homed entry (if g.swapped = true then { s with reg := g.saved } else s)

theorem enter_arena_wp (h : Settled entry s) (a : Nat) :
    wp Lock.rank (enterArena a) (Visiting entry) s := by
  refine wp_bind.mpr (wp_bind.mpr (wp_bind.mpr (wp_acquire ?_ ?_)))
  · exact below_arena (s := { s with reg := some a }) h.1 _
  · exact ⟨congrArg (Lock.arena a :: ·) h.1, h.2⟩

theorem enter_self_wp (h : Settled entry s) :
    wp Lock.rank (do
      let a ← enter
      pure { arena := a, saved := none, swapped := false }) (Visiting entry) s :=
  wp_bind.mpr (wp_mono (enter_wp h) fun _ _ hs' => hs')

theorem owner_of_keeps : Keeps Lock.rank ownerOf s := keeps_bind keeps_decide fun _ => keeps_pure _

theorem enter_for_wp (h : Settled entry s) : wp Lock.rank enterFor (Visiting entry) s := by
  refine wp_bind.mpr (owner_of_keeps.wp fun owner => wp_bind.mpr ?_)
  cases owner with
  | none => exact enter_self_wp h
  | some o =>
    change wp _ (if some o = s.reg then _ else _) _ s
    by_cases hself : some o = s.reg
    · rw [if_pos hself]
      exact enter_self_wp h
    · rw [if_neg hself]
      exact enter_arena_wp h o

theorem leave_for_wp {g : Guard} (h : Visiting entry g s) :
    wp Lock.rank (leaveFor g) (fun _ => Settled entry) s := by
  obtain ⟨hheld, hhome⟩ := h
  refine wp_bind.mpr (wp_release hheld ?_)
  cases hsw : g.swapped with
  | false =>
    rw [hsw] at hhome
    exact ⟨rfl, hhome⟩
  | true =>
    rw [hsw] at hhome
    exact ⟨rfl, hhome⟩

variable {work : Locked α}

theorem entered_wp (hwork : ∀ s : Place, Outer s → Keeps Lock.rank work s) (h : Settled entry s) :
    wp Lock.rank (entered work) (fun _ => Settled entry) s := by
  refine wp_bind.mpr (wp_mono (enter_wp h) fun a s' hs' => wp_bind.mpr ?_)
  refine (hwork s' (outer_arena hs'.1)).wp fun r => wp_bind.mpr ?_
  exact wp_mono (leave_wp hs') fun _ _ hs => hs

theorem entered_for_wp (hwork : ∀ s : Place, Outer s → Keeps Lock.rank work s)
    (h : Settled entry s) : wp Lock.rank (enteredFor work) (fun _ => Settled entry) s := by
  refine wp_bind.mpr (wp_mono (enter_for_wp h) fun g s' hs' => wp_bind.mpr ?_)
  refine (hwork s' (outer_arena hs'.1)).wp fun r => wp_bind.mpr ?_
  exact wp_mono (leave_for_wp hs') fun _ _ hs => hs

theorem each_arena_wp {work : Locked Unit}
    (hwork : ∀ s : Place, Outer s → Keeps Lock.rank work s)
    (h : Settled entry s) : wp Lock.rank (eachArena work) (fun _ => Settled entry) s := by
  refine wp_bind.mpr fun count => wp_forRange (fun a s hs => wp_bind.mpr ?_) count 0 h
  refine wp_mono (enter_arena_wp hs a) fun g s' hs' => wp_bind.mpr ?_
  exact (hwork s' (outer_arena hs'.1)).wp fun _ => leave_for_wp hs'

theorem checked_wp {call : Locked Unit} (hcall : wp Lock.rank call (fun _ => Settled entry) s)
    (h : Settled entry s) : wp Lock.rank (checked call) (fun _ => Settled entry) s := by
  refine wp_bind.mpr (test_keeps.wp fun ok => ?_)
  cases ok with
  | true => exact hcall
  | false => exact h

theorem free_wp (h : Settled entry s) : wp Lock.rank free (fun _ => Settled entry) s := by
  have hown : wp Lock.rank (entered freeUnlocked) (fun _ => Settled entry) s :=
    entered_wp (fun _ => free_unlocked_keeps) h
  refine wp_bind.mpr (test_keeps.wp fun null => ?_)
  cases null with
  | true => exact h
  | false =>
    refine wp_bind.mpr (owner_of_keeps.wp fun owner => wp_bind.mpr ?_)
    cases owner with
    | none => exact hown
    | some o =>
      change wp _ (if some o = s.reg then _ else _) _ s
      by_cases hself : some o = s.reg
      · rw [if_pos hself]
        exact hown
      · rw [if_neg hself]
        refine wp_bind.mpr (test_keeps.wp fun pushed => ?_)
        cases pushed with
        | true => exact h
        | false =>
          refine wp_bind.mpr (wp_acquire (below_arena h.1 _) (wp_bind.mpr (wp_bind.mpr ?_)))
          -- in the owner's arena, `mm_self` set aside
          have hin : Outer { s with held := .arena o :: s.held, reg := some o } :=
            outer_arena (congrArg (Lock.arena o :: ·) h.1)
          refine wp_bind.mpr ((remote_drain_keeps hin).wp fun _ => ?_)
          refine wp_bind.mpr ((free_unlocked_keeps hin).wp fun _ => wp_bind.mpr ?_)
          exact wp_release rfl ⟨h.1, h.2⟩

theorem malloc_wp (h : Settled entry s) : wp Lock.rank malloc (fun _ => Settled entry) s :=
  entered_wp (fun _ => malloc_unlocked_keeps) h

theorem realloc_foreign_wp (h : Settled entry s) :
    wp Lock.rank reallocForeign (fun _ => Settled entry) s := by
  refine wp_bind.mpr (wp_mono (entered_for_wp (fun _ _ => test_keeps) h) fun live s hs => ?_)
  cases live with
  | false => exact hs
  | true =>
    refine wp_bind.mpr (wp_mono (malloc_wp hs) fun fresh s hs => ?_)
    cases fresh with
    | false => exact hs
    | true => exact wp_bind.mpr (wp_mono (free_wp hs) fun _ _ hs => hs)

theorem realloc_wp (h : Settled entry s) : wp Lock.rank realloc (fun _ => Settled entry) s := by
  have hown : ∀ null zero,
      wp Lock.rank (entered (reallocUnlocked null zero)) (fun _ => Settled entry) s :=
    fun null zero => entered_wp (fun _ hs => realloc_unlocked_keeps hs null zero) h
  refine wp_bind.mpr (test_keeps.wp fun null => wp_bind.mpr (test_keeps.wp fun zero => ?_))
  by_cases hboth : null = false ∧ zero = false
  · rw [if_pos hboth]
    refine wp_bind.mpr (owner_of_keeps.wp fun owner => wp_bind.mpr ?_)
    cases owner with
    | none => exact hown _ _
    | some o =>
      change wp _ (if some o = s.reg then _ else _) _ s
      by_cases hself : some o = s.reg
      · rw [if_pos hself]
        exact hown _ _
      · rw [if_neg hself]
        exact realloc_foreign_wp h
  · rw [if_neg hboth]
    exact hown _ _

theorem arenas_reset_wp (h : Settled entry s) :
    wp Lock.rank arenasReset (fun _ => Settled entry) s := by
  refine wp_bind.mpr (wp_acquire (below_arena h.1 _) (wp_bind.mpr fun count => wp_bind.mpr ?_))
  have hloop : ∀ a (s : Place), s.held = [.arenas] → wp Lock.rank (do
      setRegister (some a)
      guarded (.arena a) arenaReset) (fun _ s => s.held = [.arenas]) s := by
    intro a s hs
    have hbelow : ∀ m ∈ s.held, m.rank < (Lock.arena a).rank := by
      intro m hm
      rw [hs, List.mem_singleton] at hm
      rw [hm]
      exact Nat.zero_lt_one
    have hout : Outer { s with held := .arena a :: s.held, reg := some a } := by
      intro m hm
      rcases List.mem_cons.mp hm with hm | hm
      · rw [hm]
        exact Nat.lt_succ_self 1
      · exact Nat.lt_succ_of_lt (hbelow m hm)
    have hreset : Keeps Lock.rank (guarded (.arena a) arenaReset) { s with reg := some a } :=
      keeps_guarded hbelow (arena_reset_keeps hout)
    exact wp_bind.mpr (hreset.wp fun _ => hs)
  refine wp_mono (wp_forRange hloop count 0 (congrArg (Lock.arenas :: ·) h.1)) fun _ s hs => ?_
  exact wp_bind.mpr (wp_release hs ⟨rfl, rfl⟩)

theorem init_wp (h : Settled entry s) : wp Lock.rank init (fun _ => Settled entry) s := by
  refine wp_bind.mpr (wp_mono (arenas_reset_wp h) fun _ s hs => wp_bind.mpr ?_)
  refine wp_mono (enter_wp hs) fun a s hs => wp_bind.mpr ?_
  exact (span_register_keeps (outer_arena hs.1) true).wp fun _ => leave_wp hs

theorem arena_init_growable_wp (h : Settled entry s) :
    wp Lock.rank arenaInitGrowable (fun _ => Settled entry) s :=
  wp_bind.mpr (wp_mono (arenas_reset_wp h) fun _ _ hs =>
    wp_bind.mpr ((map_span_keeps (outer_nil hs.1)).wp fun _ => hs))

theorem ask_wp {c : Locked α} (hc : wp Lock.rank c (fun _ => Settled entry) s) :
    wp Lock.rank (do let _ ← c) (fun _ => Settled entry) s :=
  wp_bind.mpr (wp_mono hc fun _ _ hs => hs)

theorem call_wp (call : Call) (h : Settled entry s) :
    wp Lock.rank call.code (fun _ => Settled entry) s := by
  have hlook : ∀ s : Place, Outer s → Keeps Lock.rank (pure () : Locked Unit) s :=
    fun _ _ => keeps_pure ()
  have hlist : wp Lock.rank (guarded .arenas (pure ())) (fun _ => Settled entry) s :=
    Keeps.wp (keeps_guarded (below_arena h.1 _) (keeps_pure ())) fun _ => h
  cases call with
  | init => exact checked_wp (init_wp h) h
  | arenaInitGrowable => exact checked_wp (arena_init_growable_wp h) h
  | malloc => exact ask_wp (malloc_wp h)
  | free => exact free_wp h
  | realloc => exact ask_wp (realloc_wp h)
  | memalign => exact ask_wp (entered_wp (fun _ => memalign_unlocked_keeps) h)
  | read | write => exact checked_wp (entered_for_wp hlook h) h
  | verify | usableSize => exact entered_for_wp hlook h
  | owns => exact ask_wp (owner_of_keeps.wp fun _ => h)
  | checkHeap | statsReset => exact each_arena_wp hlook h
  | statsGet | setMode => exact checked_wp (each_arena_wp hlook h) h
  | getMode | scrub | setScrubInterval => exact entered_wp hlook h
  | arenaCount => exact hlist
  | threadExit => exact checked_wp hlist h

end Home

variable {σ : Nat → Thread Lock (Option Nat)}

theorem reached_safe (h : LockOrder.Reached IsCall σ) : Safe Lock.rank σ := by
  refine h.safe ?_
  rintro c ⟨call, rfl⟩ s hheld hmoved
  refine call_wp call ⟨hheld, ?_⟩
  rw [Homed, hmoved]
  rfl

theorem Lock.rank_lt (l : Lock) : l.rank < 3 := by
  cases l with
  | arenas => exact Nat.zero_lt_succ 2
  | arena a => exact Nat.lt_succ_of_lt (Nat.lt_succ_self 1)
  | index => exact Nat.lt_succ_self 2

/-- No call deadlocks, whatever the others do. -/
theorem calls_never_deadlock (h : LockOrder.Reached IsCall σ) :
    (∀ t, (σ t).here.held.countP (Lock.rank · == Lock.rank (.arena 0)) ≤ 1) ∧
    (∀ t l k, (σ t).code = .lock l k → ∀ m ∈ (σ t).here.held, m.rank < l.rank) ∧
    (∀ t, ¬ Relation.TransGen (WaitsFor σ) t t) ∧
    (∀ t, (σ t).code ≠ .done () → ∃ u, Relation.ReflTransGen (WaitsFor σ) t u ∧
      (σ u).code ≠ .done () ∧ ∃ σ', Step IsCall σ σ' ∧ ∀ v, v ≠ u → σ' v = σ v) ∧
    (∀ t, (σ t).code = .done () → (σ t).here.held = [] ∧
      (σ t).here.reg = (σ t).here.moved.getD (σ t).entry) := by
  have hsafe := reached_safe h
  refine ⟨fun t => ?_, fun t l k ht => hsafe.order ht, hsafe.acyclic,
    fun t ht => hsafe.progress Lock.rank_lt ht, fun t ht => ?_⟩
  · exact count_rank_le_one (hsafe.sorted t) (Lock.arena 0).rank
  · have hdone := hsafe.goes t
    rw [ht] at hdone
    exact hdone

/-- A listed thread begins a call, or goes on with its code and chooses `n` if it is to choose. -/
inductive Turn where
  | begin (t : Nat) (call : Call)
  | go (t n : Nat)

abbrev Crew := List (Thread Lock (Option Nat))

namespace Crew

def threads (crew : Crew) (t : Nat) : Thread Lock (Option Nat) :=
  crew.getD t ⟨.done (), ⟨[], none, none⟩, none⟩

def idle (own : List (Option Nat)) : Crew := own.map fun r => ⟨.done (), ⟨[], r, none⟩, r⟩

def turn (crew : Crew) : Turn → Option Crew
  | .begin t call => do
    let th ← crew[t]?
    match th.code with
    | .done () => some (crew.set t ⟨call.code, { th.here with moved := none }, th.here.reg⟩)
    | _ => none
  | .go t n => do
    let th ← crew[t]?
    match th.code with
    | .done () => none
    | .lock l k =>
      if ∀ u ∈ crew, l ∉ u.here.held then
        some (crew.set t { th with code := k, here := { th.here with held := l :: th.here.held } })
      else none
    | .unlock l k =>
      match th.here.held with
      | [] => none
      | m :: rest =>
        if m = l then some (crew.set t { th with code := k, here := { th.here with held := rest } })
        else none
    | .get k => some (crew.set t { th with code := k th.here.reg })
    | .put r k => some (crew.set t { th with code := k, here := { th.here with reg := r } })
    | .move r k =>
      some (crew.set t { th with code := k, here := { th.here with reg := r, moved := some r } })
    | .choose k => some (crew.set t { th with code := k n })

def play (crew : Crew) : List Turn → Option Crew
  | [] => some crew
  | e :: rest => (crew.turn e).bind fun crew => Crew.play crew rest

variable {crew crew' : Crew}

theorem reached_idle (own : List (Option Nat)) :
    LockOrder.Reached IsCall (idle own).threads := by
  have hidle : (idle own).threads = fun t =>
      ⟨.done (), ⟨[], own.getD t none, none⟩, own.getD t none⟩ := by
    funext t
    by_cases ht : t < own.length
    all_goals simp [threads, idle, ht]
  rw [hidle]
  exact .start fun t => own.getD t none

theorem threads_eq {t : Nat} {th : Thread Lock (Option Nat)} (ht : crew[t]? = some th) :
    crew.threads t = th := by
  rw [threads, List.getD_eq_getElem?_getD, ht]
  rfl

theorem threads_set {t : Nat} {th : Thread Lock (Option Nat)} (ht : crew[t]? = some th)
    (x : Thread Lock (Option Nat)) :
    Crew.threads (crew.set t x) = Function.update crew.threads t x := by
  obtain ⟨hlt, -⟩ := List.getElem?_eq_some_iff.mp ht
  funext u
  by_cases hu : u = t
  · subst hu
    rw [Function.update_self, threads, List.getD_eq_getElem?_getD, List.getElem?_set_self hlt]
    rfl
  · rw [Function.update_of_ne hu, threads, threads, List.getD_eq_getElem?_getD,
      List.getD_eq_getElem?_getD, List.getElem?_set_ne (Ne.symm hu)]

theorem free_of_crew {l : Lock} (h : ∀ u ∈ crew, l ∉ u.here.held) (t : Nat) :
    l ∉ (crew.threads t).here.held := by
  rw [threads, List.getD_eq_getElem?_getD]
  cases ht : crew[t]? with
  | none => exact List.not_mem_nil
  | some th => exact h th (List.mem_of_getElem? ht)

theorem turn_step {e : Turn} (h : crew.turn e = some crew') :
    Step IsCall crew.threads crew'.threads := by
  cases e with
  | begin t call =>
    obtain ⟨th, ht, h⟩ := Option.bind_eq_some_iff.mp h
    obtain rfl := threads_eq ht
    split at h
    · rename_i hc
      rw [← Option.some.inj h, threads_set ht]
      exact .begin t call.code ⟨call, rfl⟩ hc
    · exact absurd h nofun
  | go t n =>
    obtain ⟨th, ht, h⟩ := Option.bind_eq_some_iff.mp h
    obtain rfl := threads_eq ht
    split at h
    · exact absurd h nofun
    · rename_i hc
      split at h
      · rename_i hfree
        rw [← Option.some.inj h, threads_set ht]
        exact .lock t hc (free_of_crew hfree)
      · exact absurd h nofun
    · rename_i hc
      split at h
      · exact absurd h nofun
      · rename_i hheld
        split at h
        · rename_i hm
          rw [← Option.some.inj h, threads_set ht]
          exact .unlock t hc (hm ▸ hheld)
        · exact absurd h nofun
    · rename_i hc
      rw [← Option.some.inj h, threads_set ht]
      exact .get t hc
    · rename_i hc
      rw [← Option.some.inj h, threads_set ht]
      exact .put t hc
    · rename_i hc
      rw [← Option.some.inj h, threads_set ht]
      exact .move t hc
    · rename_i hc
      rw [← Option.some.inj h, threads_set ht]
      exact .choose t n hc

theorem play_reached {turns : List Turn} (hr : LockOrder.Reached IsCall crew.threads)
    (h : crew.play turns = some crew') : LockOrder.Reached IsCall crew'.threads := by
  induction turns generalizing crew with
  | nil => exact Option.some.inj h ▸ hr
  | cons e rest ih =>
    obtain ⟨_, he, h⟩ := Option.bind_eq_some_iff.mp h
    exact ih (hr.next (turn_step he)) h

end Crew

/-- Thread 0 maps a span for arena 0 with the index locked, thread 1 is about to do so for arena 1,
thread 2 is about to check arena 0, thread 3 to reset it with the list of arenas locked, and thread
4 to count the arenas. -/
def crossingTurns : List Turn :=
  [.begin 0 .malloc, .go 0 0, .go 0 0, .go 0 0, .go 0 0, .go 0 1, .go 0 0, .go 0 1, .go 0 1, .go 0 1,
    .go 0 0,
    .begin 1 .malloc, .go 1 0, .go 1 0, .go 1 0, .go 1 0, .go 1 1, .go 1 0, .go 1 1, .go 1 1, .go 1 1,
    .begin 2 .checkHeap, .go 2 1, .go 2 0, .go 2 0,
    .begin 3 .init, .go 3 1, .go 3 0, .go 3 1, .go 3 0,
    .begin 4 .arenaCount]

theorem crossing_played :
    ((Crew.idle [some 0, some 1, some 0, some 0, some 0]).play crossingTurns).isSome = true := by
  decide +kernel

def crossing : Crew :=
  ((Crew.idle [some 0, some 1, some 0, some 0, some 0]).play crossingTurns).get crossing_played

theorem counting_threads_do_not_deadlock :
    WaitsFor crossing.threads 1 0 ∧ WaitsFor crossing.threads 2 0 ∧ WaitsFor crossing.threads 3 0 ∧
      WaitsFor crossing.threads 4 3 ∧ (crossing.threads 0).here.held = [.index, .arena 0] ∧
        (crossing.threads 1).here.held = [.arena 1] ∧
          ∀ t, ¬ Relation.TransGen (WaitsFor crossing.threads) t t := by
  have hr := Crew.play_reached (Crew.reached_idle [some 0, some 1, some 0, some 0, some 0])
    (Option.some_get crossing_played).symm
  exact ⟨⟨.index, _, rfl, by decide +kernel⟩, ⟨.arena 0, _, rfl, by decide +kernel⟩,
    ⟨.arena 0, _, rfl, by decide +kernel⟩, ⟨.arenas, _, rfl, by decide +kernel⟩, by decide +kernel,
    by decide +kernel, (calls_never_deadlock hr).2.2.1⟩

end Mars.Locking
