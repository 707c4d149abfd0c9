import MarsAllocator.Model.Adoption
import Mathlib.Data.List.Induction

namespace Mars

namespace Arenas

/-- An arena other than the main one is in the pool exactly when no thread has claimed it, and the
threads in `called` have arenas of the present epoch. -/
structure Kept (called : Nat → Bool) (σ : Arenas) : Prop where
  pool : ∀ a, a ∈ σ.orphans ↔ 0 < a ∧ a < σ.count ∧ (σ.arena a).claimed = false
  once : σ.orphans.Nodup
  count : 0 < σ.count
  self : ∀ t a, σ.self t = some a → a < σ.count
  key : ∀ t a, σ.key t = some a → a < σ.count
  current : ∀ t, called t = true → ∃ a, σ.self t = some a ∧ (σ.arena a).epoch = σ.epoch
  mainEpoch : (σ.arena mainArena).claimed = true → (σ.arena mainArena).epoch = σ.epoch
  main : (σ.arena mainArena).growable = true → (σ.arena mainArena).claimed = true
  alone : (σ.arena mainArena).growable = false → σ.count = 1

theorem kept_start : start.Kept (fun _ => false) where
  pool := by
    intro a
    simp only [start, List.not_mem_nil, false_iff]
    omega
  once := List.nodup_nil
  count := Nat.zero_lt_one
  self := by simp [start]
  key := by simp [start]
  current := fun _ h => absurd h Bool.false_ne_true
  mainEpoch := by simp [start, blankArena]
  main := by simp [start, blankArena]
  alone := fun _ => rfl

variable {σ : Arenas} {called : Nat → Bool} {t a : Nat}

theorem claim_arena (σ : Arenas) (t a b : Nat) :
    ((σ.claim t a true).arena b).claimed = (if b = a then true else (σ.arena b).claimed) ∧
    ((σ.claim t a true).arena b).epoch = (if b = a then σ.epoch else (σ.arena b).epoch) := by
  by_cases h : b = a
  · subst h
    simp only [claim, Function.update_self, if_true]
    split <;> exact ⟨rfl, rfl⟩
  · simp [claim, h]

theorem claim_main_growable (σ : Arenas) (t a : Nat) :
    ((σ.claim t a true).arena mainArena).growable = (σ.arena mainArena).growable := by
  by_cases h : mainArena = a
  · subst h
    simp [claim]
  · simp [claim, h]

theorem Kept.claim (hk : σ.Kept called) (ha : a < σ.count) (rest : List Nat)
    (hrest : ∀ b, b ∈ rest ↔ b ∈ σ.orphans ∧ b ≠ a) (hnd : rest.Nodup) (t : Nat) :
    (Arenas.claim { σ with orphans := rest } t a true).Kept called := by
  have harena := claim_arena { σ with orphans := rest } t a
  have hself : ∀ u, (Arenas.claim { σ with orphans := rest } t a true).self u =
      if u = t then some a else σ.self u := by
    intro u
    simp [Arenas.claim, Function.update_apply]
  have hgrow := claim_main_growable { σ with orphans := rest } t a
  constructor
  · intro b
    refine (hrest b).trans ?_
    rw [hk.pool, (harena b).1]
    by_cases hb : b = a
    · simp [hb]
    · simp only [hb, if_false, ne_eq, not_false_eq_true, and_true]
      rfl
  · exact hnd
  · exact hk.count
  · intro u b hu
    rw [hself] at hu
    split at hu
    · cases hu
      exact ha
    · exact hk.self u b hu
  · intro u b hu
    simp only [Arenas.claim, Function.update_apply] at hu
    split at hu
    · cases hu
      exact ha
    · exact hk.key u b hu
  · intro u hu
    rw [hself]
    split
    · exact ⟨a, rfl, by rw [(harena a).2, if_pos rfl]; rfl⟩
    · obtain ⟨b, hb, he⟩ := hk.current u hu
      refine ⟨b, hb, ?_⟩
      rw [(harena b).2]
      split
      · rfl
      · exact he
  · intro hm
    rw [(harena mainArena).2]
    split
    · rfl
    · rename_i hne
      rw [(harena mainArena).1, if_neg hne] at hm
      exact hk.mainEpoch hm
  · intro hg
    rw [hgrow] at hg
    rw [(harena mainArena).1]
    split
    · rfl
    · exact hk.main hg
  · intro hg
    rw [hgrow] at hg
    exact hk.alone hg

theorem Kept.arenaNew (hk : σ.Kept called) (hg : (σ.arena mainArena).growable = true) :
    Arenas.Kept called { σ.arenaNew with orphans := σ.count :: σ.orphans } := by
  have hold : ∀ b, b < σ.count → σ.arenaNew.arena b = σ.arena b := fun b hb =>
    Function.update_of_ne hb.ne _ _
  have hmain := hold mainArena hk.count
  have hcount : σ.arenaNew.count = σ.count + 1 := rfl
  constructor
  · intro b
    simp only [List.mem_cons, hk.pool, hcount]
    by_cases hb : b = σ.count
    · subst hb
      have hnew : (σ.arenaNew.arena σ.count).claimed = false := by simp [Arenas.arenaNew, blankArena]
      simp [hnew, hk.count]
    · constructor
      · rintro (rfl | ⟨h0, hlt, hc⟩)
        · exact absurd rfl hb
        · exact ⟨h0, by omega, by rw [hold b hlt]; exact hc⟩
      · rintro ⟨h0, hlt, hc⟩
        have hlt : b < σ.count := by omega
        rw [hold b hlt] at hc
        exact .inr ⟨h0, hlt, hc⟩
  · refine List.nodup_cons.mpr ⟨fun hin => ?_, hk.once⟩
    have := (hk.pool σ.count).mp hin
    omega
  · exact Nat.succ_pos _
  · exact fun u b hu => Nat.lt_succ_of_lt (hk.self u b hu)
  · exact fun u b hu => Nat.lt_succ_of_lt (hk.key u b hu)
  · intro u hu
    obtain ⟨b, hb, he⟩ := hk.current u hu
    exact ⟨b, hb, by rw [hold b (hk.self u b hb)]; exact he⟩
  · rw [hmain]
    exact hk.mainEpoch
  · rw [hmain]
    exact hk.main
  · rw [hmain, hg]
    exact fun hf => absurd hf (by decide)

inductive Adopts (σ : Arenas) (t : Nat) : Arenas → Prop
  | main (hg : (σ.arena mainArena).growable = false) : Adopts σ t (σ.claim t mainArena true)
  | shared (hg : (σ.arena mainArena).growable = false)
      (hc : (σ.arena mainArena).claimed = true) :
      Adopts σ t (σ.share t)
  | orphan (hg : (σ.arena mainArena).growable = true) {a : Nat} {rest : List Nat}
      (ho : σ.orphans = a :: rest) : Adopts σ t (Arenas.claim { σ with orphans := rest } t a true)
  | new (hg : (σ.arena mainArena).growable = true) (ho : σ.orphans = []) :
      Adopts σ t (σ.arenaNew.claim t σ.count true)

theorem Kept.adopts (hk : σ.Kept called) (t : Nat) : Adopts σ t (σ.arenaAdopt t true true) := by
  rw [arenaAdopt, choose]
  cases hc : (σ.arena mainArena).claimed with
  | false =>
    refine .main ?_
    by_contra hg
    have := hk.main (by simpa using hg)
    simp [hc] at this
  | true =>
    cases hg : (σ.arena mainArena).growable with
    | false => exact .shared hg hc
    | true =>
      rcases ho : σ.orphans with _ | ⟨a, rest⟩
      · exact .new hg ho
      · exact .orphan hg ho

theorem Kept.adopt (hk : σ.Kept called) (t : Nat) : (σ.arenaAdopt t true true).Kept called ∧
    ∃ a, (σ.arenaAdopt t true true).self t = some a ∧
      ((σ.arenaAdopt t true true).arena a).epoch = (σ.arenaAdopt t true true).epoch := by
  have hclaim : ∀ (σ : Arenas) a, ∃ b, (σ.claim t a true).self t = some b ∧
      ((σ.claim t a true).arena b).epoch = (σ.claim t a true).epoch := by
    intro σ a
    exact ⟨a, by simp [Arenas.claim], by rw [(claim_arena σ t a a).2, if_pos rfl]; rfl⟩
  have hadopts := hk.adopts t
  generalize σ.arenaAdopt t true true = σ' at hadopts ⊢
  cases hadopts with
  | main hg =>
    refine ⟨hk.claim hk.count σ.orphans (fun b => ?_) hk.once t, hclaim _ _⟩
    rw [hk.pool]
    constructor
    · intro hb
      exact ⟨hb, fun he => by rw [he] at hb; exact absurd hb.1 (by decide)⟩
    · exact fun hb => hb.1
  | shared hg hc =>
    refine ⟨⟨hk.pool, hk.once, hk.count, fun u b hu => ?_, hk.key, fun u hu => ?_, hk.mainEpoch,
      hk.main, hk.alone⟩, mainArena, by simp [share], hk.mainEpoch hc⟩
    · simp only [share, Function.update_apply] at hu
      split at hu
      · cases hu
        exact hk.count
      · exact hk.self u b hu
    · simp only [share, Function.update_apply]
      split
      · exact ⟨mainArena, rfl, hk.mainEpoch hc⟩
      · exact hk.current u hu
  | orphan hg ho =>
    rename_i a rest
    have hnd := hk.once
    rw [ho, List.nodup_cons] at hnd
    have ha : a ∈ σ.orphans := by rw [ho]; exact List.mem_cons_self
    refine ⟨hk.claim ((hk.pool a).mp ha).2.1 _ (fun b => ?_) hnd.2 t, hclaim _ _⟩
    rw [ho, List.mem_cons]
    constructor
    · intro hb
      exact ⟨.inr hb, fun he => hnd.1 (he ▸ hb)⟩
    · rintro ⟨rfl | hb, hne⟩
      · exact absurd rfl hne
      · exact hb
  | new hg ho =>
    have hnew := hk.arenaNew hg
    refine ⟨hnew.claim (a := σ.count) (Nat.lt_succ_self _) σ.orphans (fun b => ?_)
      hk.once t, hclaim _ _⟩
    rw [ho]
    simp

theorem Kept.enter (hk : σ.Kept called) (t : Nat) : (σ.enter t true true).Kept called ∧
    ∃ a, (σ.enter t true true).self t = some a ∧
      ((σ.enter t true true).arena a).epoch = (σ.enter t true true).epoch := by
  rw [Arenas.enter]
  split
  · exact hk.adopt t
  · rename_i had
    cases hs : σ.self t with
    | none => simp [Arenas.adopts, hs] at had
    | some a =>
      refine ⟨hk, a, rfl, ?_⟩
      simpa [Arenas.adopts, hs] using had

theorem Kept.onThreadExit (hk : σ.Kept called) {k : Option Nat}
    (hkey : ∀ a, k = some a → a < σ.count) : (σ.onThreadExit k).Kept called := by
  cases k with
  | none => exact hk
  | some a =>
    rw [Arenas.onThreadExit]
    split
    · exact hk
    rename_i hne
    split
    · rename_i hc
      have hother : ∀ b, b ≠ a →
          Function.update σ.arena a { σ.arena a with claimed := false } b = σ.arena b :=
        fun b hb => Function.update_of_ne hb _ _
      have hmain := hother mainArena (Ne.symm hne)
      have hepoch : ∀ b, (Function.update σ.arena a { σ.arena a with claimed := false } b).epoch =
          (σ.arena b).epoch := by
        intro b
        by_cases hb : b = a
        · rw [hb, Function.update_self]
        · rw [hother b hb]
      have hnot : a ∉ σ.orphans := by
        rw [hk.pool, hc]
        simp
      refine ⟨fun b => ?_, List.nodup_cons.mpr ⟨hnot, hk.once⟩, hk.count, hk.self, hk.key,
        fun u hu => ?_, fun hm => ?_, fun hg => ?_, fun hg => ?_⟩
      · rw [List.mem_cons]
        by_cases hb : b = a
        · subst hb
          simp only [Function.update_self, true_or, true_iff, and_true]
          exact ⟨Nat.pos_of_ne_zero hne, hkey b rfl⟩
        · simp only [Function.update_of_ne hb, hk.pool, hb, false_or]
      · obtain ⟨b, hb, he⟩ := hk.current u hu
        exact ⟨b, hb, (hepoch b).trans he⟩
      · exact (hepoch mainArena).trans
          (hk.mainEpoch ((congrArg ArenaState.claimed hmain).symm.trans hm))
      · exact (congrArg ArenaState.claimed hmain).trans
          (hk.main ((congrArg ArenaState.growable hmain).symm.trans hg))
      · exact hk.alone ((congrArg ArenaState.growable hmain).symm.trans hg)
    · exact hk

theorem init_orphans (σ : Arenas) (t b : Nat) :
    b ∈ (σ.initGrowable t true).orphans ↔ 0 < b ∧ b < σ.count := by
  change b ∈ (List.range σ.count).tail ↔ _
  rw [← List.drop_one, List.range_eq_range', List.drop_range', List.mem_range'_1]
  omega

theorem Kept.init (hk : σ.Kept called) (t : Nat) :
    (σ.initGrowable t true).Kept fun _ => false := by
  have hother : ∀ b, b ≠ mainArena → (σ.initGrowable t true).arena b = emptied (σ.arena b) := by
    intro b hb
    simp [initGrowable, install, arenasReset, hb]
  have hmain : (σ.initGrowable t true).arena mainArena =
      ⟨true, σ.epoch + 1, true, true, .managed⟩ := by
    simp [initGrowable, install, arenasReset, emptied]
  refine ⟨fun b => ?_, ?_, hk.count, fun u b hu => ?_, hk.key, fun u hu => absurd hu Bool.false_ne_true,
    fun _ => ?_, fun _ => ?_, fun hg => ?_⟩
  · refine (init_orphans σ t b).trans ?_
    by_cases hb : b = mainArena
    · subst hb
      simp only [mainArena]
      omega
    · simp only [hother b hb, emptied, and_true]
      rfl
  · exact (List.nodup_range).tail
  · change Function.update σ.self t (some mainArena) u = some b at hu
    rw [Function.update_apply] at hu
    split at hu
    · cases hu
      exact hk.count
    · exact hk.self u b hu
  · simp only [hmain]
    rfl
  · simp only [hmain]
  · simp only [hmain] at hg
    exact absurd hg (by decide)

theorem Kept.call (hk : σ.Kept called) (t : Nat) :
    (σ.enter t true true).Kept (Function.update called t true) := by
  obtain ⟨he, a, hs, hepoch⟩ := hk.enter t
  refine ⟨he.pool, he.once, he.count, he.self, he.key, fun u hu => ?_, he.mainEpoch, he.main,
    he.alone⟩
  by_cases hut : u = t
  · subst hut
    exact ⟨a, hs, hepoch⟩
  · simp only [Function.update_of_ne hut] at hu
    exact he.current u hu

theorem Kept.exit (hk : σ.Kept called) (t : Nat) : (σ.exit t).Kept called := by
  have he := hk.onThreadExit (hk.key t)
  exact ⟨he.pool, he.once, he.count, he.self, he.key, he.current, he.mainEpoch, he.main, he.alone⟩

theorem Kept.no_orphans (hk : σ.Kept called) (hg : (σ.arena mainArena).growable = false) :
    σ.orphans = [] := by
  rw [List.eq_nil_iff_forall_not_mem]
  intro a ha
  have hpool := (hk.pool a).mp ha
  have hcount := hk.alone hg
  omega

theorem Kept.adopts_growable (hk : σ.Kept called) {σ' : Arenas} (h : Adopts σ t σ') :
    (σ'.arena mainArena).growable = (σ.arena mainArena).growable := by
  cases h with
  | main | orphan => exact claim_main_growable _ t _
  | shared => rfl
  | new =>
    refine (claim_main_growable _ t σ.count).trans ?_
    exact congrArg ArenaState.growable (Function.update_of_ne hk.count.ne _ _)

theorem Kept.enter_growable (hk : σ.Kept called) (t : Nat) :
    ((σ.enter t true true).arena mainArena).growable = (σ.arena mainArena).growable := by
  rw [Arenas.enter]
  split
  · exact hk.adopts_growable (hk.adopts t)
  · rfl

end Arenas

namespace Process

variable {σ : Process} {t a : Nat}

theorem kept_next (hk : σ.Kept σ.called) (e : ThreadEvent) : (σ.next e).Kept (σ.next e).called := by
  cases e with
  | call t =>
    rw [Process.next]
    split
    · exact hk.call t
    · exact hk
  | exit t =>
    rw [Process.next]
    split
    · exact hk.exit t
    · exact hk
  | init t =>
    rw [Process.next]
    split
    · exact hk.init t
    · exact hk

/-- Threads that have called since the last initialisation work in arenas of their own, and the pool
holds no arena of such a thread, or, read strictly, of any live thread. -/
structure Apart (strict : Bool) (σ : Process) : Prop where
  own : (σ.arena mainArena).growable = true → ∀ t u, t ≠ u → σ.live t = true → σ.live u = true →
    σ.called t = true → σ.called u = true → σ.self t ≠ σ.self u
  pool : ∀ a ∈ σ.orphans, ∀ t, σ.live t = true → strict = true ∨ σ.called t = true →
    σ.self t ≠ some a

/-- The arena a thread keeps to is nobody else's; the one its key names is nobody's when it exits;
and, read strictly, no other thread has an arena to lose to the pool at an initialisation. -/
def Clean (strict : Bool) (σ : Process) : ThreadEvent → Prop
  | .call t => σ.live t = true → (σ.arena mainArena).growable = true → ∀ a, σ.keeps t a = true →
      a ∉ σ.orphans ∧ ∀ u, u ≠ t → σ.live u = true → σ.called u = true → σ.self u ≠ some a
  | .exit t => σ.live t = true → ∀ a, σ.key t = some a → a ≠ mainArena →
      ∀ u, u ≠ t → σ.live u = true → strict = true ∨ σ.called u = true → σ.self u ≠ some a
  | .init t => σ.live t = true → strict = true → ∀ u, u ≠ t → σ.live u = true → ∀ a,
      σ.self u = some a → a = mainArena

variable {strict : Bool}

theorem Apart.take (ha : σ.Apart strict) {τ : Process} (hlive : τ.live = σ.live)
    (hself : τ.self = Function.update σ.self t (some a))
    (hcalled : τ.called = Function.update σ.called t true)
    (hgrow : (τ.arena mainArena).growable = (σ.arena mainArena).growable)
    (hpool : ∀ b ∈ τ.orphans, b ∈ σ.orphans ∧ b ≠ a)
    (hother : ∀ u, u ≠ t → σ.live u = true → σ.called u = true → σ.self u ≠ some a) :
    τ.Apart strict := by
  constructor
  · intro hg u v huv hu hv hcu hcv
    rw [hgrow] at hg
    rw [hlive] at hu hv
    rw [hcalled] at hcu hcv
    rw [hself]
    by_cases hut : u = t
    · subst hut
      rw [Function.update_of_ne (Ne.symm huv)] at hcv
      rw [Function.update_self, Function.update_of_ne (Ne.symm huv)]
      exact Ne.symm (hother v (Ne.symm huv) hv hcv)
    · rw [Function.update_of_ne hut] at hcu ⊢
      by_cases hvt : v = t
      · subst hvt
        rw [Function.update_self]
        exact hother u hut hu hcu
      · rw [Function.update_of_ne hvt] at hcv ⊢
        exact ha.own hg u v huv hu hv hcu hcv
  · intro b hb u hu hc
    obtain ⟨hold, hne⟩ := hpool b hb
    rw [hlive] at hu
    rw [hcalled] at hc
    rw [hself]
    by_cases hut : u = t
    · subst hut
      rw [Function.update_self]
      exact fun he => hne (Option.some.inj he).symm
    · rw [Function.update_of_ne hut] at hc ⊢
      exact ha.pool b hold u hu hc

theorem apart_of_fixed (hk : σ.Kept σ.called) (hg : (σ.arena mainArena).growable = false) :
    σ.Apart strict := by
  refine ⟨fun h => ?_, fun a hin => ?_⟩
  · rw [hg] at h
    exact absurd h (by decide)
  · rw [hk.no_orphans hg] at hin
    exact absurd hin List.not_mem_nil

theorem Apart.adopted (hk : σ.Kept σ.called) (ha : σ.Apart strict)
    (hg : (σ.arena mainArena).growable = true) {σ' : Arenas} (h : Arenas.Adopts σ.toArenas t σ') :
    Process.Apart strict ⟨σ', Function.update σ.called t true⟩ := by
  cases h with
  | main hn | shared hn =>
    rw [hg] at hn
    exact absurd hn (by decide)
  | orphan _ ho =>
    rename_i a rest
    have hnd := hk.once
    rw [ho, List.nodup_cons] at hnd
    refine ha.take (a := a) rfl rfl rfl (Arenas.claim_main_growable _ t a) (fun b hb => ?_)
      fun u hu hl hc => ha.pool a (by rw [ho]; exact List.mem_cons_self) u hl (.inr hc)
    exact ⟨by rw [ho]; exact List.mem_cons_of_mem _ hb, fun he => hnd.1 (he ▸ hb)⟩
  | new _ ho =>
    refine ha.take (a := σ.count) rfl rfl rfl ?_ (fun b hb => ?_) fun u hu hl hc he => ?_
    · have hnew := hk.adopts_growable (Arenas.Adopts.new (t := t) hg ho)
      exact hnew
    · have hin : b ∈ σ.orphans := hb
      rw [ho] at hin
      exact absurd hin List.not_mem_nil
    · exact absurd (hk.self u σ.count he) (lt_irrefl _)

theorem keeps_iff : σ.keeps t a = true ↔ σ.self t = some a ∧ σ.adopts t = false := by
  rw [keeps, Arenas.adopts]
  cases σ.self t with
  | none => simp
  | some b =>
    simp only [Bool.and_eq_true, beq_iff_eq, Option.some.injEq, bne_eq_false_iff_eq]
    exact and_congr_right fun he => by rw [he]

theorem apart_call (hk : σ.Kept σ.called) (ha : σ.Apart strict) (t : Nat) :
    (σ.next (.call t)).Apart strict ↔ Clean strict σ (.call t) := by
  cases hl : σ.live t with
  | false =>
    rw [Process.next, hl]
    exact iff_of_true ha fun h => absurd (hl.symm.trans h) (by decide)
  | true =>
    have hnext : σ.next (.call t) =
        ⟨σ.enter t true true, Function.update σ.called t true⟩ := by
      rw [Process.next, if_pos hl]
    cases hg : (σ.arena mainArena).growable with
    | false =>
      refine iff_of_true ?_ fun _ h => ?_
      · apply apart_of_fixed (kept_next hk (.call t))
        rw [hnext]
        exact (hk.enter_growable t).trans hg
      · rw [hg] at h
        exact absurd h (by decide)
    | true =>
      rw [hnext, Arenas.enter]
      cases had : σ.adopts t with
      | true =>
        refine iff_of_true (Apart.adopted hk ha hg (hk.adopts t)) fun _ _ a hkeep => ?_
        exact absurd (had.symm.trans (keeps_iff.mp hkeep).2) (by decide)
      | false =>
        obtain ⟨a, hs⟩ : ∃ a, σ.self t = some a := by
          rw [← Option.isSome_iff_exists]
          by_contra hs
          simp only [Option.not_isSome_iff_eq_none] at hs
          simp [Arenas.adopts, hs] at had
        constructor
        · intro hap _ _ b hb
          obtain ⟨hsb, -⟩ := keeps_iff.mp hb
          refine ⟨fun hin => ?_, fun u hut hu hc hsu => ?_⟩
          · exact hap.pool b hin t hl (.inr (Function.update_self _ _ _)) hsb
          · exact hap.own hg u t hut hu hl ((Function.update_of_ne hut _ _).trans hc)
              (Function.update_self _ _ _) (hsu.trans hsb.symm)
        · intro hclean
          obtain ⟨hnot, hother⟩ := hclean hl hg a (keeps_iff.mpr ⟨hs, had⟩)
          refine ha.take (a := a) rfl ?_ rfl rfl (fun b hb => ⟨hb, fun he => hnot (he ▸ hb)⟩) hother
          exact (Function.update_eq_self_iff.mpr hs.symm).symm

theorem Apart.leave (ha : σ.Apart strict) (t : Nat) :
    Process.Apart strict { σ with live := Function.update σ.live t false } := by
  have hlive : ∀ u, Function.update σ.live t false u = true → u ≠ t ∧ σ.live u = true := by
    intro u hu
    by_cases h : u = t
    · rw [h, Function.update_self] at hu
      exact absurd hu Bool.false_ne_true
    · rw [Function.update_of_ne h] at hu
      exact ⟨h, hu⟩
  exact ⟨fun hg u v huv hu hv => ha.own hg u v huv (hlive u hu).2 (hlive v hv).2,
    fun a hin u hu => ha.pool a hin u (hlive u hu).2⟩

theorem apart_exit (hk : σ.Kept σ.called) (ha : σ.Apart strict) (t : Nat) :
    (σ.next (.exit t)).Apart strict ↔ Clean strict σ (.exit t) := by
  cases hl : σ.live t with
  | false =>
    rw [Process.next, hl]
    exact iff_of_true ha fun h => absurd (hl.symm.trans h) (by decide)
  | true =>
    have hnext : σ.next (.exit t) = ⟨σ.toArenas.exit t, σ.called⟩ := by
      rw [Process.next, if_pos hl]
    rw [hnext, Arenas.exit]
    cases hkey : σ.key t with
    | none =>
      refine iff_of_true (ha.leave t) fun _ a hka => ?_
      rw [hkey] at hka
      cases hka
    | some a =>
      rw [Arenas.onThreadExit]
      by_cases hmain : a = mainArena
      · rw [if_pos hmain]
        refine iff_of_true (ha.leave t) fun _ b hkb hb => ?_
        obtain rfl := Option.some.inj (hkey.symm.trans hkb)
        exact absurd hmain hb
      rw [if_neg hmain]
      cases hc : (σ.arena a).claimed with
      | false =>
        have hin : a ∈ σ.orphans :=
          (hk.pool a).mpr ⟨Nat.pos_of_ne_zero hmain, hk.key t a hkey, hc⟩
        refine iff_of_true (ha.leave t) fun _ b hkb _ u _ hu => ?_
        obtain rfl := Option.some.inj (hkey.symm.trans hkb)
        exact ha.pool a hin u hu
      | true =>
        simp only [if_true]
        constructor
        · intro hap _ b hkb _ u hut hu hcu
          obtain rfl := Option.some.inj (hkey.symm.trans hkb)
          exact hap.pool a List.mem_cons_self u ((Function.update_of_ne hut _ _).trans hu) hcu
        · intro hclean
          have hleft := ha.leave t
          refine ⟨fun hg => hleft.own ?_, fun b hb u hu hcu => ?_⟩
          · have hother : mainArena ≠ a := Ne.symm hmain
            simpa only [Function.update_of_ne hother] using hg
          · rcases List.mem_cons.mp hb with rfl | hb
            · by_cases hut : u = t
              · subst hut
                simp at hu
              · exact hclean hl b hkey hmain u hut ((Function.update_of_ne hut _ _).symm.trans hu) hcu
            · exact hleft.pool b hb u hu hcu

theorem apart_init (hk : σ.Kept σ.called) (ha : σ.Apart strict) (t : Nat) :
    (σ.next (.init t)).Apart strict ↔ Clean strict σ (.init t) := by
  cases hl : σ.live t with
  | false =>
    rw [Process.next, hl]
    exact iff_of_true ha fun h => absurd (hl.symm.trans h) (by decide)
  | true =>
    have hnext : σ.next (.init t) = ⟨σ.initGrowable t true, fun _ => false⟩ := by
      rw [Process.next, if_pos hl]
    rw [hnext]
    constructor
    · intro hap _ hstrict u hut hu a hs
      by_contra hne
      have hin := (Arenas.init_orphans σ.toArenas t a).mpr ⟨Nat.pos_of_ne_zero hne, hk.self u a hs⟩
      exact hap.pool a hin u hu (.inl hstrict) ((Function.update_of_ne hut _ _).trans hs)
    · intro hclean
      refine ⟨fun _ u v _ _ _ hcu => absurd hcu Bool.false_ne_true, fun a hin u hu hc => ?_⟩
      have ha0 := (Arenas.init_orphans σ.toArenas t a).mp hin
      have hstrict : strict = true := hc.resolve_right Bool.false_ne_true
      change Function.update σ.self t (some mainArena) u ≠ some a
      by_cases hut : u = t
      · subst hut
        rw [Function.update_self]
        intro he
        obtain rfl := Option.some.inj he
        exact absurd ha0.1 (by decide)
      · rw [Function.update_of_ne hut]
        intro hs
        obtain rfl := hclean hl hstrict u hut hu a hs
        exact absurd ha0.1 (by decide)

theorem apart_next (hk : σ.Kept σ.called) (ha : σ.Apart strict) (e : ThreadEvent) :
    (σ.next e).Apart strict ↔ Clean strict σ e := by
  cases e with
  | call t => exact apart_call hk ha t
  | exit t => exact apart_exit hk ha t
  | init t => exact apart_init hk ha t

theorem run_take (es : List ThreadEvent) {k : Nat} (h : k < es.length) :
    σ.run (es.take (k + 1)) = (σ.run (es.take k)).next es[k] := by
  rw [List.take_succ_eq_append_getElem h, run, List.foldl_append]
  rfl

theorem kept_run (es : List ThreadEvent) : (start.run es).Kept (start.run es).called := by
  induction es using List.reverseRecOn with
  | nil => exact Arenas.kept_start
  | append_singleton es e ih =>
    rw [run, List.foldl_append]
    exact kept_next ih e

theorem apart_start : start.Apart strict :=
  apart_of_fixed Arenas.kept_start rfl

end Process

/-- A run keeps its threads in arenas of their own exactly as long as every step is clean. -/
theorem own_arenas_iff (strict : Bool) (es : List ThreadEvent) :
    (∀ k ≤ es.length, (Process.start.run (es.take k)).Apart strict) ↔
      ∀ k, (h : k < es.length) → Process.Clean strict (Process.start.run (es.take k)) es[k] := by
  constructor
  · intro hap k h
    have hnext := hap (k + 1) h
    rw [Process.run_take es h] at hnext
    exact (Process.apart_next (Process.kept_run _) (hap k h.le) _).mp hnext
  · intro hclean k
    induction k with
    | zero => exact fun _ => Process.apart_start
    | succ k ih =>
      intro h
      rw [Process.run_take es h]
      exact (Process.apart_next (Process.kept_run _) (ih (by omega)) _).mpr (hclean k h)

/-- Thread 1 keeps to the arena that thread 2 has adopted from the pool. -/
theorem arena_shared_after_reinit :
    ¬ ∀ es, (Process.start.run es).Apart false := by
  intro h
  have hown := (h [.init 0, .call 1, .init 0, .call 2, .call 1]).own rfl 1 2 (by decide) rfl rfl rfl rfl
  exact hown rfl

end Mars
