import MarsAllocator.Model.Modes
import Mathlib.Data.List.Induction

namespace Mars

namespace Arenas

variable {σ : Arenas} {t a : Nat}

/-- Every arena with a span has the same mode. -/
def OneMode (σ : Arenas) : Prop :=
  ∀ a < σ.count, ∀ b < σ.count, (σ.arena a).spans = true → (σ.arena b).spans = true →
    (σ.arena a).mode = (σ.arena b).mode

/-- No arena is given its first span in a mode that one with spans is not in. -/
def Agreeing (σ : Arenas) : ModeEvent → Prop
  | .call t made granted => σ.live t = true → σ.adopts t = true → granted = true →
      ∀ a, (σ.choose t made).1 = some a → a ≠ mainArena →
        ((σ.choose t made).2.arena a).spans = false →
          ∀ b < σ.count, (σ.arena b).spans = true → (σ.arena b).mode = σ.modeDefault
  | _ => True

/-- What is named is on the list of arenas. -/
structure Listed (σ : Arenas) : Prop where
  main : 0 < σ.count
  orphans : ∀ a ∈ σ.orphans, a < σ.count
  key : ∀ t a, σ.key t = some a → a < σ.count

theorem listed_start : start.Listed :=
  ⟨Nat.zero_lt_one, fun _ ha => absurd ha List.not_mem_nil, fun _ _ hk => nomatch hk⟩

theorem oneMode_start : start.OneMode := fun _ _ _ _ hs => nomatch hs

theorem Listed.key_update (hl : σ.Listed) (ha : a < σ.count) (t u b : Nat)
    (hk : Function.update σ.key t (some a) u = some b) : b < σ.count := by
  by_cases hut : u = t
  · rw [hut, Function.update_self] at hk
    exact Option.some.inj hk ▸ ha
  · rw [Function.update_of_ne hut] at hk
    exact hl.key u b hk

theorem Listed.choose (hl : σ.Listed) (t : Nat) (made : Bool) :
    (σ.choose t made).2.Listed ∧ ∀ a, (σ.choose t made).1 = some a → a < (σ.choose t made).2.count := by
  rw [Arenas.choose]
  split
  · exact ⟨hl, fun a ha => Option.some.inj ha ▸ hl.main⟩
  split
  · exact ⟨⟨hl.main, hl.orphans, hl.key⟩, fun a ha => nomatch ha⟩
  split
  · rename_i x rest hrest
    have hin : ∀ y ∈ x :: rest, y < σ.count := fun y hy => hl.orphans y (hrest ▸ hy)
    refine ⟨⟨hl.main, fun y hy => hin y (List.mem_cons_of_mem x hy), hl.key⟩, fun a ha => ?_⟩
    exact Option.some.inj ha ▸ hin x List.mem_cons_self
  · split
    · refine ⟨⟨Nat.succ_pos _, fun y hy => ?_, fun u b hk => ?_⟩, fun a ha => ?_⟩
      · exact Nat.lt_succ_of_lt (hl.orphans y hy)
      · exact Nat.lt_succ_of_lt (hl.key u b hk)
      · exact Option.some.inj ha ▸ Nat.lt_succ_self _
    · exact ⟨⟨hl.main, hl.orphans, hl.key⟩, fun a ha => nomatch ha⟩

theorem Listed.next (hl : σ.Listed) (e : ModeEvent) : (σ.next e).Listed := by
  cases e with
  | call t made granted =>
    rw [Arenas.next, enter, arenaAdopt]
    split
    · split
      · obtain ⟨hl', hc⟩ := hl.choose t made
        split
        · rename_i hσ
          rwa [hσ] at hl'
        · rename_i a σ' hσ
          rw [hσ] at hl' hc
          have ha := hc a rfl
          exact ⟨hl'.main, hl'.orphans, fun u b => hl'.key_update ha t u b⟩
      · exact hl
    · exact hl
  | exit t =>
    rw [Arenas.next]
    split
    · have hex : (σ.onThreadExit (σ.key t)).Listed := by
        rcases hk : σ.key t with _ | a
        · exact hl
        · rw [onThreadExit]
          split
          · exact hl
          split
          · refine ⟨hl.main, fun b hb => ?_, hl.key⟩
            rcases List.mem_cons.mp hb with rfl | hb
            · exact hl.key t b hk
            · exact hl.orphans b hb
          · exact hl
      exact ⟨hex.main, hex.orphans, hex.key⟩
    · exact hl
  | setMode t mode =>
    rw [Arenas.next]
    split
    · cases mode with
      | none => exact hl
      | some mode => exact ⟨hl.main, hl.orphans, hl.key⟩
    · exact hl
  | init t granted | initGrowable t granted =>
    rw [Arenas.next]
    split
    · refine ⟨hl.main, fun a ha => ?_, hl.key⟩
      exact List.mem_range.mp (List.mem_of_mem_tail ha)
    · exact hl

theorem choose_arena (σ : Arenas) (t : Nat) (made : Bool) {b : Nat} (hb : b < σ.count) :
    (σ.choose t made).2.arena b = σ.arena b := by
  rw [choose]
  split
  · rfl
  split
  · rfl
  split
  · rfl
  · split
    · exact Function.update_of_ne hb.ne _ _
    · rfl

theorem choose_default (σ : Arenas) (t : Nat) (made : Bool) :
    (σ.choose t made).2.modeDefault = σ.modeDefault := by
  rw [choose]
  split
  · rfl
  split
  · rfl
  split
  · rfl
  · split <;> rfl

theorem choose_spans (σ : Arenas) (t : Nat) (made : Bool) {b : Nat}
    (hb : b < (σ.choose t made).2.count) (hs : ((σ.choose t made).2.arena b).spans = true) :
    b < σ.count := by
  rw [choose] at hb hs
  split at hb
  · exact hb
  split at hb
  · exact hb
  split at hb
  · exact hb
  · rename_i h₁ h₂ _ hr
    rw [if_neg h₁, if_neg h₂, hr] at hs
    split at hb
    · refine Nat.lt_of_le_of_ne (Nat.lt_succ_iff.mp hb) fun he => ?_
      rename_i hm
      subst hm he
      rw [if_pos rfl, arenaNew] at hs
      dsimp only at hs
      rw [Function.update_self] at hs
      exact absurd hs (by decide)
    · exact hb

theorem claim_spans (σ : Arenas) (t a : Nat) (granted : Bool) (b : Nat) :
    ((σ.claim t a granted).arena b).spans =
        (if b = a ∧ a ≠ mainArena ∧ (σ.arena a).spans = false then granted else (σ.arena b).spans) ∧
      ((σ.claim t a granted).arena b).mode =
        (if b = a ∧ a ≠ mainArena ∧ (σ.arena a).spans = false then σ.modeDefault
          else (σ.arena b).mode) := by
  rw [claim]
  dsimp only
  by_cases hb : b = a
  · subst hb
    rw [Function.update_self]
    by_cases hc : b ≠ mainArena ∧ (σ.arena b).spans = false
    · rw [if_pos hc, if_pos ⟨rfl, hc⟩, if_pos ⟨rfl, hc⟩]
      exact ⟨rfl, rfl⟩
    · rw [if_neg hc, if_neg fun h => hc h.2, if_neg fun h => hc h.2]
      exact ⟨rfl, rfl⟩
  · rw [Function.update_of_ne hb, if_neg fun h => hb h.1, if_neg fun h => hb h.1]
    exact ⟨rfl, rfl⟩

theorem oneMode_call (hl : σ.Listed) (ho : σ.OneMode) (t : Nat) (made granted : Bool) :
    (σ.next (.call t made granted)).OneMode ↔ σ.Agreeing (.call t made granted) := by
  rw [next, Agreeing]
  by_cases hlive : σ.live t = true
  swap
  · rw [if_neg hlive]
    exact iff_of_true ho fun h => absurd h hlive
  by_cases had : σ.adopts t = true
  swap
  · rw [if_pos hlive, enter, if_neg had]
    exact iff_of_true ho fun _ h => absurd h had
  rw [if_pos hlive, enter, if_pos had, arenaAdopt]
  have hmode : ∀ b < (σ.choose t made).2.count, ((σ.choose t made).2.arena b).spans = true →
      b < σ.count ∧ (σ.choose t made).2.arena b = σ.arena b := fun b hb hs =>
    ⟨choose_spans σ t made hb hs, choose_arena σ t made (choose_spans σ t made hb hs)⟩
  have ho' : (σ.choose t made).2.OneMode := by
    intro a ha b hb hsa hsb
    obtain ⟨ha', hea⟩ := hmode a ha hsa
    obtain ⟨hb', heb⟩ := hmode b hb hsb
    rw [hea] at hsa ⊢
    rw [heb] at hsb ⊢
    exact ho a ha' b hb' hsa hsb
  have hd := choose_default σ t made
  have hin := (hl.choose t made).2
  have hold : ∀ b < σ.count, b < (σ.choose t made).2.count := by
    intro b hb
    rw [choose]
    split
    · exact hb
    split
    · exact hb
    split
    · exact hb
    · split
      · exact Nat.lt_succ_of_lt hb
      · exact hb
  have hkeep := fun b => choose_arena σ t made (b := b)
  rcases hσ : σ.choose t made with ⟨o, σ'⟩
  rw [hσ] at hmode ho' hd hin hold hkeep
  cases o with
  | none => exact iff_of_true ho' fun _ _ _ a h => nomatch h
  | some a =>
    dsimp only at hmode ho' hd hin hold hkeep ⊢
    have hc := claim_spans σ' t a granted
    have hcount : (σ'.claim t a granted).count = σ'.count := rfl
    by_cases hfirst : a ≠ mainArena ∧ (σ'.arena a).spans = false
    swap
    · -- the arena has what it needs, or is the main one
      have heq : ∀ b, ((σ'.claim t a granted).arena b).spans = (σ'.arena b).spans ∧
          ((σ'.claim t a granted).arena b).mode = (σ'.arena b).mode := by
        intro b
        obtain ⟨h₁, h₂⟩ := hc b
        rw [if_neg fun h => hfirst h.2] at h₁ h₂
        exact ⟨h₁, h₂⟩
      refine iff_of_true (fun x hx y hy hsx hsy => ?_) fun _ _ _ a' h' hm hs => ?_
      · rw [(heq x).1] at hsx
        rw [(heq y).1] at hsy
        rw [(heq x).2, (heq y).2]
        exact ho' x hx y hy hsx hsy
      · obtain rfl := Option.some.inj h'
        exact absurd ⟨hm, hs⟩ hfirst
    have hself : ((σ'.claim t a granted).arena a).spans = granted ∧
        ((σ'.claim t a granted).arena a).mode = σ.modeDefault := by
      obtain ⟨h₁, h₂⟩ := hc a
      rw [if_pos ⟨rfl, hfirst⟩] at h₁ h₂
      exact ⟨h₁, h₂.trans hd⟩
    have hothers : ∀ b, b ≠ a → ((σ'.claim t a granted).arena b).spans = (σ'.arena b).spans ∧
        ((σ'.claim t a granted).arena b).mode = (σ'.arena b).mode := by
      intro b hb
      obtain ⟨h₁, h₂⟩ := hc b
      rw [if_neg fun h => hb h.1] at h₁ h₂
      exact ⟨h₁, h₂⟩
    constructor
    · intro h _ _ hg a' h' hm hs b hb hsb
      obtain rfl := Option.some.inj h'
      have hne : b ≠ a := by
        rintro rfl
        rw [hkeep b hb] at hs
        exact absurd (hs.symm.trans hsb) (by decide)
      have hsb' : ((σ'.claim t a granted).arena b).spans = true := by
        rw [(hothers b hne).1, hkeep b hb]
        exact hsb
      have hba := h b (hold b hb) a (hin a rfl) hsb' (hself.1.trans hg)
      rw [(hothers b hne).2, hkeep b hb, hself.2] at hba
      exact hba
    · intro h x hx y hy hsx hsy
      have hval : ∀ b < σ'.count, ((σ'.claim t a granted).arena b).spans = true → granted = true →
          ((σ'.claim t a granted).arena b).mode = σ.modeDefault := by
        intro b hb hsb hg
        by_cases hba : b = a
        · rw [hba]
          exact hself.2
        · rw [(hothers b hba).1] at hsb
          obtain ⟨hb', heb⟩ := hmode b hb hsb
          rw [(hothers b hba).2, heb]
          rw [heb] at hsb
          exact h hlive had hg a rfl hfirst.1 hfirst.2 b hb' hsb
      by_cases hg : granted = true
      · rw [hval x hx hsx hg, hval y hy hsy hg]
      · have hne : ∀ b, ((σ'.claim t a granted).arena b).spans = true → b ≠ a := by
          rintro b hsb rfl
          exact hg (hself.1.symm.trans hsb)
        have hx' := hothers x (hne x hsx)
        have hy' := hothers y (hne y hsy)
        rw [hx'.2, hy'.2]
        exact ho' x hx y hy (hx'.1 ▸ hsx) (hy'.1 ▸ hsy)

theorem oneMode_install (σ : Arenas) (t : Nat) (growable granted : Bool) :
    ((σ.arenasReset t).install growable granted).OneMode := by
  have hmain : ∀ b, (((σ.arenasReset t).install growable granted).arena b).spans = true →
      b = mainArena := by
    intro b hs
    by_contra hb
    rw [install] at hs
    dsimp only at hs
    rw [Function.update_of_ne hb, arenasReset] at hs
    dsimp only at hs
    rw [Function.update_of_ne hb] at hs
    exact absurd hs (by simp [emptied])
  intro a _ b _ hsa hsb
  rw [hmain a hsa, hmain b hsb]

theorem oneMode_next (hl : σ.Listed) (ho : σ.OneMode) (e : ModeEvent) :
    (σ.next e).OneMode ↔ σ.Agreeing e := by
  cases e with
  | call t made granted => exact oneMode_call hl ho t made granted
  | exit t =>
    refine iff_of_true ?_ trivial
    rw [next, exit]
    split
    · have harena : ∀ b, ((σ.onThreadExit (σ.key t)).arena b).spans = (σ.arena b).spans ∧
          ((σ.onThreadExit (σ.key t)).arena b).mode = (σ.arena b).mode := by
        intro b
        rcases σ.key t with _ | a
        · exact ⟨rfl, rfl⟩
        · rw [onThreadExit]
          split
          · exact ⟨rfl, rfl⟩
          split
          · dsimp only
            by_cases hb : b = a
            · subst hb
              rw [Function.update_self]
              exact ⟨rfl, rfl⟩
            · rw [Function.update_of_ne hb]
              exact ⟨rfl, rfl⟩
          · exact ⟨rfl, rfl⟩
      have hcount : (σ.onThreadExit (σ.key t)).count = σ.count := by
        rcases σ.key t with _ | a
        · rfl
        · rw [onThreadExit]
          split
          · rfl
          split <;> rfl
      intro a ha b hb hsa hsb
      dsimp only at ha hb hsa hsb ⊢
      rw [hcount] at ha hb
      rw [(harena a).1] at hsa
      rw [(harena b).1] at hsb
      rw [(harena a).2, (harena b).2]
      exact ho a ha b hb hsa hsb
    · exact ho
  | setMode t mode =>
    refine iff_of_true ?_ trivial
    rw [next]
    split
    · cases mode with
      | none => exact ho
      | some mode =>
        have hmode : ∀ b < σ.count, ((σ.setMode (some mode)).arena b).mode = mode := by
          intro b hb
          rw [setMode]
          dsimp only
          rw [if_pos hb]
          split
          · rfl
          · rename_i h
            exact not_not.mp h
        intro a ha b hb _ _
        rw [hmode a ha, hmode b hb]
    · exact ho
  | init t granted =>
    refine iff_of_true ?_ trivial
    rw [next]
    split
    · exact oneMode_install σ t _ _
    · exact ho
  | initGrowable t granted =>
    refine iff_of_true ?_ trivial
    rw [next]
    split
    · exact oneMode_install σ t _ _
    · exact ho

theorem run_take (es : List ModeEvent) {k : Nat} (h : k < es.length) :
    σ.run (es.take (k + 1)) = (σ.run (es.take k)).next es[k] := by
  rw [List.take_succ_eq_append_getElem h, run, List.foldl_append]
  rfl

theorem listed_run (es : List ModeEvent) : (start.run es).Listed := by
  induction es using List.reverseRecOn with
  | nil => exact listed_start
  | append_singleton es e ih =>
    rw [run, List.foldl_append]
    exact ih.next e

end Arenas

/-- The arenas with memory are of one mode throughout a run exactly as long as none is given its
first span in another. -/
theorem one_mode_iff (es : List ModeEvent) :
    (∀ k ≤ es.length, (Arenas.start.run (es.take k)).OneMode) ↔
      ∀ k, (h : k < es.length) → (Arenas.start.run (es.take k)).Agreeing es[k] := by
  constructor
  · intro ho k h
    have hnext := ho (k + 1) h
    rw [Arenas.run_take es h] at hnext
    exact (Arenas.oneMode_next (Arenas.listed_run _) (ho k h.le) _).mp hnext
  · intro hc k
    induction k with
    | zero => exact fun _ => Arenas.oneMode_start
    | succ k ih =>
      intro h
      rw [Arenas.run_take es h]
      exact (Arenas.oneMode_next (Arenas.listed_run _) (ih (by omega)) _).mpr (hc k h)

/-- Thread 1 adopts an arena that keeps no checksums beside a main arena that does. -/
theorem two_modes_after_reinit : ¬ ∀ es, (Arenas.start.run es).OneMode := by
  intro h
  have hone := h [.setMode 0 (some .libc), .initGrowable 0 true, .call 1 true true]
  exact absurd (hone 0 (by decide) 1 (by decide) rfl rfl) (by decide)

end Mars
