import Mathlib.Data.List.Basic
import Mathlib.Tactic.Ring

namespace Tiling

/-- The blocks met by stepping from `p` by the extent of each, where they end exactly at `hi`. -/
inductive Tiles (size : Nat → Nat) (hi : Nat) : Nat → List Nat → Prop
  | done : Tiles size hi hi []
  | block {p : Nat} {bs : List Nat} (pos : 0 < size p) (rest : Tiles size hi (p + size p) bs) :
      Tiles size hi p (p :: bs)

namespace Tiles

variable {size size' : Nat → Nat} {hi p b : Nat} {bs bs' : List Nat}

theorem le_hi (ht : Tiles size hi p bs) : p ≤ hi := by
  induction ht with
  | done => exact le_refl hi
  | block _ _ ih => omega

theorem bounds (ht : Tiles size hi p bs) (hb : b ∈ bs) : p ≤ b ∧ b + size b ≤ hi := by
  induction ht with
  | done => simp at hb
  | block _ rest ih =>
    have hle := rest.le_hi
    rcases List.mem_cons.mp hb with rfl | hb
    · exact ⟨le_refl _, hle⟩
    · have := ih hb
      omega

theorem pos (ht : Tiles size hi p bs) (hb : b ∈ bs) : 0 < size b := by
  induction ht with
  | done => simp at hb
  | block hpos _ ih =>
    rcases List.mem_cons.mp hb with rfl | hb
    · exact hpos
    · exact ih hb

theorem unique (ht : Tiles size hi p bs) (ht' : Tiles size hi p bs') : bs = bs' := by
  induction ht generalizing bs' with
  | done =>
    cases ht' with
    | done => rfl
    | block hpos rest =>
      have := rest.le_hi
      omega
  | block hpos rest ih =>
    cases ht' with
    | done =>
      have := rest.le_hi
      omega
    | block _ rest' => rw [ih rest']

theorem extent_pos (ht : Tiles size hi p bs) (hp : p ≠ hi) : 0 < size p := by
  cases ht with
  | done => exact absurd rfl hp
  | block hpos _ => exact hpos

theorem mem_of_reaches (ht : Tiles size hi p bs) (hr : Tiles size b p bs') (hb : b < hi) : b ∈ bs := by
  induction hr generalizing bs with
  | done =>
    cases ht with
    | done => omega
    | block => exact List.mem_cons_self
  | block hpos rest ih =>
    have hle := rest.le_hi
    cases ht with
    | done => omega
    | block _ rest' => exact List.mem_cons_of_mem _ (ih rest')

theorem congr (ht : Tiles size hi p bs) (hs : ∀ b ∈ bs, size' b = size b) : Tiles size' hi p bs := by
  induction ht with
  | done => exact .done
  | @block p bs hpos _ ih =>
    have hp := hs p List.mem_cons_self
    refine .block (hp ▸ hpos) ?_
    rw [hp]
    exact ih fun b hb => hs b (List.mem_cons_of_mem p hb)

theorem nodup (ht : Tiles size hi p bs) : bs.Nodup := by
  induction ht with
  | done => exact List.nodup_nil
  | block hpos rest ih =>
    refine List.nodup_cons.mpr ⟨fun hb => ?_, ih⟩
    have := (rest.bounds hb).1
    omega

theorem sum_size (ht : Tiles size hi p bs) : p + (bs.map size).sum = hi := by
  induction ht with
  | done => simp
  | block _ _ ih =>
    rw [List.map_cons, List.sum_cons, ← Nat.add_assoc]
    exact ih

theorem length_mul_le {m : Nat} (ht : Tiles size hi p bs) (hm : ∀ b ∈ bs, m ≤ size b) :
    p + bs.length * m ≤ hi := by
  induction ht with
  | done => simp
  | @block p bs _ rest ih =>
    have hp := hm p (by simp)
    have hr := ih fun b hb => hm b (List.mem_cons_of_mem _ hb)
    rw [List.length_cons, Nat.succ_mul]
    omega

end Tiles

end Tiling
