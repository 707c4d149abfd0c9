import Mathlib.Data.List.Nodup

namespace Rounds

variable {α : Type} {l front back : List α} {a : α} {i n : Nat}

/-- What comes `i`-th in going round `l` again and again. -/
def nth (l : List α) (i : Nat) : Option α := l[i % l.length]?

theorem nth_lt (h : nth l i = some a) : i % l.length < l.length :=
  (List.getElem?_eq_some_iff.mp h).1

theorem nth_idxOf [DecidableEq α] (h : a ∈ l) : nth l (l.idxOf a) = some a := by
  have hlt := List.idxOf_lt_length_iff.mpr h
  rw [nth, Nat.mod_eq_of_lt hlt, List.getElem?_eq_getElem hlt, List.getElem_idxOf]

/-- After `a` comes what stands behind it, and after the last one the first. -/
theorem nth_succ (hn : l.Nodup) (hl : l = front ++ a :: back) (h : nth l i = some a) :
    nth l (i + 1) = back.head?.or l.head? := by
  have hlt := nth_lt h
  have hlen : l.length = front.length + (back.length + 1) := by
    rw [hl, List.length_append, List.length_cons]
  have hat : l[front.length]? = some a := by
    rw [hl, List.getElem?_append_right (Nat.le_refl _), Nat.sub_self, List.getElem?_cons_zero]
  have hmod : i % l.length = front.length :=
    (List.getElem?_inj hlt hn).mp (Eq.trans h hat.symm)
  rw [nth]
  cases back with
  | nil =>
    rw [List.length_nil] at hlen
    have hwrap : (i + 1) % l.length = 0 := by
      rw [Nat.add_mod, hmod, hlen]
      rcases Nat.eq_zero_or_pos front.length with h0 | hpos
      · rw [h0, Nat.mod_one]
      · rw [Nat.mod_eq_of_lt (show 1 < front.length + (0 + 1) by omega), Nat.zero_add, Nat.mod_self]
    rw [hwrap, List.head?_nil, Option.none_or, List.head?_eq_getElem?]
  | cons b back =>
    rw [List.length_cons] at hlen
    have hnext : (i + 1) % l.length = front.length + 1 := by
      rw [Nat.add_mod, hmod, Nat.mod_eq_of_lt (show 1 < l.length by omega), Nat.mod_eq_of_lt (by omega)]
    rw [hnext, hl, List.getElem?_append_right (Nat.le_add_right _ 1), Nat.add_sub_cancel_left]
    rfl

/-- Going on for as long as `l` is, one meets all of it, wherever one begins. -/
theorem exists_nth (ha : a ∈ l) (hn : l.length ≤ n) (i : Nat) : ∃ k < n, nth l (i + k) = some a := by
  obtain ⟨j, hj, rfl⟩ := List.mem_iff_getElem.mp ha
  have hi : i % l.length < l.length := Nat.mod_lt _ (by omega)
  refine ⟨(j + (l.length - i % l.length)) % l.length,
    Nat.lt_of_lt_of_le (Nat.mod_lt _ (by omega)) hn, ?_⟩
  have hmod : (i + (j + (l.length - i % l.length)) % l.length) % l.length = j := by
    have hdiv := Nat.div_add_mod i l.length
    rw [Nat.add_mod_mod, show i + (j + (l.length - i % l.length)) = j + l.length + l.length * (i / l.length) by
      omega, Nat.add_mul_mod_self_left, Nat.add_mod_right, Nat.mod_eq_of_lt hj]
  rw [nth, hmod, List.getElem?_eq_getElem hj]

end Rounds
