import Mathlib.Data.List.Basic
import Mathlib.Data.List.Nodup

namespace LinkedChain

variable {α : Type} {null : α} {next prev : α → α}

/-- The nodes of a doubly linked list from `cur` on, entered from `back`. -/
inductive Linked (null : α) (next prev : α → α) : α → α → List α → Prop
  | done (back : α) : Linked null next prev back null []
  | node {back cur : α} {rest : List α} (ne_null : cur ≠ null) (back_eq : prev cur = back)
      (tail : Linked null next prev cur (next cur) rest) :
      Linked null next prev back cur (cur :: rest)

namespace Linked

variable {back cur b : α} {nodes nodes' : List α}

theorem unique (hl : Linked null next prev back cur nodes)
    (hl' : Linked null next prev back cur nodes') : nodes = nodes' := by
  induction hl generalizing nodes' with
  | done =>
    cases hl' with
    | done => rfl
    | node hn => exact absurd rfl hn
  | node hn _ _ ih =>
    cases hl' with
    | done => exact absurd rfl hn
    | node _ _ tail => rw [ih tail]

theorem ne_null (hl : Linked null next prev back cur nodes) (hb : b ∈ nodes) : b ≠ null := by
  induction hl with
  | done => simp at hb
  | node hn _ _ ih =>
    rcases List.mem_cons.mp hb with rfl | hb
    · exact hn
    · exact ih hb

theorem prev_head (hl : Linked null next prev back cur nodes) (h0 : 0 < nodes.length) :
    prev nodes[0] = back := by
  cases hl with
  | done => simp at h0
  | node _ hb _ => exact hb

theorem prev_succ (hl : Linked null next prev back cur nodes) {k : Nat}
    (hk : k + 1 < nodes.length) : prev nodes[k + 1] = nodes[k] := by
  induction hl generalizing k with
  | done => simp at hk
  | node _ _ tail ih =>
    cases k with
    | zero =>
      cases tail with
      | done => simp at hk
      | node _ hb _ => exact hb
    | succ k => exact ih (by simpa using hk)

/-- No node is met twice: walking back from both places would reach the head and pass it. -/
theorem nodup (hl : Linked null next prev null cur nodes) : nodes.Nodup := by
  have key : ∀ i j (hi : i < nodes.length) (hj : j < nodes.length),
      nodes[i] = nodes[j] → i = j := by
    intro i
    induction i with
    | zero =>
      intro j hi hj he
      cases j with
      | zero => rfl
      | succ j =>
        have hz := hl.prev_head hi
        rw [he, hl.prev_succ hj] at hz
        exact absurd hz (hl.ne_null (List.getElem_mem _))
    | succ i ih =>
      intro j hi hj he
      cases j with
      | zero =>
        have hz := hl.prev_head hj
        rw [← he, hl.prev_succ hi] at hz
        exact absurd hz (hl.ne_null (List.getElem_mem _))
      | succ j =>
        have hp := hl.prev_succ hi
        rw [he, hl.prev_succ hj] at hp
        rw [ih j (by omega) (by omega) hp.symm]
  exact List.nodup_iff_injective_getElem.mpr fun ⟨i, hi⟩ ⟨j, hj⟩ he =>
    Fin.ext (key i j hi hj he)

section Edit

variable {next' prev' : α → α}

theorem congr (hl : Linked null next prev back cur nodes)
    (hn : ∀ b ∈ nodes, next' b = next b) (hp : ∀ b ∈ nodes, prev' b = prev b) :
    Linked null next' prev' back cur nodes := by
  induction hl with
  | done back => exact .done back
  | @node back cur rest ne_null back_eq _ ih =>
    have hcur := List.mem_cons_self (a := cur) (l := rest)
    refine .node ne_null ((hp cur hcur).trans back_eq) ?_
    rw [hn cur hcur]
    exact ih (fun b hb => hn b (List.mem_cons_of_mem _ hb))
      fun b hb => hp b (List.mem_cons_of_mem _ hb)

theorem prev_cur (hl : Linked null next prev back cur nodes) (hc : cur ≠ null) : prev cur = back := by
  cases hl with
  | done => exact absurd rfl hc
  | node _ hback _ => exact hback

theorem mem_head (hl : Linked null next prev back cur nodes) (hc : cur ≠ null) : cur ∈ nodes := by
  cases hl with
  | done => exact absurd rfl hc
  | node => exact List.mem_cons_self

theorem push [DecidableEq α] (hl : Linked null next prev null cur nodes) (hb : b ≠ null)
    (hnb : next' b = cur) (hpb : prev' b = null) (hn : ∀ x ∈ nodes, next' x = next x)
    (hp : ∀ x ∈ nodes, prev' x = if x = cur then b else prev x) :
    Linked null next' prev' null b (b :: nodes) := by
  refine .node hb hpb ?_
  rw [hnb]
  cases hl with
  | done => exact .done b
  | @node _ _ rest ne_null back_eq tail =>
    have hnd := (Linked.node ne_null back_eq tail).nodup
    refine .node ne_null ((hp cur List.mem_cons_self).trans (if_pos rfl)) ?_
    rw [hn cur List.mem_cons_self]
    refine tail.congr (fun x hx => hn x (List.mem_cons_of_mem _ hx)) fun x hx => ?_
    rw [hp x (List.mem_cons_of_mem _ hx), if_neg]
    rintro rfl
    exact (List.nodup_cons.mp hnd).1 hx

theorem next_mem (hl : Linked null next prev back cur nodes) (hb : b ∈ nodes) :
    next b = null ∨ next b ∈ nodes := by
  induction hl with
  | done => exact absurd hb List.not_mem_nil
  | node _ _ tail ih =>
    rcases List.mem_cons.mp hb with rfl | hb
    · by_cases hn : next b = null
      · exact .inl hn
      · exact .inr (List.mem_cons_of_mem _ (tail.mem_head hn))
    · exact (ih hb).imp_right (List.mem_cons_of_mem _)

theorem prev_mem (hl : Linked null next prev back cur nodes) (hb : b ∈ nodes) :
    cur = b ∧ prev b = back ∨ prev b ∈ nodes ∧ next (prev b) = b := by
  induction hl with
  | done => exact absurd hb List.not_mem_nil
  | node _ hback tail ih =>
    rcases List.mem_cons.mp hb with rfl | hb
    · exact .inl ⟨rfl, hback⟩
    · rcases ih hb with ⟨hn, hp⟩ | ⟨hp, hn⟩
      · rw [hp]
        exact .inr ⟨List.mem_cons_self, hn⟩
      · exact .inr ⟨List.mem_cons_of_mem _ hp, hn⟩

theorem prev_next (hl : Linked null next prev back cur nodes) (hb : b ∈ nodes)
    (hn : next b ≠ null) : prev (next b) = b := by
  induction hl with
  | done => exact absurd hb List.not_mem_nil
  | node _ _ tail ih =>
    rcases List.mem_cons.mp hb with rfl | hb
    · generalize hw : next b = w at tail hn
      cases tail with
      | done => exact absurd rfl hn
      | node _ hback _ => exact hback
    · exact ih hb

theorem unlink [DecidableEq α] (hl : Linked null next prev back cur nodes) (hnd : nodes.Nodup)
    (hback : back ∉ nodes) (hb : b ∈ nodes)
    (hn : ∀ x ∈ nodes, x ≠ b → next' x = if x = prev b then next b else next x)
    (hp : ∀ x ∈ nodes, x ≠ b → prev' x = if x = next b then prev b else prev x) :
    Linked null next' prev' back (if cur = b then next b else cur) (nodes.erase b) := by
  induction hl with
  | done => exact absurd hb List.not_mem_nil
  | @node back cur rest ne_null back_eq tail ih =>
    obtain ⟨hcur, hrest⟩ := List.nodup_cons.mp hnd
    by_cases he : cur = b
    · subst he
      rw [if_pos rfl, List.erase_cons_head]
      have hne : ∀ x ∈ rest, x ≠ cur := fun x hx he => hcur (he ▸ hx)
      have hout : ∀ x ∈ rest, x ≠ prev cur := fun x hx he =>
        hback (back_eq ▸ he ▸ List.mem_cons_of_mem _ hx)
      have hnext : ∀ x ∈ rest, next' x = next x := fun x hx => by
        rw [hn x (List.mem_cons_of_mem _ hx) (hne x hx), if_neg (hout x hx)]
      generalize hw : next cur = w at tail hp
      cases tail with
      | done => exact .done back
      | @node _ _ rest' ne_null' back_eq' tail' =>
        have hhead := List.mem_cons_self (a := w) (l := rest')
        refine .node ne_null' ?_ ?_
        · rw [hp w (List.mem_cons_of_mem _ hhead) (hne w hhead), if_pos rfl, back_eq]
        · rw [hnext w hhead]
          refine tail'.congr (fun x hx => hnext x (List.mem_cons_of_mem _ hx)) fun x hx => ?_
          have hx' := List.mem_cons_of_mem w hx
          rw [hp x (List.mem_cons_of_mem _ hx') (hne x hx'), if_neg]
          rintro rfl
          exact (List.nodup_cons.mp hrest).1 hx
    · have hb : b ∈ rest := (List.mem_cons.mp hb).resolve_left (Ne.symm he)
      have hiff : cur = prev b ↔ next cur = b := by
        rcases tail.prev_mem hb with ⟨hnc, hpb⟩ | ⟨hpb, -⟩
        · exact iff_of_true hpb.symm hnc
        · refine iff_of_false (fun hc => hcur (hc ▸ hpb)) fun hc => ?_
          cases tail with
          | done => exact absurd hb List.not_mem_nil
          | node _ hbe _ =>
            rw [hc] at hbe
            rw [hbe] at hpb
            exact hcur hpb
      have hcn : cur ≠ next b := by
        intro hc
        rcases tail.next_mem hb with hz | hz
        · exact ne_null (hc.trans hz)
        · exact hcur (hc ▸ hz)
      have hbeq : ¬ (cur == b) = true := by simpa using he
      rw [if_neg he, List.erase_cons_tail hbeq]
      refine .node ne_null ?_ ?_
      · rw [hp cur List.mem_cons_self he, if_neg hcn]
        exact back_eq
      · have hi := ih hrest hcur hb (fun x hx => hn x (List.mem_cons_of_mem _ hx))
          fun x hx => hp x (List.mem_cons_of_mem _ hx)
        rw [hn cur List.mem_cons_self he]
        by_cases hc : cur = prev b
        · rw [if_pos hc]
          rwa [if_pos (hiff.mp hc)] at hi
        · rw [if_neg hc]
          rwa [if_neg fun hc' => hc (hiff.mpr hc')] at hi

end Edit

end Linked

end LinkedChain
