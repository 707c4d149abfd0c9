import Mathlib.Data.List.Basic
import Mathlib.Logic.Function.Basic

namespace ByteStore

variable {β : Type} {bs cs old src : List β} {n off p q : Nat}

/-- Where each block that is out starts, and what it holds. -/
def Blocks (β : Type) := Nat → Option (List β)

/-- `src` written over `bs` from `off` on. -/
def splice (bs : List β) (off : Nat) (src : List β) : List β :=
  bs.take off ++ src ++ bs.drop (off + src.length)

theorem length_splice (h : off + src.length ≤ bs.length) : (splice bs off src).length = bs.length := by
  rw [splice, List.length_append, List.length_append, List.length_take, List.length_drop]
  omega

theorem splice_read (h : off + src.length ≤ bs.length) :
    ((splice bs off src).drop off).take src.length = src := by
  have hlen : (bs.take off).length = off := by
    rw [List.length_take]
    omega
  rw [splice, List.append_assoc, List.drop_append_of_le_length (by omega),
    List.drop_eq_nil_of_le (by omega), List.nil_append, List.take_left]

namespace Blocks

variable {S S' S₁ : Blocks β}

def empty : Blocks β := fun _ => none

def put (S : Blocks β) (p : Nat) (bs : List β) : Blocks β := Function.update S p (some bs)

def drop (S : Blocks β) (p : Nat) : Blocks β := Function.update S p none

@[simp] theorem put_self (S : Blocks β) (p : Nat) (bs : List β) : S.put p bs p = some bs :=
  Function.update_self ..

@[simp] theorem drop_self (S : Blocks β) (p : Nat) : S.drop p p = none := Function.update_self ..

theorem put_of_ne (S : Blocks β) (bs : List β) (h : q ≠ p) : S.put p bs q = S q :=
  Function.update_of_ne h ..

theorem drop_of_ne (S : Blocks β) (h : q ≠ p) : S.drop p q = S q := Function.update_of_ne h ..

theorem drop_eq_some (h : S.drop p q = some bs) : q ≠ p ∧ S q = some bs := by
  by_cases hq : q = p
  · rw [hq, drop_self] at h
    exact absurd h.symm (Option.some_ne_none bs)
  · rw [drop_of_ne S hq] at h
    exact ⟨hq, h⟩

/-- The blocks at the pointers `live`, each with what `f` says it holds. -/
def listed (live : List Nat) (f : Nat → List β) : Blocks β := fun p =>
  if p ∈ live then some (f p) else none

section Listed

variable {live : List Nat} {f g : Nat → List β}

theorem listed_of_mem (hp : p ∈ live) : listed live f p = some (f p) := if_pos hp

theorem listed_of_notMem (hp : p ∉ live) : listed live f p = none := if_neg hp

theorem mem_of_listed (hp : listed live f p = some bs) : p ∈ live ∧ bs = f p := by
  by_cases hm : p ∈ live
  · rw [listed_of_mem hm] at hp
    exact ⟨hm, (Option.some.inj hp).symm⟩
  · rw [listed_of_notMem hm] at hp
    exact absurd hp.symm (Option.some_ne_none bs)

theorem listed_congr (hf : ∀ q ∈ live, g q = f q) : listed live g = listed live f := by
  funext q
  by_cases hq : q ∈ live
  · rw [listed_of_mem hq, listed_of_mem hq, hf q hq]
  · rw [listed_of_notMem hq, listed_of_notMem hq]

theorem listed_cons : listed (p :: live) f = (listed live f).put p (f p) := by
  funext q
  by_cases hq : q = p
  · rw [hq, put_self, listed_of_mem List.mem_cons_self]
  · rw [put_of_ne _ _ hq]
    by_cases hm : q ∈ live
    · rw [listed_of_mem hm, listed_of_mem (List.mem_cons_of_mem p hm)]
    · rw [listed_of_notMem hm, listed_of_notMem fun h' => (List.mem_cons.mp h').elim hq hm]

theorem listed_erase (hn : live.Nodup) : listed (live.erase p) f = (listed live f).drop p := by
  funext q
  by_cases hq : q = p
  · rw [hq, drop_self, listed_of_notMem hn.not_mem_erase]
  · rw [drop_of_ne _ hq]
    by_cases hm : q ∈ live
    · rw [listed_of_mem hm, listed_of_mem ((List.mem_erase_of_ne hq).mpr hm)]
    · rw [listed_of_notMem hm, listed_of_notMem fun h' => hm (List.mem_of_mem_erase h')]

theorem listed_put (hp : p ∈ live) (hf : ∀ q ∈ live, q ≠ p → g q = f q) :
    listed live g = (listed live f).put p (g p) := by
  funext q
  by_cases hq : q = p
  · rw [hq, put_self, listed_of_mem hp]
  · rw [put_of_ne _ _ hq]
    by_cases hm : q ∈ live
    · rw [listed_of_mem hm, listed_of_mem hm, hf q hm hq]
    · rw [listed_of_notMem hm, listed_of_notMem hm]

end Listed

/-- No block starts at `p`, and none holds any of the `n` bytes from `p` on. -/
structure Clear (S : Blocks β) (p n : Nat) : Prop where
  fresh : S p = none
  apart : ∀ q bs, S q = some bs → p + n ≤ q ∨ q + bs.length ≤ p

def Apart (S : Blocks β) : Prop :=
  ∀ p q bs cs, S p = some bs → S q = some cs → p ≠ q → p + bs.length ≤ q ∨ q + cs.length ≤ p

theorem Apart.clear (ha : (S.put p bs).Apart) (hp : S p = none) : S.Clear p bs.length := by
  refine ⟨hp, fun q cs hq => ?_⟩
  have hne : q ≠ p := by
    rintro rfl
    exact absurd (hq.symm.trans hp) (Option.some_ne_none cs)
  exact ha p q bs cs (put_self S p bs) ((put_of_ne S bs hne).trans hq) hne.symm

/-- What an operation on the blocks amounts to. -/
inductive Event (β : Type) where
  | idle
  | allocated (p : Nat) (bs : List β)
  | freed (p : Nat)
  | resized (p q n : Nat) (bs : List β)
  | got (p off : Nat) (bs : List β)
  | wrote (p off : Nat) (bs : List β)

/-- What holds the block at `x` no longer, or no longer as it was. -/
def Event.changes (x : Nat) : Event β → Prop
  | .freed p | .resized p _ _ _ | .wrote p _ _ => x = p
  | _ => False

/-- A block resized to `n` keeps what of it there is room for, wherever it is put. -/
inductive Takes : Blocks β → Event β → Blocks β → Prop
  | idle {S : Blocks β} : Takes S .idle S
  | allocated {S : Blocks β} {p : Nat} {bs : List β} (hc : S.Clear p bs.length) :
      Takes S (.allocated p bs) (S.put p bs)
  | freed {S : Blocks β} {p : Nat} {bs : List β} (hp : S p = some bs) :
      Takes S (.freed p) (S.drop p)
  | resized {S : Blocks β} {p q n : Nat} {old bs : List β} (hp : S p = some old)
      (hc : (S.drop p).Clear q bs.length)
      (hk : bs.take (min old.length n) = old.take (min old.length n)) :
      Takes S (.resized p q n bs) ((S.drop p).put q bs)
  | got {S : Blocks β} {p off : Nat} {old bs : List β} (hp : S p = some old)
      (hin : off + bs.length ≤ old.length) (hb : bs = (old.drop off).take bs.length) :
      Takes S (.got p off bs) S
  | wrote {S : Blocks β} {p off : Nat} {old bs : List β} (hp : S p = some old)
      (hin : off + bs.length ≤ old.length) : Takes S (.wrote p off bs) (S.put p (splice old off bs))

variable {e : Event β}

theorem Takes.keeps (ht : Takes S e S') (hp : S q = some bs) (hq : ¬ e.changes q) : S' q = some bs := by
  have hne : ∀ {S₀ : Blocks β} {x n : Nat}, S₀.Clear x n → S₀ q = some bs → q ≠ x := by
    rintro S₀ x n hc hin rfl
    exact Option.some_ne_none bs (hin.symm.trans hc.fresh)
  cases ht with
  | idle => exact hp
  | allocated hc => rwa [put_of_ne S _ (hne hc hp)]
  | freed _ => rwa [drop_of_ne S hq]
  | resized _ hc _ =>
    have hin := (drop_of_ne S hq).trans hp
    rwa [put_of_ne _ _ (hne hc hin)]
  | got _ _ _ => exact hp
  | wrote _ _ => rwa [put_of_ne S _ hq]

theorem Takes.after_idle (ht : Takes S₁ e S') (hi : Takes S .idle S₁) : Takes S e S' := by
  cases hi with
  | idle => exact ht

theorem Takes.of_freed (ht : Takes S (.freed p) S') : S' = S.drop p := by
  cases ht with
  | freed _ => rfl

theorem put_put (S : Blocks β) (p : Nat) (bs cs : List β) : (S.put p bs).put p cs = S.put p cs :=
  Function.update_idem ..

theorem put_drop (S : Blocks β) (bs : List β) (h : q ≠ p) : (S.put q bs).drop p = (S.drop p).put q bs :=
  Function.update_comm h ..

theorem Clear.drop (hc : S.Clear q n) (p : Nat) : (S.drop p).Clear q n := by
  refine ⟨?_, fun x cs hx => hc.apart x cs (drop_eq_some hx).2⟩
  by_cases hq : q = p
  · rw [hq, drop_self]
  · rw [drop_of_ne S hq, hc.fresh]

theorem Takes.fill (ha : Takes S (.allocated p bs) S₁) (hw : Takes S₁ (.wrote p off cs) S') :
    off + cs.length ≤ bs.length ∧ Takes S (.allocated p (splice bs off cs)) S' := by
  cases ha with
  | allocated hc =>
    generalize hS : S.put p bs = S₁ at hw
    cases hw with
    | wrote hp hin =>
      rw [← hS, put_self] at hp
      obtain rfl := Option.some.inj hp
      rw [← hS, put_put]
      exact ⟨hin, .allocated ((length_splice hin).symm ▸ hc)⟩

/-- A block copied to a new one, as far as there is room, and then freed has been resized. -/
theorem Takes.moved (hp : S p = some old) (ha : Takes S (.allocated q bs) S₁)
    (hk : bs.take (min old.length n) = old.take (min old.length n)) :
    Takes S (.resized p q n bs) (S₁.drop p) := by
  cases ha with
  | allocated hc =>
    have hne : q ≠ p := by
      rintro rfl
      exact absurd (hp.symm.trans hc.fresh) (Option.some_ne_none old)
    rw [put_drop S bs hne]
    exact .resized hp (hc.drop p) hk

def join (S T : Blocks β) : Blocks β := fun p => (S p).or (T p)

/-- No block of the one starts where one of the other does, or has a byte in common with it. -/
def Beside (S T : Blocks β) : Prop :=
  ∀ p q bs cs, S p = some bs → T q = some cs → p ≠ q ∧ (p + bs.length ≤ q ∨ q + cs.length ≤ p)

variable {T T' : Blocks β}

theorem Beside.symm (hb : S.Beside T) : T.Beside S := fun p q bs cs hp hq =>
  ⟨(hb q p cs bs hq hp).1.symm, (hb q p cs bs hq hp).2.symm⟩

theorem Beside.none (hb : S.Beside T) (hp : T p = some bs) : S p = none := by
  cases hs : S p with
  | none => rfl
  | some cs => exact absurd rfl (hb p p cs bs hs hp).1

theorem join_eq_some : S.join T p = some bs ↔ S p = some bs ∨ S p = none ∧ T p = some bs := by
  cases hs : S p <;> simp [join, hs]

theorem join_right (hp : S p = none) : S.join T p = T p := by simp [join, hp]

theorem join_left (hp : S p = some bs) : S.join T p = some bs := by simp [join, hp]

theorem Beside.comm (hb : S.Beside T) : S.join T = T.join S := by
  funext p
  cases hs : S p with
  | none => rw [join_right hs]; cases ht : T p <;> simp [join, hs, ht]
  | some bs => rw [join_left hs, join_right (hb.symm.none hs), hs]

theorem join_put (hp : S p = none) (bs : List β) : S.join (T.put p bs) = (S.join T).put p bs := by
  funext q
  by_cases hq : q = p
  · rw [hq, join_right hp, put_self, put_self]
  · rw [put_of_ne _ bs hq, join, join, put_of_ne _ bs hq]

theorem join_drop (hp : S p = none) : S.join (T.drop p) = (S.join T).drop p := by
  funext q
  by_cases hq : q = p
  · rw [hq, join_right hp, drop_self, drop_self]
  · rw [drop_of_ne _ hq, join, join, drop_of_ne _ hq]

theorem Clear.join (hc : T.Clear p bs.length) (hb : S.Beside (T.put p bs)) :
    (S.join T).Clear p bs.length := by
  have hin : T.put p bs p = some bs := put_self T p bs
  refine ⟨(join_right (hb.none hin)).trans hc.fresh, fun q cs hq => ?_⟩
  rcases join_eq_some.mp hq with hs | ⟨-, ht⟩
  · exact (hb q p cs bs hs hin).2.symm
  · exact hc.apart q cs ht

theorem Takes.beside (ht : Takes T e T') (hb : S.Beside T) (hb' : S.Beside T') :
    Takes (S.join T) e (S.join T') := by
  cases ht with
  | idle => exact .idle
  | @allocated p bs hc =>
    rw [join_put (hb'.none (put_self T p bs))]
    exact .allocated (hc.join hb')
  | freed hp =>
    have hs := hb.none hp
    rw [join_drop hs]
    exact .freed ((join_right hs).trans hp)
  | @resized p q n old bs hp hc hk =>
    have hs := hb.none hp
    have hd : (S.join T).drop p = S.join (T.drop p) := (join_drop hs).symm
    rw [join_put (hb'.none (put_self _ q bs)), ← hd]
    refine .resized ((join_right hs).trans hp) ?_ hk
    rw [hd]
    exact hc.join hb'
  | got hp hin hbs => exact .got ((join_right (hb.none hp)).trans hp) hin hbs
  | wrote hp hin =>
    have hs := hb.none hp
    rw [join_put hs]
    exact .wrote ((join_right hs).trans hp) hin

variable {es es' : List (Event β)}

end Blocks

end ByteStore
