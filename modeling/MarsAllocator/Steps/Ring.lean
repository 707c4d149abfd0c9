import MarsAllocator.Model.RemoteQueue
import MarsAllocator.Library.Wraparound
import Mathlib.Tactic.NormNum

namespace Mars

open Wraparound

def ticket (n : Nat) : BitVec 32 := BitVec.ofNat 32 n

theorem ticket_succ (n : Nat) : ticket n + 1 = ticket (n + 1) := ofNat_succ 32 n

theorem ticket_lap (n : Nat) : ticket n + BitVec.ofNat 32 remoteSlots = ticket (n + 1024) :=
  (BitVec.ofNat_add n 1024).symm

theorem ticket_sub {a b : Nat} (hl : b ≤ a + 2 ^ 31) (hu : a < b + 2 ^ 31) :
    (ticket a - ticket b).toInt = (a : Int) - b := by
  apply toInt_sub_of_lt
  · norm_num
    omega
  · norm_num
    omega
  · decide

theorem ticket_eq_iff {a b : Nat} (h : a < b + 2 ^ 32) (h' : b < a + 2 ^ 32) :
    ticket a = ticket b ↔ a = b := ofNat_eq_iff h h'

theorem remoteSlot_ticket (n : Nat) : remoteSlot (ticket n) = n % 1024 := by
  have hm : BitVec.ofNat 32 (remoteSlots - 1) = BitVec.ofNat 32 (2 ^ 10 - 1) := rfl
  rw [remoteSlot, hm, ticket, BitVec.toNat_and, BitVec.toNat_ofNat, BitVec.toNat_ofNat,
    Nat.mod_eq_of_lt (a := 2 ^ 10 - 1) (by norm_num), Nat.and_two_pow_sub_one_eq_mod,
    Nat.mod_mod_of_dvd _ (by norm_num)]

theorem cellAt_ticket (q : RemoteQueue) (n : Nat) : q.cellAt (ticket n) = q.cell (n % 1024) := by
  rw [RemoteQueue.cellAt, remoteSlot_ticket]

theorem setCell_ticket (q : RemoteQueue) (n : Nat) (c : RemoteCell) :
    q.setCell (ticket n) c = { q with cell := Function.update q.cell (n % 1024) c } := by
  rw [RemoteQueue.setCell, remoteSlot_ticket]

theorem some_of_leading {α : Type*} {as bs : List α} (h : as <+: bs) {i : Nat} {a : α}
    (ha : as[i]? = some a) : bs[i]? = some a := by
  obtain ⟨hi, rfl⟩ := List.getElem?_eq_some_iff.mp ha
  exact List.prefix_iff_getElem?.mp h i hi

def Pushing.holds : Pushing → Bool
  | .filling _ _ | .publishing _ _ => true
  | _ => false

def Popping.taken : Popping → Bool
  | .advancing _ _ | .handing _ _ => true
  | _ => false

def Popping.ahead : Popping → Nat
  | .handing _ _ => 1
  | _ => 0

namespace RemoteRun

def Placed (σ : RemoteRun) (t : Nat) : Pushing → Prop
  | .probing _ pos =>
      pos = ticket (σ.position t) ∧ σ.position t ≤ σ.claimed.length ∧
        σ.since t ≤ tally σ.filled (σ.position t)
  | .claiming _ pos =>
      pos = ticket (σ.position t) ∧ σ.position t ≤ σ.claimed.length ∧
        σ.since t ≤ tally σ.filled (σ.position t) ∧ σ.position t < σ.returned.length + 1024
  | .filling v pos =>
      pos = ticket (σ.position t) ∧ σ.claimed[σ.position t]? = some v ∧
        σ.filled (σ.position t) = false
  | .publishing v pos =>
      pos = ticket (σ.position t) ∧ σ.claimed[σ.position t]? = some v ∧
        σ.filled (σ.position t) = false ∧ (σ.queue.cell (σ.position t % 1024)).ptr = v
  | _ => True

def Staged (σ : RemoteRun) : Popping → Prop
  | .looking pos => pos = ticket σ.returned.length
  | .reading pos => pos = ticket σ.returned.length ∧ σ.filled σ.returned.length = true
  | .clearing pos p | .advancing pos p | .handing pos p =>
      pos = ticket σ.returned.length ∧ σ.filled σ.returned.length = true ∧
        σ.claimed[σ.returned.length]? = some p
  | _ => True

structure Sound (σ : RemoteRun) : Prop where
  head : σ.queue.head = ticket σ.claimed.length
  tail : σ.queue.tail = ticket (σ.returned.length + σ.popping.ahead)
  order : σ.returned <+: σ.claimed
  popped : ∀ i < σ.returned.length, σ.filled i = true
  fresh : ∀ i, σ.claimed.length ≤ i → σ.filled i = false
  room : σ.claimed.length ≤ σ.returned.length + 1024
  seq : ∀ i, σ.returned.length ≤ i → i < σ.returned.length + 1024 →
    (σ.queue.cell (i % 1024)).seq = ticket (i + if σ.filled i then 1 else 0)
  ptr : ∀ i, σ.returned.length ≤ i → σ.filled i = true →
    i = σ.returned.length ∧ σ.popping.taken = true ∨
      σ.claimed[i]? = some (σ.queue.cell (i % 1024)).ptr
  held : ∀ i < σ.claimed.length, σ.filled i = false →
    ∃ t, (σ.pushing t).holds = true ∧ σ.position t = i
  apart : ∀ t u, t ≠ u → (σ.pushing t).holds = true → (σ.pushing u).holds = true →
    σ.position t ≠ σ.position u
  placed : ∀ t, σ.Placed t (σ.pushing t)
  staged : σ.Staged σ.popping

variable {σ : RemoteRun} {t : Nat}

theorem sound_start : start.Sound where
  head := rfl
  tail := rfl
  order := List.prefix_rfl
  popped := by simp [start]
  fresh := by simp [start]
  room := by simp [start]
  seq := by
    intro i _ hi
    have hi : i < 1024 := by simpa [start] using hi
    simp [start, remoteForget, ticket, Nat.mod_eq_of_lt hi]
  ptr := by simp [start]
  held := by simp [start]
  apart := by simp [start, Pushing.holds]
  placed := fun _ => trivial
  staged := trivial

theorem Placed.frame {σ' : RemoteRun} {l : Pushing} (h : σ.Placed t l)
    (hposition : σ'.position t = σ.position t) (hsince : σ'.since t = σ.since t)
    (hclaimed : σ.claimed <+: σ'.claimed) (hreturned : σ.returned.length ≤ σ'.returned.length)
    (hfilled : ∀ i, σ.filled i = true → σ'.filled i = true)
    (hheld : l.holds = true → σ'.filled (σ.position t) = σ.filled (σ.position t) ∧
      (σ'.queue.cell (σ.position t % 1024)).ptr = (σ.queue.cell (σ.position t % 1024)).ptr) :
    σ'.Placed t l := by
  have hlen := hclaimed.length_le
  have hmono := tally_mono hfilled (σ.position t)
  cases l with
  | probing v pos =>
    obtain ⟨hp, hle, hs⟩ := h
    exact ⟨by rw [hposition, hp], by omega, by rw [hsince, hposition]; omega⟩
  | claiming v pos =>
    obtain ⟨hp, hle, hs, hr⟩ := h
    exact ⟨by rw [hposition, hp], by omega, by rw [hsince, hposition]; omega, by omega⟩
  | filling v pos =>
    obtain ⟨hp, hv, hf⟩ := h
    rw [Placed, hposition, (hheld rfl).1]
    exact ⟨hp, some_of_leading hclaimed hv, hf⟩
  | publishing v pos =>
    obtain ⟨hp, hv, hf, hc⟩ := h
    rw [Placed, hposition, (hheld rfl).1, (hheld rfl).2]
    exact ⟨hp, some_of_leading hclaimed hv, hf, hc⟩
  | _ => trivial

theorem Staged.frame {σ' : RemoteRun} {l : Popping} (h : σ.Staged l)
    (hclaimed : σ.claimed <+: σ'.claimed) (hreturned : σ'.returned = σ.returned)
    (hfilled : ∀ i, σ.filled i = true → σ'.filled i = true) : σ'.Staged l := by
  cases l with
  | looking pos => exact by rw [Staged, hreturned]; exact h
  | reading pos =>
    rw [Staged, hreturned]
    exact ⟨h.1, hfilled _ h.2⟩
  | clearing pos p | advancing pos p | handing pos p =>
    rw [Staged, hreturned]
    exact ⟨h.1, hfilled _ h.2.1, some_of_leading hclaimed h.2.2⟩
  | _ => trivial

theorem Sound.move (h : σ.Sound) {l : Pushing} {σ' : RemoteRun}
    (hpush : σ'.pushing = Function.update σ.pushing t l) (hqueue : σ'.queue = σ.queue)
    (hpop : σ'.popping = σ.popping) (hclaimed : σ'.claimed = σ.claimed)
    (hfilled : σ'.filled = σ.filled) (hreturned : σ'.returned = σ.returned)
    (hposition : ∀ u ≠ t, σ'.position u = σ.position u) (hsince : ∀ u ≠ t, σ'.since u = σ.since u)
    (hold : (σ.pushing t).holds = false) (hnew : l.holds = false) (hl : σ'.Placed t l) :
    σ'.Sound := by
  have hholds : ∀ u, (σ'.pushing u).holds = true → u ≠ t ∧ (σ.pushing u).holds = true := by
    intro u hu
    rw [hpush] at hu
    by_cases e : u = t
    · subst e
      rw [Function.update_self, hnew] at hu
      exact absurd hu (by decide)
    · rw [Function.update_of_ne e] at hu
      exact ⟨e, hu⟩
  constructor
  · rw [hqueue, hclaimed, h.head]
  · rw [hqueue, hreturned, hpop, h.tail]
  · rw [hreturned, hclaimed]
    exact h.order
  · rw [hreturned, hfilled]
    exact h.popped
  · rw [hclaimed, hfilled]
    exact h.fresh
  · rw [hclaimed, hreturned]
    exact h.room
  · rw [hreturned, hqueue, hfilled]
    exact h.seq
  · rw [hreturned, hqueue, hfilled, hclaimed, hpop]
    exact h.ptr
  · rw [hclaimed, hfilled]
    intro i hi hf
    obtain ⟨u, hu, hp⟩ := h.held i hi hf
    have hut : u ≠ t := by
      rintro rfl
      rw [hold] at hu
      exact absurd hu (by decide)
    exact ⟨u, by rw [hpush, Function.update_of_ne hut]; exact hu, by rw [hposition u hut]; exact hp⟩
  · intro u v huv hu hv
    rw [hposition u (hholds u hu).1, hposition v (hholds v hv).1]
    exact h.apart u v huv (hholds u hu).2 (hholds v hv).2
  · intro u
    by_cases e : u = t
    · subst e
      rw [hpush, Function.update_self]
      exact hl
    · rw [hpush, Function.update_of_ne e]
      exact (h.placed u).frame (hposition u e) (hsince u e) (by rw [hclaimed]) (by rw [hreturned])
        (by rw [hfilled]; exact fun _ hi => hi) (by rw [hfilled, hqueue]; exact fun _ => ⟨rfl, rfl⟩)
  · rw [hpop]
    exact h.staged.frame (by rw [hclaimed]) hreturned (by rw [hfilled]; exact fun _ hi => hi)

theorem Sound.holder_window (h : σ.Sound) (hheld : (σ.pushing t).holds = true) :
    σ.returned.length ≤ σ.position t ∧ σ.position t < σ.claimed.length ∧
      σ.filled (σ.position t) = false := by
  have hp := h.placed t
  have hkey : σ.position t < σ.claimed.length ∧ σ.filled (σ.position t) = false := by
    cases hc : σ.pushing t with
    | filling v pos =>
      rw [hc] at hp
      exact ⟨(List.getElem?_eq_some_iff.mp hp.2.1).1, hp.2.2⟩
    | publishing v pos =>
      rw [hc] at hp
      exact ⟨(List.getElem?_eq_some_iff.mp hp.2.1).1, hp.2.2.1⟩
    | _ => simp [hc, Pushing.holds] at hheld
  refine ⟨?_, hkey⟩
  by_contra hlt
  have hf := h.popped (σ.position t) (by omega)
  rw [hkey.2] at hf
  exact absurd hf (by decide)

theorem Sound.claim (h : σ.Sound) {v : Nat} {pos : BitVec 32}
    (hc : σ.pushing t = .claiming v pos) (hhead : σ.position t = σ.claimed.length) :
    Sound { σ with
      queue := { σ.queue with head := pos + 1 }
      pushing := Function.update σ.pushing t (.filling v pos)
      claimed := σ.claimed ++ [v] } := by
  have hp := h.placed t
  rw [hc] at hp
  obtain ⟨hpos, _, _, hroom⟩ := hp
  have hfree : ∀ u, (σ.pushing u).holds = true → u ≠ t := by
    rintro u hu rfl
    simp [hc, Pushing.holds] at hu
  have hpre : σ.claimed <+: σ.claimed ++ [v] := List.prefix_append _ _
  constructor
  · simp only [List.length_append, List.length_singleton]
    rw [hpos, hhead, ticket_succ]
  · exact h.tail
  · exact h.order.trans hpre
  · exact h.popped
  · intro i hi
    simp only [List.length_append, List.length_singleton] at hi
    exact h.fresh i (by omega)
  · simp only [List.length_append, List.length_singleton]
    omega
  · exact h.seq
  · intro i hi hf
    exact (h.ptr i hi hf).imp id (some_of_leading hpre)
  · intro i hi hf
    simp only [List.length_append, List.length_singleton] at hi
    rcases Nat.lt_succ_iff_lt_or_eq.mp hi with hlt | rfl
    · obtain ⟨u, hu, hui⟩ := h.held i hlt hf
      exact ⟨u, by simpa only [Function.update_of_ne (hfree u hu)] using hu, hui⟩
    · exact ⟨t, by simp [Pushing.holds], hhead⟩
  · intro u w huw hu hw
    have hother : ∀ x, x ≠ t → (Function.update σ.pushing t (.filling v pos) x).holds = true →
        σ.position x < σ.claimed.length := by
      intro x hx hh
      rw [Function.update_of_ne hx] at hh
      exact (h.holder_window hh).2.1
    by_cases hut : u = t
    · subst hut
      have := hother w huw.symm hw
      simp only
      omega
    · by_cases hwt : w = t
      · subst hwt
        have := hother u hut hu
        simp only
        omega
      · simp only [Function.update_of_ne hut] at hu
        simp only [Function.update_of_ne hwt] at hw
        exact h.apart u w huw hu hw
  · intro u
    by_cases hut : u = t
    · subst hut
      simp only [Function.update_self]
      exact ⟨hpos, by simp [hhead], h.fresh _ hhead.ge⟩
    · simp only [Function.update_of_ne hut]
      exact (h.placed u).frame rfl rfl hpre le_rfl (fun _ hi => hi) (fun _ => ⟨rfl, rfl⟩)
  · exact h.staged.frame hpre rfl (fun _ hi => hi)

theorem Sound.filled_window (h : σ.Sound) {i : Nat} (hf : σ.filled i = true) :
    i < σ.returned.length + 1024 := by
  by_contra hge
  have hnot := h.fresh i (by have := h.room; omega)
  rw [hf] at hnot
  exact absurd hnot (by decide)

theorem Sound.cell_ne (h : σ.Sound) (hheld : (σ.pushing t).holds = true) {i : Nat}
    (hi : σ.returned.length ≤ i) (hi' : i < σ.returned.length + 1024) (hne : i ≠ σ.position t) :
    i % 1024 ≠ σ.position t % 1024 := by
  intro e
  have hw := h.holder_window hheld
  have hroom := h.room
  exact hne (window_unique (n := 1024) ⟨hi, hi'⟩ ⟨hw.1, by omega⟩ e)

theorem Sound.fill (h : σ.Sound) {v : Nat} {pos : BitVec 32}
    (hc : σ.pushing t = .filling v pos) :
    Sound { σ with
      queue := σ.queue.setCell pos { σ.queue.cellAt pos with ptr := v }
      pushing := Function.update σ.pushing t (.publishing v pos) } := by
  have hholds : (σ.pushing t).holds = true := by simp [hc, Pushing.holds]
  obtain ⟨hlow, hhigh, hempty⟩ := h.holder_window hholds
  have hroom := h.room
  have hp := h.placed t
  rw [hc] at hp
  obtain ⟨hpos, hv, _⟩ := hp
  rw [hpos, setCell_ticket, cellAt_ticket]
  have hcell : ∀ i, σ.returned.length ≤ i → i < σ.returned.length + 1024 → i ≠ σ.position t →
      i % 1024 ≠ σ.position t % 1024 := fun i => h.cell_ne hholds
  have hsame : ∀ u, (Function.update σ.pushing t (.publishing v pos) u).holds =
      (σ.pushing u).holds := by
    intro u
    by_cases e : u = t
    · subst e
      simp [hc, Pushing.holds]
    · rw [Function.update_of_ne e]
  rw [← hpos]
  constructor
  · exact h.head
  · exact h.tail
  · exact h.order
  · exact h.popped
  · exact h.fresh
  · exact h.room
  · intro i hi hi'
    have hseq := h.seq i hi hi'
    by_cases e : i % 1024 = σ.position t % 1024
    · simp only [e, Function.update_self]
      rw [← e]
      exact hseq
    · simp only [Function.update_of_ne e]
      exact hseq
  · intro i hi hf
    have hne : i ≠ σ.position t := by
      rintro rfl
      simp only [hempty] at hf
      exact absurd hf (by decide)
    simp only [Function.update_of_ne (hcell i hi (h.filled_window hf) hne)]
    exact h.ptr i hi hf
  · intro i hi hf
    obtain ⟨u, hu, hui⟩ := h.held i hi hf
    exact ⟨u, (hsame u).trans hu, hui⟩
  · intro u w huw hu hw
    exact h.apart u w huw ((hsame u).symm.trans hu) ((hsame w).symm.trans hw)
  · intro u
    by_cases hut : u = t
    · subst hut
      simp only [Function.update_self]
      exact ⟨hpos, hv, hempty, by simp⟩
    · simp only [Function.update_of_ne hut]
      refine (h.placed u).frame rfl rfl List.prefix_rfl le_rfl (fun _ hi => hi) fun hu => ⟨rfl, ?_⟩
      obtain ⟨hlu, hhu, _⟩ := h.holder_window hu
      have hne := hcell _ hlu (by omega) (h.apart u t hut hu hholds)
      simp only [Function.update_of_ne hne]
  · exact h.staged.frame List.prefix_rfl rfl (fun _ hi => hi)

theorem Sound.publish (h : σ.Sound) {v : Nat} {pos : BitVec 32}
    (hc : σ.pushing t = .publishing v pos) :
    Sound { σ with
      queue := σ.queue.setCell pos { σ.queue.cellAt pos with seq := pos + 1 }
      pushing := Function.update σ.pushing t (.returned true)
      filled := Function.update σ.filled (σ.position t) true } := by
  have hholds : (σ.pushing t).holds = true := by simp [hc, Pushing.holds]
  obtain ⟨hlow, hhigh, hempty⟩ := h.holder_window hholds
  have hroom := h.room
  have hp := h.placed t
  rw [hc] at hp
  obtain ⟨hpos, hv, _, hptr⟩ := hp
  rw [hpos, setCell_ticket, cellAt_ticket, ticket_succ]
  have hcell : ∀ i, σ.returned.length ≤ i → i < σ.returned.length + 1024 → i ≠ σ.position t →
      i % 1024 ≠ σ.position t % 1024 := fun i => h.cell_ne hholds
  have hmono : ∀ i, σ.filled i = true → Function.update σ.filled (σ.position t) true i = true := by
    intro i hi
    by_cases e : i = σ.position t
    · rw [e, Function.update_self]
    · rw [Function.update_of_ne e, hi]
  have hothers : ∀ u, (Function.update σ.pushing t (.returned true) u).holds = true →
      u ≠ t ∧ (σ.pushing u).holds = true := by
    intro u hu
    by_cases e : u = t
    · simp [e, Pushing.holds] at hu
    · rw [Function.update_of_ne e] at hu
      exact ⟨e, hu⟩
  constructor
  · exact h.head
  · exact h.tail
  · exact h.order
  · exact fun i hi => hmono i (h.popped i hi)
  · intro i hi
    have hne : i ≠ σ.position t := by
      rintro rfl
      exact absurd hi (by simp only; omega)
    simp only [Function.update_of_ne hne]
    exact h.fresh i hi
  · exact h.room
  · intro i hi hi'
    by_cases e : i = σ.position t
    · simp [e]
    · simp only [Function.update_of_ne e, Function.update_of_ne (hcell i hi hi' e)]
      exact h.seq i hi hi'
  · intro i hi hf
    by_cases e : i = σ.position t
    · right
      simp only [e, Function.update_self]
      rw [hv, hptr]
    · simp only [Function.update_of_ne e] at hf
      simp only [Function.update_of_ne (hcell i hi (h.filled_window hf) e)]
      exact h.ptr i hi hf
  · intro i hi hf
    have e : i ≠ σ.position t := by
      rintro rfl
      simp at hf
    simp only [Function.update_of_ne e] at hf
    obtain ⟨u, hu, hui⟩ := h.held i hi hf
    have hut : u ≠ t := by
      rintro rfl
      exact e hui.symm
    exact ⟨u, by simpa only [Function.update_of_ne hut] using hu, hui⟩
  · intro u w huw hu hw
    exact h.apart u w huw (hothers u hu).2 (hothers w hw).2
  · intro u
    by_cases hut : u = t
    · simp [hut, Placed]
    · simp only [Function.update_of_ne hut]
      refine (h.placed u).frame rfl rfl List.prefix_rfl le_rfl hmono fun hu => ?_
      obtain ⟨hlu, hhu, _⟩ := h.holder_window hu
      have hne := h.apart u t hut hu hholds
      simp only [Function.update_of_ne hne, Function.update_of_ne (hcell _ hlu (by omega) hne),
        and_self]
  · exact h.staged.frame List.prefix_rfl rfl hmono

theorem Sound.turn (h : σ.Sound) {l : Popping} (hold : σ.popping.taken = false)
    (hahead : σ.popping.ahead = l.ahead) (hl : σ.Staged l) : Sound { σ with popping := l } where
  head := h.head
  tail := by rw [h.tail, hahead]
  order := h.order
  popped := h.popped
  fresh := h.fresh
  room := h.room
  seq := h.seq
  ptr := by
    intro i hi hf
    rcases h.ptr i hi hf with ⟨_, htaken⟩ | hp
    · rw [hold] at htaken
      exact absurd htaken (by decide)
    · exact .inr hp
  held := h.held
  apart := h.apart
  placed := fun u => (h.placed u).frame rfl rfl List.prefix_rfl le_rfl (fun _ hi => hi)
    fun _ => ⟨rfl, rfl⟩
  staged := hl

theorem cell_ne_tail {i : Nat} (hi : σ.returned.length ≤ i)
    (hi' : i < σ.returned.length + 1024) (hne : i ≠ σ.returned.length) :
    i % 1024 ≠ σ.returned.length % 1024 :=
  fun e => hne (window_unique (n := 1024) ⟨hi, hi'⟩ ⟨le_rfl, by omega⟩ e)

theorem Sound.holder_ne_tail (h : σ.Sound) (hheld : (σ.pushing t).holds = true)
    (hfull : σ.filled σ.returned.length = true) :
    σ.position t % 1024 ≠ σ.returned.length % 1024 := by
  obtain ⟨hlow, hhigh, hempty⟩ := h.holder_window hheld
  have hroom := h.room
  apply cell_ne_tail hlow (by omega)
  intro e
  rw [e, hfull] at hempty
  exact absurd hempty (by decide)

theorem Sound.clear (h : σ.Sound) {pos : BitVec 32} {p : Nat} (hc : σ.popping = .clearing pos p) :
    Sound { σ with
      queue := σ.queue.setCell pos { σ.queue.cellAt pos with ptr := 0 }
      popping := .advancing pos p } := by
  have hs := h.staged
  rw [hc] at hs
  obtain ⟨hpos, hfull, hp⟩ := hs
  rw [hpos, setCell_ticket, cellAt_ticket, ← hpos]
  constructor
  · exact h.head
  · simpa [hc, Popping.ahead] using h.tail
  · exact h.order
  · exact h.popped
  · exact h.fresh
  · exact h.room
  · intro i hi hi'
    have hseq := h.seq i hi hi'
    by_cases e : i % 1024 = σ.returned.length % 1024
    · simp only [e, Function.update_self]
      rw [← e]
      exact hseq
    · simp only [Function.update_of_ne e]
      exact hseq
  · intro i hi hf
    by_cases e : i = σ.returned.length
    · exact .inl ⟨e, rfl⟩
    · right
      simp only [Function.update_of_ne (cell_ne_tail hi (h.filled_window hf) e)]
      rcases h.ptr i hi hf with ⟨hT, _⟩ | hptr
      · exact absurd hT e
      · exact hptr
  · exact h.held
  · exact h.apart
  · intro u
    refine (h.placed u).frame rfl rfl List.prefix_rfl le_rfl (fun _ hi => hi) fun hu => ⟨rfl, ?_⟩
    simp only [Function.update_of_ne (h.holder_ne_tail hu hfull)]
  · exact ⟨hpos, hfull, hp⟩

theorem Sound.advance (h : σ.Sound) {pos : BitVec 32} {p : Nat}
    (hc : σ.popping = .advancing pos p) :
    Sound { σ with
      queue := { σ.queue with tail := pos + 1 }
      popping := .handing pos p } := by
  have hs := h.staged
  rw [hc] at hs
  constructor
  · exact h.head
  · rw [hs.1, ticket_succ]
    rfl
  · exact h.order
  · exact h.popped
  · exact h.fresh
  · exact h.room
  · exact h.seq
  · intro i hi hf
    have hptr := h.ptr i hi hf
    rw [hc] at hptr
    exact hptr
  · exact h.held
  · exact h.apart
  · exact fun u => (h.placed u).frame rfl rfl List.prefix_rfl le_rfl (fun _ hi => hi)
      fun _ => ⟨rfl, rfl⟩
  · exact hs

theorem Sound.hand (h : σ.Sound) {pos : BitVec 32} {p : Nat} (hc : σ.popping = .handing pos p) :
    Sound { σ with
      queue := σ.queue.setCell pos
        { σ.queue.cellAt pos with seq := pos + BitVec.ofNat 32 remoteSlots }
      popping := .returned p
      returned := σ.returned ++ [p] } := by
  have hs := h.staged
  rw [hc] at hs
  obtain ⟨hpos, hfull, hp⟩ := hs
  have hroom := h.room
  have hlen : (σ.returned ++ [p]).length = σ.returned.length + 1 := by simp
  rw [hpos, setCell_ticket, cellAt_ticket, ticket_lap]
  constructor
  · exact h.head
  · simp only [hlen]
    simpa [hc, Popping.ahead] using h.tail
  · obtain ⟨rest, hrest⟩ := h.order
    cases rest with
    | nil =>
      simp only [List.append_nil] at hrest
      simp [← hrest] at hp
    | cons q rest =>
      rw [← hrest] at hp
      simp only [List.getElem?_append_right le_rfl, Nat.sub_self, List.getElem?_cons_zero,
        Option.some.injEq] at hp
      exact ⟨rest, by rw [← hrest, hp]; simp⟩
  · intro i hi
    simp only [hlen] at hi
    rcases Nat.lt_succ_iff_lt_or_eq.mp hi with hlt | rfl
    · exact h.popped i hlt
    · exact hfull
  · exact h.fresh
  · simp only [hlen]
    omega
  · intro i hi hi'
    simp only [hlen] at hi hi'
    by_cases e : i = σ.returned.length + 1024
    · have hf : σ.filled i = false := h.fresh i (by omega)
      have hi : i % 1024 = σ.returned.length % 1024 := by omega
      simp only [hi, Function.update_self, hf]
      rw [e]
      rfl
    · have hne := cell_ne_tail (by omega) (by omega) (by omega : i ≠ σ.returned.length)
      simp only [Function.update_of_ne hne]
      exact h.seq i (by omega) (by omega)
  · intro i hi hf
    simp only [hlen] at hi
    right
    have hne := cell_ne_tail (by omega) (h.filled_window hf) (by omega : i ≠ σ.returned.length)
    simp only [Function.update_of_ne hne]
    rcases h.ptr i (by omega) hf with ⟨hT, _⟩ | hptr
    · omega
    · exact hptr
  · exact h.held
  · exact h.apart
  · intro u
    refine (h.placed u).frame rfl rfl List.prefix_rfl (by simp) (fun _ hi => hi) fun hu => ⟨rfl, ?_⟩
    simp only [Function.update_of_ne (h.holder_ne_tail hu hfull)]
  · trivial

theorem Sound.probe (h : σ.Sound) {v : Nat} {pos : BitVec 32} (hc : σ.pushing t = .probing v pos)
    (hlag : σ.returned.length < σ.position t + (2 ^ 31 - 1023)) :
    (((σ.queue.cellAt pos).seq - pos).toInt = 0 → σ.position t < σ.returned.length + 1024) ∧
      (((σ.queue.cellAt pos).seq - pos).toInt < 0 →
        σ.returned.length + 1024 ≤ σ.claimed.length) := by
  have hp := h.placed t
  rw [hc] at hp
  obtain ⟨hpos, hle, _⟩ := hp
  have hroom := h.room
  obtain ⟨j, hj, hj', hmod⟩ := window_exists (n := 1024) σ.returned.length (σ.position t)
    (by norm_num)
  have hseq := h.seq j hj hj'
  rw [hmod] at hseq
  have hone : (if σ.filled j then 1 else 0) ≤ 1 := by split <;> omega
  rw [hpos, cellAt_ticket, hseq]
  generalize (if σ.filled j then 1 else 0) = f at hone ⊢
  have hdiff : (ticket (j + f) - ticket (σ.position t)).toInt = (j + f : Nat) - σ.position t :=
    ticket_sub (by omega) (by omega)
  rw [hdiff]
  constructor
  · intro hz
    omega
  · intro hn
    omega

theorem completed_eq : σ.completed = tally σ.filled σ.claimed.length := rfl

theorem Sound.returned_le_completed (h : σ.Sound) : σ.returned.length ≤ σ.completed := by
  calc σ.returned.length = tally σ.filled σ.returned.length := (tally_full h.popped).symm
    _ ≤ σ.completed := tally_le_tally _ h.order.length_le

theorem Sound.load (h : σ.Sound) {v : Nat} (hold : (σ.pushing t).holds = false) :
    Sound { σ.noteLoad t with
      pushing := Function.update σ.pushing t (.probing v σ.queue.head) } := by
  refine h.move (t := t) (l := .probing v σ.queue.head) rfl rfl rfl rfl rfl rfl ?_ ?_ hold rfl ?_
  · intro u hu
    simp [noteLoad, hu]
  · intro u hu
    simp [noteLoad, hu]
  · exact ⟨by simpa [noteLoad] using h.head, by simp [noteLoad], by simp [noteLoad, completed_eq]⟩

/-- The step's own load of `remote_head`, if it has one, is not too old. -/
def Timely (bound : Nat) (σ : RemoteRun) : QueueEvent → Prop
  | .push t _ =>
      match σ.pushing t with
      | .probing _ _ | .claiming _ _ => σ.completed < σ.since t + bound
      | _ => True
  | _ => True

theorem Sound.lag (h : σ.Sound) {bound : Nat} (hsince : σ.since t ≤ tally σ.filled (σ.position t))
    (htime : σ.completed < σ.since t + bound) : σ.returned.length < σ.position t + bound := by
  have hret := h.returned_le_completed
  have hpos := tally_le σ.filled (σ.position t)
  omega

theorem Sound.push (h : σ.Sound) {spurious : Bool}
    (htime : σ.Timely (2 ^ 31 - 1023) (.push t spurious)) :
    (σ.next (.push t spurious)).Sound := by
  have hp := h.placed t
  cases hc : σ.pushing t with
  | idle | returned ok =>
    simp only [next, note, hc, pushStep]
    exact h.move (t := t) rfl rfl rfl rfl rfl rfl (fun _ _ => rfl) (fun _ _ => rfl)
      (by simp [hc, Pushing.holds]) rfl trivial
  | loading v =>
    simp only [next, note, hc, pushStep]
    exact h.load (by simp [hc, Pushing.holds])
  | probing v pos =>
    rw [hc] at hp
    simp only [Timely, hc] at htime
    have hprobe := h.probe hc (h.lag hp.2.2 htime)
    simp only [next, note, hc, pushStep]
    split_ifs with hz hn
    · exact h.move (t := t) rfl rfl rfl rfl rfl rfl (fun _ _ => rfl) (fun _ _ => rfl)
        (by simp [hc, Pushing.holds]) rfl ⟨hp.1, hp.2.1, hp.2.2, hprobe.1 hz⟩
    · exact h.move (t := t) rfl rfl rfl rfl rfl rfl (fun _ _ => rfl) (fun _ _ => rfl)
        (by simp [hc, Pushing.holds]) rfl trivial
    · exact h.move (t := t) rfl rfl rfl rfl rfl rfl (fun _ _ => rfl) (fun _ _ => rfl)
        (by simp [hc, Pushing.holds]) rfl trivial
  | claiming v pos =>
    rw [hc] at hp
    simp only [Timely, hc] at htime
    have hlag := h.lag hp.2.2.1 htime
    have hle := hp.2.1
    have hroom := h.room
    by_cases hcas : σ.queue.head = pos ∧ !spurious
    · simp only [next, note, hc, pushStep, if_pos hcas]
      apply h.claim hc
      have heq := hcas.1
      rw [h.head, hp.1, ticket_eq_iff (by omega) (by omega)] at heq
      exact heq.symm
    · simp only [next, note, hc, pushStep, if_neg hcas]
      exact h.load (by simp [hc, Pushing.holds])
  | filling v pos =>
    simp only [next, note, hc, pushStep]
    exact h.fill hc
  | publishing v pos =>
    simp only [next, note, hc, pushStep]
    exact h.publish hc

theorem Sound.look (h : σ.Sound) {pos : BitVec 32} (hc : σ.popping = .looking pos) :
    ((σ.queue.cellAt pos).seq - (pos + 1)).toInt = 0 ↔ σ.filled σ.returned.length = true := by
  have hs := h.staged
  rw [hc] at hs
  have hpos : pos = ticket σ.returned.length := hs
  have hseq := h.seq σ.returned.length le_rfl (by omega)
  rw [hpos, cellAt_ticket, hseq, ticket_succ]
  cases σ.filled σ.returned.length with
  | true => simp
  | false =>
    have hdiff := ticket_sub (a := σ.returned.length) (b := σ.returned.length + 1) (by omega)
      (by omega)
    simp only [Bool.false_eq_true, if_false, Nat.add_zero, hdiff]
    simp

theorem Sound.pop (h : σ.Sound) : (σ.next .pop).Sound := by
  have hs := h.staged
  cases hc : σ.popping with
  | idle | nothing | returned p =>
    simp only [next, hc, popStep]
    have htail := h.tail
    rw [hc] at htail
    exact h.turn (by rw [hc]; rfl) (by rw [hc]; rfl) htail
  | looking pos =>
    rw [hc] at hs
    simp only [next, hc, popStep]
    split_ifs with hz
    · exact h.turn (by rw [hc]; rfl) (by rw [hc]; rfl) trivial
    · exact h.turn (by rw [hc]; rfl) (by rw [hc]; rfl) ⟨hs, (h.look hc).mp (not_not.mp hz)⟩
  | reading pos =>
    rw [hc] at hs
    obtain ⟨hpos, hfull⟩ := hs
    have hptr : σ.claimed[σ.returned.length]? = some (σ.queue.cellAt pos).ptr := by
      rw [hpos, cellAt_ticket]
      rcases h.ptr _ le_rfl hfull with ⟨_, htaken⟩ | hptr
      · simp [hc, Popping.taken] at htaken
      · exact hptr
    simp only [next, hc, popStep]
    exact h.turn (by rw [hc]; rfl) (by rw [hc]; rfl) ⟨hpos, hfull, hptr⟩
  | clearing pos p =>
    simp only [next, hc, popStep]
    exact h.clear hc
  | advancing pos p =>
    simp only [next, hc, popStep]
    exact h.advance hc
  | handing pos p =>
    simp only [next, hc, popStep]
    exact h.hand hc

theorem Sound.call (h : σ.Sound) (t v : Nat) : (σ.next (.call t v)).Sound := by
  cases hc : σ.pushing t with
  | idle | returned ok =>
    simp only [next, hc]
    exact h.move (t := t) rfl rfl rfl rfl rfl rfl (fun _ _ => rfl) (fun _ _ => rfl)
      (by simp [hc, Pushing.holds]) rfl trivial
  | _ =>
    simp only [next, hc]
    exact h

theorem Sound.next (h : σ.Sound) {e : QueueEvent} (htime : σ.Timely (2 ^ 31 - 1023) e) :
    (σ.next e).Sound := by
  cases e with
  | call t v => exact h.call t v
  | push t spurious => exact h.push htime
  | pop => exact h.pop

end RemoteRun

end Mars
