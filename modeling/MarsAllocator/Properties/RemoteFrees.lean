import MarsAllocator.Steps.Ring

namespace Mars

open Wraparound

/-- Every run from `mm_remote_forget` in which fewer than `bound` pushes complete between a
producer's load of `remote_head` and the steps it takes on the value loaded. -/
inductive QueueReached (bound : Nat) : RemoteRun → Prop
  | start : QueueReached bound RemoteRun.start
  | next {σ : RemoteRun} {e : QueueEvent} (h : QueueReached bound σ) (he : σ.Timely bound e) :
      QueueReached bound (σ.next e)

/-- What the queue promises of a state and of the step that leaves it. -/
structure RemoteRun.Delivers (bound : Nat) (σ : RemoteRun) : Prop where
  order : σ.returned <+: σ.claimed
  written : ∀ i < σ.returned.length, σ.filled i = true
  handed : ∀ pos p, σ.popping = .handing pos p →
    σ.claimed[σ.returned.length]? = some p ∧ σ.filled σ.returned.length = true
  pushed : ∀ t v pos spurious, σ.pushing t = .publishing v pos →
    σ.claimed[σ.position t]? = some v ∧ σ.filled (σ.position t) = false ∧
      (σ.next (.push t spurious)).filled (σ.position t) = true ∧
      (σ.next (.push t spurious)).pushing t = .returned true
  pending : ∀ i < σ.claimed.length, σ.filled i = false → ∃ t v pos,
    (σ.pushing t = .filling v pos ∨ σ.pushing t = .publishing v pos) ∧ σ.position t = i ∧
      σ.claimed[i]? = some v
  drained : ∀ pos, σ.popping = .looking pos → (σ.next .pop).popping = .nothing →
    σ.filled σ.returned.length = false ∧
      ((∀ i < σ.claimed.length, σ.filled i = true) → σ.returned = σ.claimed)
  refused : ∀ t spurious, σ.Timely bound (.push t spurious) →
    σ.pushing t ≠ .returned false → (σ.next (.push t spurious)).pushing t = .returned false →
      σ.returned.length + remoteSlots ≤ σ.claimed.length

namespace RemoteRun

variable {σ : RemoteRun} {t : Nat}

theorem Sound.holder (h : σ.Sound) (hheld : (σ.pushing t).holds = true) : ∃ v pos,
    (σ.pushing t = .filling v pos ∨ σ.pushing t = .publishing v pos) ∧
      σ.claimed[σ.position t]? = some v := by
  have hp := h.placed t
  cases hc : σ.pushing t with
  | filling v pos =>
    rw [hc] at hp
    exact ⟨v, pos, .inl rfl, hp.2.1⟩
  | publishing v pos =>
    rw [hc] at hp
    exact ⟨v, pos, .inr rfl, hp.2.1⟩
  | _ => simp [hc, Pushing.holds] at hheld

theorem Sound.refused (h : σ.Sound) {spurious : Bool}
    (htime : σ.Timely (2 ^ 31 - 1023) (.push t spurious)) (hold : σ.pushing t ≠ .returned false)
    (hnew : (σ.next (.push t spurious)).pushing t = .returned false) :
    σ.returned.length + remoteSlots ≤ σ.claimed.length := by
  have hp := h.placed t
  cases hc : σ.pushing t with
  | probing v pos =>
    rw [hc] at hp
    simp only [Timely, hc] at htime
    have hprobe := h.probe hc (h.lag hp.2.2 htime)
    simp only [RemoteRun.next, note, hc, pushStep] at hnew
    split_ifs at hnew with hz hn
    · simp at hnew
    · exact hprobe.2 hn
    · simp at hnew
  | claiming v pos =>
    simp only [RemoteRun.next, hc, pushStep] at hnew
    split_ifs at hnew <;> simp at hnew
  | returned ok =>
    simp only [RemoteRun.next, hc, pushStep, Function.update_self] at hnew
    exact absurd (hc.trans hnew) hold
  | _ => simp [RemoteRun.next, hc, pushStep] at hnew

theorem Sound.drained (h : σ.Sound) {pos : BitVec 32} (hc : σ.popping = .looking pos)
    (hnone : (σ.next .pop).popping = .nothing) : σ.filled σ.returned.length = false := by
  have hlook := h.look hc
  simp only [RemoteRun.next, hc, popStep] at hnone
  split_ifs at hnone with hz
  exact Bool.eq_false_iff.mpr fun hf => hz (hlook.mpr hf)

end RemoteRun

theorem QueueReached.sound {σ : RemoteRun} (h : QueueReached (2 ^ 31 - 1023) σ) : σ.Sound := by
  induction h with
  | start => exact RemoteRun.sound_start
  | next _ he ih => exact ih.next he

theorem remote_queue_delivers {σ : RemoteRun} (h : QueueReached (2 ^ 31 - 1023) σ) :
    σ.Delivers (2 ^ 31 - 1023) := by
  have hs := h.sound
  constructor
  · exact hs.order
  · exact hs.popped
  · intro pos p hc
    have hst := hs.staged
    rw [hc] at hst
    exact ⟨hst.2.2, hst.2.1⟩
  · intro t v pos spurious hc
    have hp := hs.placed t
    rw [hc] at hp
    exact ⟨hp.2.1, hp.2.2.1, by simp [RemoteRun.next, RemoteRun.note, hc, pushStep],
      by simp [RemoteRun.next, hc, pushStep]⟩
  · intro i hi hf
    obtain ⟨t, ht, rfl⟩ := hs.held i hi hf
    obtain ⟨v, pos, hc, hv⟩ := hs.holder ht
    exact ⟨t, v, pos, hc, rfl, hv⟩
  · intro pos hc hnone
    have hf := hs.drained hc hnone
    refine ⟨hf, fun hall => hs.order.eq_of_length (le_antisymm hs.order.length_le ?_)⟩
    by_contra hlt
    rw [hall _ (not_le.mp hlt)] at hf
    exact absurd hf (by decide)
  · exact fun t spurious => hs.refused

/-- Two producers load the same position; the one that loses it publishes first, and the consumer
waits for the other. -/
def crossing : List QueueEvent :=
  [.call 0 7, .call 1 8, .push 0 false, .push 1 false, .push 0 false, .push 1 false, .push 1 false,
    .push 0 false, .push 0 false, .push 0 false, .push 0 false, .push 0 false, .pop, .pop,
    .push 1 false, .push 1 false, .pop, .pop, .pop, .pop, .pop, .pop, .pop, .pop, .pop, .pop, .pop,
    .pop]

theorem remote_queue_delivers_seven :
    ((crossing.take 14).foldl RemoteRun.next RemoteRun.start).popping = .nothing ∧
      let σ := crossing.foldl RemoteRun.next RemoteRun.start
      σ.returned = [8, 7] ∧ σ.Delivers (2 ^ 31 - 1023) := by
  have hsoon : 0 < 0 + (2 ^ 31 - 1023) := by norm_num
  have h₁ : QueueReached (2 ^ 31 - 1023) _ := QueueReached.start.next (e := .call 0 7) trivial
  have h₂ := (h₁.next (e := .call 1 8) trivial).next (e := .push 0 false) trivial
  have h₃ := (h₂.next (e := .push 1 false) trivial).next (e := .push 0 false) hsoon
  have h₄ := (h₃.next (e := .push 1 false) hsoon).next (e := .push 1 false) hsoon
  have h₅ := (h₄.next (e := .push 0 false) hsoon).next (e := .push 0 false) hsoon
  have h₆ := (h₅.next (e := .push 0 false) hsoon).next (e := .push 0 false) trivial
  have h₇ := (h₆.next (e := .push 0 false) trivial).next (e := .pop) trivial
  have h₈ := (h₇.next (e := .pop) trivial).next (e := .push 1 false) trivial
  have h₉ := (h₈.next (e := .push 1 false) trivial).next (e := .pop) trivial
  have h₁₀ := ((h₉.next (e := .pop) trivial).next (e := .pop) trivial).next (e := .pop) trivial
  have h₁₁ := ((h₁₀.next (e := .pop) trivial).next (e := .pop) trivial).next (e := .pop) trivial
  have h₁₂ := ((h₁₁.next (e := .pop) trivial).next (e := .pop) trivial).next (e := .pop) trivial
  have h₁₃ := (h₁₂.next (e := .pop) trivial).next (e := .pop) trivial
  exact ⟨rfl, rfl, remote_queue_delivers h₁₃⟩

/-- Thread 0 has stopped between its load of `remote_head` and its read of the cell; thread 1
is alone with the consumer. -/
structure Lone (σ : RemoteRun) (claimed returned : Nat) (l : Pushing) (k : Popping) : Prop where
  reached : QueueReached (2 ^ 31) σ
  sound : σ.Sound
  claimed : σ.claimed.length = claimed
  returned : σ.returned.length = returned
  pushing : σ.pushing 1 = l
  popping : σ.popping = k
  stalled : σ.pushing 0 = .probing 0 (ticket 0)

namespace Lone

variable {σ : RemoteRun} {n m : Nat} {l : Pushing} {k : Popping}

theorem step (h : Lone σ n m l k) {e : QueueEvent} (htime : σ.Timely (2 ^ 31 - 1023) e)
    {n' m' : Nat} {l' : Pushing} {k' : Popping} (hn : (σ.next e).claimed.length = n')
    (hm : (σ.next e).returned.length = m') (hl : (σ.next e).pushing 1 = l')
    (hk : (σ.next e).popping = k') (hz : (σ.next e).pushing 0 = σ.pushing 0) :
    Lone (σ.next e) n' m' l' k' := by
  refine ⟨h.reached.next ?_, h.sound.next htime, hn, hm, hl, hk, hz.trans h.stalled⟩
  cases e with
  | push t spurious =>
    cases hc : σ.pushing t <;> simp only [RemoteRun.Timely, hc] at htime ⊢ <;> omega
  | _ => trivial

theorem push_one (h : Lone σ n n l k) (hl : l = .idle ∨ l = .returned true) :
    ∃ σ', Lone σ' (n + 1) n (.returned true) k ∧ σ'.filled n = true := by
  obtain ⟨σ₁, h₁⟩ : ∃ σ', Lone σ' n n (.loading 0) k := by
    refine ⟨σ.next (.call 1 0), h.step (e := .call 1 0) trivial ?_ ?_ ?_ ?_ ?_⟩ <;>
      rcases hl with rfl | rfl <;>
        simp [RemoteRun.next, h.pushing, h.claimed, h.returned, h.popping]
  obtain ⟨σ₂, h₂, hsince⟩ : ∃ σ', Lone σ' n n (.probing 0 (ticket n)) k ∧
      σ'.since 1 = σ'.completed := by
    refine ⟨σ₁.next (.push 1 false), h₁.step ?_ ?_ ?_ ?_ ?_ ?_, ?_⟩ <;>
      simp [RemoteRun.next, RemoteRun.note, RemoteRun.noteLoad, RemoteRun.Timely, pushStep,
        RemoteRun.completed, h₁.pushing, h₁.claimed, h₁.returned, h₁.popping, h₁.sound.head]
  obtain ⟨σ₃, h₃, hsince⟩ : ∃ σ', Lone σ' n n (.claiming 0 (ticket n)) k ∧
      σ'.since 1 = σ'.completed := by
    have hseq := h₂.sound.seq n (by rw [h₂.returned]) (by rw [h₂.returned]; omega)
    rw [h₂.sound.fresh n (by rw [h₂.claimed])] at hseq
    refine ⟨σ₂.next (.push 1 false), h₂.step ?_ ?_ ?_ ?_ ?_ ?_, ?_⟩ <;>
      simp [RemoteRun.next, RemoteRun.note, RemoteRun.Timely, pushStep, RemoteRun.completed,
        h₂.pushing, h₂.claimed, h₂.returned, h₂.popping, cellAt_ticket, hseq, hsince]
  obtain ⟨σ₄, h₄⟩ : ∃ σ', Lone σ' (n + 1) n (.filling 0 (ticket n)) k := by
    refine ⟨σ₃.next (.push 1 false), h₃.step ?_ ?_ ?_ ?_ ?_ ?_⟩ <;>
      simp [RemoteRun.next, RemoteRun.note, RemoteRun.Timely, pushStep, h₃.pushing, h₃.claimed,
        h₃.returned, h₃.popping, h₃.sound.head, hsince]
  obtain ⟨σ₅, h₅⟩ : ∃ σ', Lone σ' (n + 1) n (.publishing 0 (ticket n)) k := by
    refine ⟨σ₄.next (.push 1 false), h₄.step ?_ ?_ ?_ ?_ ?_ ?_⟩ <;>
      simp [RemoteRun.next, RemoteRun.note, RemoteRun.Timely, pushStep, h₄.pushing, h₄.claimed,
        h₄.returned, h₄.popping]
  have hpos : σ₅.position 1 = n := by
    have hw := h₅.sound.holder_window (t := 1) (by rw [h₅.pushing]; rfl)
    rw [h₅.returned, h₅.claimed] at hw
    omega
  refine ⟨σ₅.next (.push 1 false), h₅.step ?_ ?_ ?_ ?_ ?_ ?_, ?_⟩ <;>
    simp [RemoteRun.next, RemoteRun.note, RemoteRun.Timely, pushStep, h₅.pushing, h₅.claimed,
      h₅.returned, h₅.popping, hpos]

theorem pop_one (h : Lone σ (n + 1) n l k) (hk : k = .idle ∨ ∃ p, k = .returned p)
    (hfull : σ.filled n = true) : ∃ σ' p, Lone σ' (n + 1) (n + 1) l (.returned p) := by
  obtain ⟨σ₁, h₁, hfull⟩ : ∃ σ', Lone σ' (n + 1) n l (.looking (ticket n)) ∧
      σ'.filled n = true := by
    have htail := h.sound.tail
    rw [h.popping, h.returned] at htail
    refine ⟨σ.next .pop, h.step (e := .pop) trivial ?_ ?_ ?_ ?_ ?_, ?_⟩ <;>
      rcases hk with rfl | ⟨p, rfl⟩ <;>
        simp [RemoteRun.next, popStep, h.pushing, h.claimed, h.returned, h.popping, hfull, htail,
          Popping.ahead]
  obtain ⟨σ₂, h₂⟩ : ∃ σ', Lone σ' (n + 1) n l (.reading (ticket n)) := by
    have hlook := (h₁.sound.look h₁.popping).mpr (by rw [h₁.returned, hfull])
    refine ⟨σ₁.next .pop, h₁.step (e := .pop) trivial ?_ ?_ ?_ ?_ ?_⟩ <;>
      simp only [RemoteRun.next, popStep, h₁.pushing, h₁.claimed, h₁.returned, h₁.popping, hlook,
        ne_eq, not_true, if_false]
  obtain ⟨σ₃, p, h₃⟩ : ∃ σ' p, Lone σ' (n + 1) n l (.clearing (ticket n) p) := by
    refine ⟨σ₂.next .pop, _, h₂.step (e := .pop) trivial ?_ ?_ ?_
      (by simp only [RemoteRun.next, popStep, h₂.popping]; rfl) ?_⟩ <;>
      simp [RemoteRun.next, h₂.pushing, h₂.claimed, h₂.returned, h₂.popping]
  obtain ⟨σ₄, h₄⟩ : ∃ σ', Lone σ' (n + 1) n l (.advancing (ticket n) p) := by
    refine ⟨σ₃.next .pop, h₃.step (e := .pop) trivial ?_ ?_ ?_ ?_ ?_⟩ <;>
      simp [RemoteRun.next, popStep, h₃.pushing, h₃.claimed, h₃.returned, h₃.popping]
  obtain ⟨σ₅, h₅⟩ : ∃ σ', Lone σ' (n + 1) n l (.handing (ticket n) p) := by
    refine ⟨σ₄.next .pop, h₄.step (e := .pop) trivial ?_ ?_ ?_ ?_ ?_⟩ <;>
      simp [RemoteRun.next, popStep, h₄.pushing, h₄.claimed, h₄.returned, h₄.popping]
  refine ⟨σ₅.next .pop, p, h₅.step (e := .pop) trivial ?_ ?_ ?_ ?_ ?_⟩ <;>
    simp [RemoteRun.next, popStep, h₅.pushing, h₅.claimed, h₅.returned, h₅.popping]

theorem stalled_first : ∃ σ, Lone σ 0 0 .idle .idle := by
  have h₀ : QueueReached (2 ^ 31) (RemoteRun.start.next (.call 0 0)) := .next .start trivial
  have s₀ : (RemoteRun.start.next (.call 0 0)).Sound := RemoteRun.sound_start.call 0 0
  refine ⟨(RemoteRun.start.next (.call 0 0)).next (.push 0 false), h₀.next ?_, s₀.next ?_,
    rfl, rfl, ?_, rfl, ?_⟩ <;>
    simp [RemoteRun.start, RemoteRun.next, RemoteRun.note, RemoteRun.noteLoad, RemoteRun.Timely,
      pushStep, remoteForget, ticket]

theorem round (n : Nat) : ∃ σ l k, Lone σ n n l k ∧ (l = .idle ∨ l = .returned true) ∧
    (k = .idle ∨ ∃ p, k = .returned p) := by
  induction n with
  | zero =>
    obtain ⟨σ, h⟩ := stalled_first
    exact ⟨σ, _, _, h, .inl rfl, .inl rfl⟩
  | succ n ih =>
    obtain ⟨σ, l, k, h, hl, hk⟩ := ih
    obtain ⟨σ₁, h₁, hfull⟩ := h.push_one hl
    obtain ⟨σ₂, p, h₂⟩ := h₁.pop_one hk hfull
    exact ⟨σ₂, _, _, h₂, .inr rfl, .inr ⟨p, rfl⟩⟩

end Lone

/-- With 2^31 - 1023 pushes popped since its load, the cell a producer reads carries the ticket
2^31 laps of the counter away, and an empty queue turns it down. -/
theorem remote_push_refused_empty :
    ¬ ∀ σ, QueueReached (2 ^ 31) σ → σ.Delivers (2 ^ 31) := by
  intro hall
  obtain ⟨σ, l, k, h, _, _⟩ := Lone.round (2 ^ 31 - 1023)
  have hdone : σ.completed ≤ 2 ^ 31 - 1023 := by
    rw [RemoteRun.completed_eq, h.claimed]
    exact tally_le _ _
  have hseq := h.sound.seq (2 ^ 31) (by rw [h.returned]; omega) (by rw [h.returned]; omega)
  rw [h.sound.fresh (2 ^ 31) (by rw [h.claimed]; omega)] at hseq
  have htime : σ.Timely (2 ^ 31) (.push 0 false) := by
    simp only [RemoteRun.Timely, h.stalled]
    omega
  have hdiff : ((σ.queue.cellAt (ticket 0)).seq - ticket 0).toInt = -2 ^ 31 := by
    rw [cellAt_ticket]
    have hslot : 0 % 1024 = 2 ^ 31 % 1024 := by norm_num
    rw [hslot, hseq]
    decide
  have hnew : (σ.next (.push 0 false)).pushing 0 = .returned false := by
    simp [RemoteRun.next, h.stalled, pushStep, hdiff]
  have hroom := (hall σ h.reached).refused 0 false htime (by simp [h.stalled]) hnew
  rw [h.returned, h.claimed] at hroom
  exact absurd hroom (by decide)

end Mars
