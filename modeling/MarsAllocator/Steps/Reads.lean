import MarsAllocator.Steps.Seal

namespace Mars

open ByteMemory StateProgram

variable {α β : Type}

/-- The bytes `[a, a + n)` lie in a span of the arena. -/
def Heap.Covers (h : Heap) (a n : Nat) : Prop := ∃ s ∈ h.spans, s.lo ≤ a ∧ a + n ≤ s.hi

theorem Heap.Covers.sub {h : Heap} {a n : Nat} (hc : h.Covers a n) {b k : Nat} (ha : a ≤ b)
    (hb : b + k ≤ a + n) : h.Covers b k := by
  obtain ⟨s, hs, hlo, hhi⟩ := hc
  exact ⟨s, hs, hlo.trans ha, hb.trans hhi⟩

theorem Heap.touch_eq {h : Heap} {a n : Nat} (hc : h.Covers a n) :
    h.touch a n = h := by
  have hcov : h.covers a n = true := by
    obtain ⟨s, hs, hlo, hhi⟩ := hc
    exact List.any_eq_true.mpr ⟨s, hs, by simp [hlo, hhi]⟩
  have hwild : (h.wild || !h.covers a n) = h.wild := by
    rw [hcov, Bool.not_true, Bool.or_false]
  rw [Heap.touch, hwild]

/-- `x` leaves `h` exactly as it is. -/
def Still (x : HeapM α) (h : Heap) : Prop := (x h).2 = h

namespace Still

variable {h : Heap}

theorem run {x : HeapM α} (hx : Still x h) : x h = ((x h).1, h) := Prod.ext rfl hx

theorem pure (a : α) : Still (Pure.pure a) h := rfl

theorem bind {x : HeapM α} {f : α → HeapM β} (hx : Still x h) (hf : Still (f (x h).1) h) :
    Still (x >>= f) h := by
  rw [Still, Prog.bind_run, hx]
  exact hf

theorem ite {c : Prop} [Decidable c] {x y : HeapM α} (hx : c → Still x h) (hy : ¬ c → Still y h) :
    Still (if c then x else y) h := by
  by_cases hc : c
  · rw [if_pos hc]
    exact hx hc
  · rw [if_neg hc]
    exact hy hc

theorem elim {o : Option α} {x : HeapM β} {f : α → HeapM β} (hx : o = none → Still x h)
    (hf : ∀ a, o = some a → Still (f a) h) : Still (Prog.elim o x f) h := by
  cases o with
  | none => exact hx rfl
  | some a => exact hf a rfl

theorem and {x y : HeapM Bool} (hx : Still x h) (hy : (x h).1 = true → Still y h) :
    Still (Prog.and x y) h :=
  bind hx (ite hy fun _ => rfl)

theorem loadN {a n : Nat} (hc : h.Covers a n) : Still (loadN a n) h :=
  Heap.touch_eq hc

theorem withSpanOf {p : Nat} {miss : HeapM α} {hit : Span → HeapM α} (hm : Still miss h)
    (hh : ∀ s, h.spanOf p = some s → Still (hit s) h) : Still (withSpanOf p miss hit) h :=
  bind rfl (elim (fun _ => hm) hh)

end Still

section Rules

variable {Q : β → Heap → Prop} {h : Heap}

theorem wp_still {x : HeapM α} {f : α → HeapM β} (hx : Still x h) (hf : wp (f (x h).1) Q h) :
    wp (x >>= f) Q h := by
  rw [wp_bind, wp, hx]
  exact hf

theorem wp_still_eq {x : HeapM α} {f : α → HeapM β} {a : α} (hx : Still x h) (hv : (x h).1 = a)
    (hf : wp (f a) Q h) : wp (x >>= f) Q h :=
  wp_still hx (hv ▸ hf)

theorem bind_still {x : HeapM α} {f : α → HeapM β} (hx : Still x h) :
    (x >>= f) h = f (x h).1 h := by
  rw [Prog.bind_run, hx]

end Rules

variable {P : Profile} {h : Heap} {s : Span} {b : Nat}

section Block

variable (hb : h.Covers b 8)
include hb

theorem still_load64 : Still (load64 b) h := Still.loadN hb

theorem still_blockSize : Still (blockSize b) h := (still_load64 hb).bind rfl

theorem still_isUsed : Still (isUsed b) h := (still_load64 hb).bind rfl

theorem still_prevInUse : Still (prevInUse b) h := (still_load64 hb).bind rfl

theorem still_isQuarantined : Still (isQuarantined b) h := (still_load64 hb).bind rfl

theorem still_requestedSize : Still (requestedSize P b) h := (still_load64 hb).bind rfl

theorem still_blockEnd : Still (blockEnd b) h := (still_blockSize hb).bind rfl

end Block

theorem still_payloadCrc (hb : h.Covers b P.hdrSize) : Still (payloadCrc P b) h := by
  refine Still.ite (fun hc => ?_) fun _ => rfl
  have h16 := Profile.hdrSize_of_crc hc
  exact Still.loadN (hb.sub (by omega) (by omega))

theorem still_freeLinkGet (hb : h.Covers b P.minBlock) (which : Link) :
    Still (freeLinkGet P b which) h := by
  have hp := P.sizes
  have ho : which.offset ≤ 8 := by cases which <;> simp [Link.offset]
  exact (still_load64 (hb.sub (by rw [payloadOf]; omega) (by rw [payloadOf]; omega))).bind rfl

/-- The span that `b` is found in, if any, is the arena's own. -/
def Heap.Own (h : Heap) (b : Nat) : Prop := ∀ s, h.spanOf b = some s → s ∈ h.spans

theorem Heap.Own.covers (ho : h.Own b) (hs : h.spanOf b = some s) (hst : startOkIn P s b = true) :
    h.Covers b P.minBlock := by
  have hp := P.sizes
  obtain ⟨-, hlo, hhi⟩ := spanOf_bounds hs
  simp only [startOkIn, Bool.and_eq_true, decide_eq_true_eq] at hst
  exact ⟨s, ho s hs, hlo, by omega⟩

theorem Heap.Legible.covers (hl : h.Legible P s b) (ho : h.Own b) :
    h.Covers b (wordSize (h.word b)) :=
  ⟨s, ho s hl.span, hl.lo_le, hl.end_le⟩

theorem Heap.Legible.covers_min (hl : h.Legible P s b) (ho : h.Own b) : h.Covers b P.minBlock :=
  (hl.covers ho).sub (le_refl b) (Nat.add_le_add_left hl.min_le b)

theorem still_isBlockStart : Still (isBlockStart P b) h :=
  Still.ite (fun _ => rfl) fun _ => Still.withSpanOf rfl fun _ _ => rfl

theorem still_hdrCrcMatches (hc : h.Covers b P.hdrSize) (hcrc : P.hasCrc = true) :
    Still (hdrCrcMatches P s b) h := by
  have h16 := Profile.hdrSize_of_crc hcrc
  exact (Still.loadN (hc.sub (by omega) (by omega))).bind
    ((still_load64 (hc.sub (le_refl b) (by omega))).bind ((still_payloadCrc hc).bind rfl))

section Own

variable (ho : h.Own b)
include ho

theorem still_blockOkIn (hs : h.spanOf b = some s) : Still (blockOkIn P s b) h := by
  have hp := P.sizes
  refine Still.ite (fun _ => rfl) fun hst => ?_
  have hc := ho.covers (P := P) hs (by simpa using hst)
  exact (still_blockSize (hc.sub (le_refl b) (by omega))).bind rfl

theorem still_isBlock : Still (isBlock P b) h :=
  Still.ite (fun _ => rfl) fun _ => Still.withSpanOf rfl fun _ hs => still_blockOkIn ho hs

theorem still_headerOk : Still (headerOk P b) h := by
  have hp := P.sizes
  refine Still.ite (fun _ => rfl) fun hb => Still.withSpanOf rfl fun s hs => ?_
  refine (still_blockOkIn ho hs).bind (Still.ite (fun hok => ?_) fun _ => rfl)
  refine Still.ite (fun hcrc => ?_) fun _ => rfl
  have hst : startOkIn P s b = true := by
    by_contra hst
    rw [blockOkIn, Prog.ite_run, if_pos (by simpa using hst)] at hok
    exact absurd hok (by simp [Prog.pure_run])
  exact still_hdrCrcMatches ((ho.covers hs hst).sub (le_refl b) (by omega)) hcrc

theorem headerOk_covers (hk : (headerOk P b h).1 = true) :
    ∃ s, h.HeaderOk P s b ∧ h.Covers b (wordSize (h.word b)) ∧ h.Covers b P.minBlock := by
  obtain ⟨s, hk⟩ := (headerOk_fst h b).mp hk
  exact ⟨s, hk, hk.covers ho, hk.covers_min ho⟩

theorem still_extentCorroborated : Still (extentCorroborated P b) h := by
  have hp := P.sizes
  refine (still_headerOk ho).bind (Still.ite (fun hk => ?_) fun _ => rfl)
  obtain ⟨s, hk, hc, hm⟩ := headerOk_covers ho hk
  have h8 : h.Covers b 8 := hm.sub (le_refl b) (by omega)
  have hmin := hk.min_le
  refine Still.ite (fun _ => rfl) fun _ => (still_isUsed h8).bind
    (Still.ite (fun _ => rfl) fun _ => (still_blockSize h8).bind
      ((still_load64 (hc.sub ?_ ?_)).bind rfl))
  all_goals
    change _ ≤ _ at *
    have : (blockSize b h).1 = wordSize (h.word b) := rfl
    omega

theorem still_unchanged (n : Nat) (used : Bool) : Still (unchanged P b n used) h := by
  have hp := P.sizes
  refine (still_headerOk ho).bind (Still.ite (fun hk => ?_) fun _ => rfl)
  obtain ⟨s, hk, hc, hm⟩ := headerOk_covers ho hk
  have h8 : h.Covers b 8 := hm.sub (le_refl b) (by omega)
  exact (still_blockSize h8).bind ((still_isUsed h8).bind rfl)

theorem still_nodeOk (bin : Nat) : Still (nodeOk P b bin) h := by
  have hp := P.sizes
  refine (still_isBlock ho).bind (Still.ite (fun _ => ?_) fun _ => rfl)
  refine (still_headerOk ho).bind (Still.ite (fun hk => ?_) fun _ => rfl)
  obtain ⟨s, hk, hc, hm⟩ := headerOk_covers ho hk
  have h8 : h.Covers b 8 := hm.sub (le_refl b) (by omega)
  exact (still_isUsed h8).bind (Still.ite (fun _ => rfl) fun _ => (still_blockSize h8).bind rfl)

end Own

theorem still_nextNonempty (start : Nat) : Still (nextNonempty start) h :=
  Still.ite (fun _ => rfl) fun _ => rfl

section Home

variable (ho : ∀ b, h.Own b)
include ho

theorem nodeOk_headerOk {bin : Nat} (hn : (nodeOk P b bin h).1 = true) :
    ∃ s, h.HeaderOk P s b ∧ h.Covers b P.minBlock := by
  rw [nodeOk, bind_still (still_isBlock (ho b)), Prog.ite_run] at hn
  split at hn
  swap
  · exact absurd hn (by simp [Prog.pure_run])
  rw [bind_still (still_headerOk (ho b)), Prog.ite_run] at hn
  split at hn
  swap
  · exact absurd hn (by simp [Prog.pure_run])
  rename_i hk
  obtain ⟨s, hk, -, hm⟩ := headerOk_covers (ho b) hk
  exact ⟨s, hk, hm⟩

theorem still_nextLinkOk (bin next : Nat) : Still (nextLinkOk P b bin next) h := by
  refine Still.ite (fun _ => rfl) fun _ => Still.and (still_nodeOk (ho next) bin) fun hn => ?_
  obtain ⟨s, -, hm⟩ := nodeOk_headerOk ho hn
  exact (still_freeLinkGet hm .prev).bind rfl

theorem still_prevLinkOk (bin prev : Nat) : Still (prevLinkOk P b bin prev) h := by
  refine Still.ite (fun _ => rfl) fun _ => Still.and (still_nodeOk (ho prev) bin) fun hn => ?_
  obtain ⟨s, -, hm⟩ := nodeOk_headerOk ho hn
  exact (still_freeLinkGet hm .next).bind rfl

theorem still_linksOk (bin : Nat) : Still (linksOk P b bin) h := by
  refine (still_nodeOk (ho b) bin).bind (Still.ite (fun hn => ?_) fun _ => rfl)
  obtain ⟨s, -, hm⟩ := nodeOk_headerOk ho hn
  exact (still_freeLinkGet hm .next).bind ((still_freeLinkGet hm .prev).bind
    (Still.and (still_nextLinkOk ho bin _) fun _ => still_prevLinkOk ho bin _))

theorem still_tilingAgrees (hb : h.Covers b 8) : Still (tilingAgrees P s b) h :=
  (still_blockEnd hb).bind (Still.ite (fun _ => rfl) fun _ => Still.ite (fun _ => rfl) fun _ =>
    still_extentCorroborated (ho _))

theorem extentCorroborated_headerOk (hx : (extentCorroborated P b h).1 = true) :
    (headerOk P b h).1 = true := by
  rw [extentCorroborated, bind_still (still_headerOk (ho b)), Prog.ite_run] at hx
  split at hx
  · assumption
  · exact absurd hx (by simp [Prog.pure_run])

theorem still_scanResyncFrom (steps p : Nat) : Still (scanResyncFrom P s steps p) h := by
  have hp := P.sizes
  induction steps generalizing p with
  | zero => exact Still.pure 0
  | succ steps ih =>
    rw [scanResyncFrom]
    refine Still.ite (fun _ => ?_) fun _ => Still.pure 0
    refine (Still.and (still_extentCorroborated (ho p)) fun hx => ?_).bind
      (Still.ite (fun _ => Still.pure p) fun _ => ih _)
    obtain ⟨s', -, -, hm⟩ := headerOk_covers (ho p) (extentCorroborated_headerOk ho hx)
    exact still_tilingAgrees ho (hm.sub (le_refl p) (by omega))

theorem still_scanResync (start : Nat) : Still (scanResync P s start) h :=
  still_scanResyncFrom ho _ _

theorem still_scanBinFrom (bin need left back cur : Nat) :
    Still (scanBinFrom P bin need left back cur) h := by
  have hp := P.sizes
  induction left generalizing back cur with
  | zero => exact Still.pure _
  | succ left ih =>
    rw [scanBinFrom]
    refine Still.ite (fun _ => Still.pure _) fun _ => ?_
    have hand : Still (Prog.and (nodeOk P cur bin) do
        let p ← freeLinkGet P cur .prev
        return p == back) h := by
      refine Still.and (still_nodeOk (ho cur) bin) fun hn => ?_
      obtain ⟨s, -, hm⟩ := nodeOk_headerOk ho hn
      exact (still_freeLinkGet hm .prev).bind rfl
    refine hand.bind (Still.ite (fun hok => ?_) fun _ => Still.pure _)
    have hn : (nodeOk P cur bin h).1 = true := by
      rw [Prog.and_run] at hok
      by_contra hn
      rw [if_neg hn] at hok
      exact Bool.false_ne_true hok
    obtain ⟨s, -, hm⟩ := nodeOk_headerOk ho hn
    exact (still_blockSize (hm.sub (le_refl cur) (by omega))).bind
      (Still.ite (fun _ => Still.pure _) fun _ => (still_freeLinkGet hm .next).bind (ih _ _))

theorem still_binHead (bin : Nat) : Still (binHead P bin) h := by
  refine Still.bind rfl (Still.ite (fun _ => Still.pure _) fun _ => ?_)
  refine (Still.and (still_nodeOk (ho _) bin) fun hn => ?_).bind
    (Still.ite (fun _ => Still.pure _) fun _ => Still.pure _)
  obtain ⟨s, -, hm⟩ := nodeOk_headerOk ho hn
  exact (still_freeLinkGet hm .prev).bind rfl

theorem still_binProbe (need : Nat) : Still (binProbe P need) h := by
  have hs : Still (scanBin P (binOf P need) need) h := Still.bind rfl (still_scanBinFrom ho _ _ _ _ _)
  exact hs.bind (Still.ite (fun _ => Still.pure _) fun _ => (still_nextNonempty _).bind
    (Still.ite (fun _ => still_binHead ho _) fun _ => Still.pure _))

end Home

theorem still_prevFreeBlock (ho : ∀ b, h.Own b) (hs : h.spanOf b = some s) (hm : s ∈ h.spans)
    (hb : b + 8 ≤ s.hi) : Still (prevFreeBlock P b) h := by
  have hp := P.sizes
  obtain ⟨-, hlo, hhi⟩ := spanOf_bounds hs
  refine (still_prevInUse ⟨s, hm, hlo, hb⟩).bind (Still.ite (fun _ => rfl) fun _ => ?_)
  refine Still.withSpanOf rfl fun s' hs' => ?_
  obtain rfl : s = s' := Option.some.inj (hs.symm.trans hs')
  refine Still.ite (fun _ => rfl) fun hmin => ?_
  have h8 : h.Covers (b - 8) 8 := ⟨s, hm, by omega, by omega⟩
  refine Still.bind (still_load64 h8) (Still.ite (fun _ => rfl) fun _ => ?_)
  refine Still.bind (Still.and (still_headerOk (ho _)) fun hk => ?_) rfl
  obtain ⟨s', -, -, hc⟩ := headerOk_covers (ho _) hk
  have h8' := hc.sub (k := 8) (le_refl _) (by omega)
  exact (still_blockSize h8').bind ((still_isUsed h8').bind rfl)

end Mars
