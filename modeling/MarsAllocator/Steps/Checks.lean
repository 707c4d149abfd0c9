import MarsAllocator.Model.Check
import MarsAllocator.Steps.Headers
import MarsAllocator.Library.Tiling
import MarsAllocator.Library.LinkedChain
import Mathlib.Data.List.Chain

namespace Mars

open ByteMemory StateProgram Tiling LinkedChain

set_option synthInstance.maxSize 100000

namespace Observes

variable {α β : Type} (P : Profile) (s : Span)

instance either {ε : Type} (r : Except ε α) (onError : ε → HeapM β) (onOk : α → HeapM β)
    [∀ e, Observes (onError e)] [∀ a, Observes (onOk a)] :
    Observes (Prog.either r onError onOk) := by
  cases r
  · rw [Prog.either_error]; infer_instance
  · rw [Prog.either_ok]; infer_instance

instance freeLinkGet (b : Nat) (which : Link) : Observes (freeLinkGet P b which) := by
  have (raw : Nat) : Observes (Prog.read fun h : Heap => raw ^^^ h.secret) :=
    observes_read fun _ _ _ _ _ => rfl
  unfold Mars.freeLinkGet; infer_instance

instance failWith (status : Status) : Observes (failWith status) := by
  unfold Mars.failWith; infer_instance

instance checkFailed (status : Status) : Observes (checkFailed status) := by
  unfold Mars.checkFailed; infer_instance

instance checkBlock (p : Nat) (t : Tally) : Observes (checkBlock P p t) := by
  unfold Mars.checkBlock; infer_instance

instance checkSpan (budget p : Nat) (t : Tally) : Observes (checkSpan P s budget p t) := by
  induction budget generalizing p t with
  | zero => rw [Mars.checkSpan]; infer_instance
  | succ budget ih => rw [Mars.checkSpan]; infer_instance

instance checkSpans (spans : List Span) (t : Tally) : Observes (checkSpans P spans t) := by
  induction spans generalizing t with
  | nil => rw [Mars.checkSpans]; infer_instance
  | cons s rest ih => rw [Mars.checkSpans]; infer_instance

instance binWalk (i budget back cur seen : Nat) : Observes (binWalk P i budget back cur seen) := by
  induction budget generalizing back cur seen with
  | zero => rw [Mars.binWalk]; infer_instance
  | succ budget ih => rw [Mars.binWalk]; infer_instance

instance binCheck (counts : Nat → Nat) (i : Nat) : Observes (binCheck P counts i) := by
  have : Observes (bitmapTest i) := observes_read fun _ _ _ _ _ => rfl
  have : Observes (Prog.read fun h : Heap => h.bins i) := observes_read fun _ _ _ _ _ => rfl
  have : Observes (maxBlocks P) := observes_read fun _ _ _ _ _ => rfl
  unfold Mars.binCheck; infer_instance

instance binsCheckFrom (counts : Nat → Nat) (left : Nat) : Observes (binsCheckFrom P counts left) := by
  induction left with
  | zero => rw [Mars.binsCheckFrom]; infer_instance
  | succ left ih => rw [Mars.binsCheckFrom]; infer_instance

instance binsCheck (counts : Nat → Nat) : Observes (binsCheck P counts) := by
  unfold Mars.binsCheck; infer_instance

end Observes

section Values

variable {α β : Type} {h : Heap}

theorem fst_bind (x : HeapM α) (f : α → HeapM β) [hx : Observes x] [hf : ∀ a, Observes (f a)] :
    ((x >>= f) h).1 = (f (x h).1 h).1 := by
  rw [Prog.bind_run]
  exact (hf _).value (hx.step h)

theorem fst_and (x y : HeapM Bool) [Observes x] [Observes y] :
    (Prog.and x y h).1 = ((x h).1 && (y h).1) := by
  rw [Prog.and, fst_bind, Prog.ite_run]
  cases (x h).1 <;> rfl

theorem fst_ite {c : Prop} [Decidable c] (x y : HeapM α) :
    ((if c then x else y) h).1 = if c then (x h).1 else (y h).1 := by
  split <;> rfl

end Values

variable {P : Profile} {h : Heap} {s : Span} {p : Nat} {t t' : Tally}

theorem isBlock_of_headerOk (hk : (headerOk P p h).1 = true) : (isBlock P p h).1 = true := by
  obtain ⟨s, hk⟩ := (headerOk_fst h p).mp hk
  exact (isBlock_fst h p).mpr ⟨s, hk.toLegible⟩

def Heap.extent (h : Heap) (b : Nat) : Nat := wordSize (h.word b)

/-- What `check_heap_unlocked` asks of one block, after what it has seen of the span so far. -/
structure BlockChecks (P : Profile) (h : Heap) (t : Tally) (p : Nat) : Prop where
  header : (headerOk P p h).1 = true
  prev : wordPrevInUse (h.word p) = t.expectPrevUsed
  canary : (canaryOk P p h).1 = true
  tag : wordUsed (h.word p) = false → h.word (p + h.extent p - 8) = h.extent p
  apart : wordUsed (h.word p) = false → t.prevFree = false

def Tally.add (P : Profile) (h : Heap) (t : Tally) (p : Nat) : Tally :=
  if wordUsed (h.word p) then t.addUsed (h.extent p) (wordQuarantined (h.word p))
  else t.addFree P (h.extent p)

theorem fst_checkFailed (status : Status) : (checkFailed status h).1 = .error status := rfl

theorem checkBlock_ok : (checkBlock P p t h).1 = .ok t' ↔ BlockChecks P h t p ∧ t.add P h p = t' := by
  rw [checkBlock, fst_bind, fst_and, fst_ite, fst_checkFailed]
  by_cases hk : (headerOk P p h).1 = true
  swap
  · rw [if_pos (by simp [hk])]
    exact iff_of_false (by simp) fun hc => hk hc.1.header
  rw [if_neg (by simp [hk, isBlock_of_headerOk hk]), fst_bind, fst_ite, fst_checkFailed]
  change (if (wordPrevInUse (h.word p) != t.expectPrevUsed) = true then _ else _) = _ ↔ _
  by_cases hp : wordPrevInUse (h.word p) = t.expectPrevUsed
  swap
  · rw [if_pos (by simp [hp])]
    exact iff_of_false (by simp) fun hc => hp hc.1.prev
  rw [if_neg (by simp [hp]), fst_bind, fst_ite, fst_checkFailed]
  by_cases hc : (canaryOk P p h).1 = true
  swap
  · rw [if_pos (by simp [hc])]
    exact iff_of_false (by simp) fun hb => hc hb.1.canary
  rw [if_neg (by simp [hc]), fst_bind, fst_bind, fst_ite, fst_bind]
  change (if wordUsed (h.word p) = true then
    Except.ok (t.addUsed (h.extent p) (wordQuarantined (h.word p))) else _) = _ ↔ _
  cases hu : wordUsed (h.word p) with
  | true =>
    rw [if_pos rfl, Except.ok.injEq, Tally.add, if_pos hu]
    exact ⟨fun ht => ⟨⟨hk, hp, hc, by simp [hu], by simp [hu]⟩, ht⟩, fun hb => hb.2⟩
  | false =>
    rw [if_neg Bool.false_ne_true, fst_bind, fst_ite, fst_checkFailed, fst_ite, fst_checkFailed]
    change (if h.word (p + h.extent p - 8) ≠ h.extent p then _ else
      if t.prevFree = true then _ else Except.ok (t.addFree P (h.extent p))) = _ ↔ _
    by_cases hg : h.word (p + h.extent p - 8) = h.extent p
    swap
    · rw [if_pos hg]
      exact iff_of_false (by simp) fun hb => hg (hb.1.tag hu)
    rw [if_neg (not_not.mpr hg)]
    by_cases hf : t.prevFree = true
    · rw [if_pos hf]
      exact iff_of_false (by simp) fun hb => by simp [hb.1.apart hu] at hf
    rw [if_neg hf, Except.ok.injEq, Tally.add, if_neg (by simp [hu])]
    exact ⟨fun ht => ⟨⟨hk, hp, hc, fun _ => hg, fun _ => by simpa using hf⟩, ht⟩, fun hb => hb.2⟩

/-- The registry answers with `s` for every address in `s`. -/
def Heap.Found (h : Heap) (s : Span) : Prop := ∀ p, s.lo ≤ p → p < s.hi → h.spanOf p = some s

theorem headerOk_found (hs : h.Found s) (hlo : s.lo ≤ p) (hp : p < s.hi) :
    (headerOk P p h).1 = true ↔ h.HeaderOk P s p := by
  refine (headerOk_fst h p).trans ⟨?_, fun hk => ⟨s, hk⟩⟩
  rintro ⟨s', hk⟩
  obtain rfl : s = s' := Option.some.inj ((hs p hlo hp).symm.trans hk.span)
  exact hk

/-- The blocks of a span, checked one after the other. -/
inductive Walked (P : Profile) (h : Heap) : Tally → List Nat → Tally → Prop
  | done (t : Tally) : Walked P h t [] t
  | block {t t' : Tally} {p : Nat} {bs : List Nat} (hb : BlockChecks P h t p)
      (rest : Walked P h (t.add P h p) bs t') : Walked P h t (p :: bs) t'

theorem walked_end {budget : Nat} : (.ok t : Except Status Tally) = .ok t' ↔
    ∃ bs, Tiles h.extent s.hi s.hi bs ∧ bs.length ≤ budget ∧ Walked P h t bs t' := by
  constructor
  · intro ht
    obtain rfl := Except.ok.inj ht
    exact ⟨[], .done, by simp, .done t⟩
  · rintro ⟨bs, ht, -, hw⟩
    obtain rfl := ht.unique .done
    cases hw
    rfl

theorem checkSpan_ok {budget : Nat} (hs : h.Found s) (hlo : s.lo ≤ p) (hp : p ≤ s.hi) :
    (checkSpan P s budget p t h).1 = .ok t' ↔
      ∃ bs, Tiles h.extent s.hi p bs ∧ bs.length ≤ budget ∧ Walked P h t bs t' := by
  induction budget generalizing p t with
  | zero =>
    rw [checkSpan, fst_ite]
    by_cases hlt : p < s.hi
    · rw [if_pos hlt]
      refine iff_of_false (by simp [fst_checkFailed]) ?_
      rintro ⟨bs, ht, hl, -⟩
      cases ht with
      | done => exact absurd hlt (lt_irrefl _)
      | block => simp at hl
    · rw [if_neg hlt]
      obtain rfl : p = s.hi := by omega
      exact walked_end
  | succ budget ih =>
    rw [checkSpan, fst_ite]
    by_cases hlt : p < s.hi
    swap
    · rw [if_neg hlt]
      obtain rfl : p = s.hi := by omega
      exact walked_end
    rw [if_pos hlt, fst_bind]
    constructor
    · intro hr
      rcases hc : (checkBlock P p t h).1 with status | t₁
      · rw [hc, Prog.either_error] at hr
        simp [Prog.pure_run] at hr
      obtain ⟨hb, rfl⟩ := checkBlock_ok.mp hc
      have hk := (headerOk_found hs hlo hlt).mp hb.header
      rw [hc, Prog.either_ok, fst_bind] at hr
      have hend : p + h.extent p ≤ s.hi := hk.end_le
      obtain ⟨bs, ht, hl, hw⟩ := (ih (by omega) hend).mp hr
      have hmin : P.minBlock ≤ h.extent p := hk.min_le
      have hp := P.sizes
      exact ⟨p :: bs, .block (by omega) ht, by simpa using hl, .block hb hw⟩
    · rintro ⟨bs, ht, hl, hw⟩
      cases ht with
      | done => exact absurd hlt (lt_irrefl _)
      | @block _ bs hpos rest =>
        cases hw with
        | block hb hw =>
          rw [checkBlock_ok.mpr ⟨hb, rfl⟩, Prog.either_ok, fst_bind]
          exact (ih (by omega) rest.le_hi).mpr ⟨bs, rest, by simpa using hl, hw⟩

/-- What two consecutive blocks must agree about. -/
structure Heap.Neighbours (h : Heap) (a b : Nat) : Prop where
  prev : wordPrevInUse (h.word b) = wordUsed (h.word a)
  apart : wordUsed (h.word a) = true ∨ wordUsed (h.word b) = true

/-- A block that stands up by itself: header, canary, and the boundary tag of a free one. -/
structure Heap.Stands (P : Profile) (h : Heap) (s : Span) (b : Nat) : Prop where
  header : h.HeaderOk P s b
  canary : (canaryOk P b h).1 = true
  tag : wordUsed (h.word b) = false → h.word (b + h.extent b - 8) = h.extent b

/-- `bs` are the blocks of `s`: they tile it exactly, and agree with each other. -/
structure Heap.SpanSound (P : Profile) (h : Heap) (s : Span) (bs : List Nat) : Prop where
  tiled : Tiles h.extent s.hi s.lo bs
  stands : ∀ b ∈ bs, h.Stands P s b
  first : ∀ b ∈ bs.head?, wordPrevInUse (h.word b) = true
  neighbours : bs.IsChain h.Neighbours

theorem add_expectPrevUsed : (t.add P h p).expectPrevUsed = wordUsed (h.word p) := by
  rw [Tally.add]
  cases hu : wordUsed (h.word p) <;> rfl

theorem add_prevFree : (t.add P h p).prevFree = !wordUsed (h.word p) := by
  rw [Tally.add]
  cases hu : wordUsed (h.word p) <;> rfl

theorem walked_iff {bs : List Nat} (hs : h.Found s) (hin : ∀ b ∈ bs, s.lo ≤ b ∧ b < s.hi) :
    Walked P h t bs t' ↔ (∀ b ∈ bs, h.Stands P s b) ∧
      (∀ b ∈ bs.head?, wordPrevInUse (h.word b) = t.expectPrevUsed ∧
        (wordUsed (h.word b) = false → t.prevFree = false)) ∧
      bs.IsChain h.Neighbours ∧ bs.foldl (Tally.add P h) t = t' := by
  induction bs generalizing t with
  | nil =>
    constructor
    · intro hw
      cases hw
      simp
    · rintro ⟨-, -, -, rfl⟩
      exact .done t
  | cons p bs ih =>
    have hp := hin p (by simp)
    have ih := ih (t := t.add P h p) fun b hb => hin b (List.mem_cons_of_mem _ hb)
    rw [add_expectPrevUsed, add_prevFree] at ih
    constructor
    · intro hw
      cases hw with
      | block hb rest =>
        obtain ⟨hst, hhead, hchain, hfold⟩ := ih.mp rest
        have hk := (headerOk_found hs hp.1 hp.2).mp hb.header
        refine ⟨?_, by simpa using ⟨hb.prev, hb.apart⟩, ?_, hfold⟩
        · intro b hmem
          rcases List.mem_cons.mp hmem with rfl | hmem
          · exact ⟨hk, hb.canary, hb.tag⟩
          · exact hst b hmem
        · refine List.isChain_cons.mpr ⟨fun b hmem => ?_, hchain⟩
          obtain ⟨hprev, hapart⟩ := hhead b hmem
          refine ⟨hprev, ?_⟩
          cases hu : wordUsed (h.word b) with
          | true => exact Or.inr rfl
          | false => exact Or.inl (by simpa using hapart hu)
    · rintro ⟨hst, hhead, hchain, hfold⟩
      have hp' := hst p (by simp)
      obtain ⟨hnb, hchain⟩ := List.isChain_cons.mp hchain
      obtain ⟨hprev, hapart⟩ := hhead p (by simp)
      refine .block ⟨(headerOk_found hs hp.1 hp.2).mpr hp'.header, hprev, hp'.canary, hp'.tag,
        hapart⟩ (ih.mpr ⟨fun b hb => hst b (List.mem_cons_of_mem _ hb), fun b hb => ?_, hchain,
          hfold⟩)
      obtain ⟨hprev, hapart⟩ := hnb b hb
      refine ⟨hprev, fun hu => ?_⟩
      rcases hapart with ha | hb
      · simp [ha]
      · simp [hu] at hb

def Heap.surrendered (h : Heap) (b : Nat) : Bool :=
  wordUsed (h.word b) && wordQuarantined (h.word b)

def Heap.filedAs (P : Profile) (h : Heap) (i b : Nat) : Bool :=
  !wordUsed (h.word b) && binOf P (h.extent b) == i

def Heap.lostIn (h : Heap) (bs : List Nat) : Nat := ((bs.filter h.surrendered).map h.extent).sum

theorem lostIn_append (bs bs' : List Nat) : h.lostIn (bs ++ bs') = h.lostIn bs + h.lostIn bs' := by
  rw [Heap.lostIn, List.filter_append, List.map_append, List.sum_append]
  rfl

theorem lostIn_cons (b : Nat) (bs : List Nat) :
    h.lostIn (b :: bs) = (if h.surrendered b then h.extent b else 0) + h.lostIn bs := by
  rw [Heap.lostIn, List.filter_cons]
  split
  · rfl
  · rw [Nat.zero_add]
    rfl

theorem add_lost : (t.add P h p).lost = t.lost + if h.surrendered p then h.extent p else 0 := by
  rw [Tally.add, Heap.surrendered]
  cases wordUsed (h.word p) with
  | true =>
    rw [if_pos rfl, Tally.addUsed, Bool.true_and]
    split <;> rfl
  | false => rfl

theorem add_perBin (i : Nat) :
    (t.add P h p).perBin i = t.perBin i + if h.filedAs P i p then 1 else 0 := by
  rw [Tally.add, Heap.filedAs]
  cases wordUsed (h.word p) with
  | true => rfl
  | false =>
    rw [if_neg Bool.false_ne_true, Tally.addFree]
    by_cases hi : binOf P (h.extent p) = i
    · subst hi
      simp
    · simp [hi, Function.update_of_ne (Ne.symm hi)]

theorem add_covered : (t.add P h p).covered = t.covered + h.extent p := by
  rw [Tally.add]
  cases wordUsed (h.word p) <;> rfl

theorem foldl_lost (bs : List Nat) :
    (bs.foldl (Tally.add P h) t).lost = t.lost + h.lostIn bs := by
  induction bs generalizing t with
  | nil => rfl
  | cons b bs ih => rw [List.foldl_cons, ih, add_lost, lostIn_cons, Nat.add_assoc]

theorem foldl_perBin (bs : List Nat) (i : Nat) :
    (bs.foldl (Tally.add P h) t).perBin i = t.perBin i + bs.countP (h.filedAs P i) := by
  induction bs generalizing t with
  | nil => rfl
  | cons b bs ih =>
    rw [List.foldl_cons, ih, add_perBin, List.countP_cons]
    omega

theorem foldl_covered (bs : List Nat) :
    (bs.foldl (Tally.add P h) t).covered = t.covered + (bs.map h.extent).sum := by
  induction bs generalizing t with
  | nil => rfl
  | cons b bs ih => rw [List.foldl_cons, ih, add_covered, List.map_cons, List.sum_cons, Nat.add_assoc]

/-- The descriptor of a span stands for a stretch of memory, and the registry finds it. -/
structure Heap.Proper (h : Heap) (s : Span) : Prop where
  found : h.Found s
  lo_pos : 0 < s.lo
  lo_le : s.lo ≤ s.hi

theorem Heap.SpanSound.length_le {bs : List Nat} (hb : h.SpanSound P s bs) :
    s.lo + bs.length * P.minBlock ≤ s.hi :=
  hb.tiled.length_mul_le fun b hm => (hb.stands b hm).header.min_le

theorem length_flatMap_mul_le {spans : List Span} {blocks : Span → List Nat} {m : Nat}
    (hle : ∀ s ∈ spans, s.lo + (blocks s).length * m ≤ s.hi) :
    (spans.flatMap blocks).length * m ≤ (spans.map fun s => s.hi - s.lo).sum := by
  induction spans with
  | nil => simp
  | cons s rest ih =>
    have hrest := ih fun s' hs' => hle s' (List.mem_cons_of_mem _ hs')
    have hspan := hle s List.mem_cons_self
    rw [List.flatMap_cons, List.length_append, Nat.add_mul, List.map_cons, List.sum_cons]
    omega

theorem spanSound_of_walked {bs : List Nat} (hs : h.Found s)
    (ht : Tiles h.extent s.hi s.lo bs)
    (hw : Walked P h { t with covered := 0, havePrev := false, prevFree := false } bs t') :
    h.SpanSound P s bs := by
  have hin : ∀ b ∈ bs, s.lo ≤ b ∧ b < s.hi := by
    intro b hb
    have := ht.bounds hb
    have := ht.pos hb
    omega
  obtain ⟨hst, hhead, hchain, -⟩ := (walked_iff hs hin).mp hw
  exact ⟨ht, hst, fun b hb => (hhead b hb).1, hchain⟩

theorem Heap.SpanSound.walked {bs : List Nat} (hs : h.Found s) (hb : h.SpanSound P s bs) :
    Walked P h { t with covered := 0, havePrev := false, prevFree := false } bs
      (bs.foldl (Tally.add P h) { t with covered := 0, havePrev := false, prevFree := false }) := by
  have hin : ∀ b ∈ bs, s.lo ≤ b ∧ b < s.hi := by
    intro b hm
    have := hb.tiled.bounds hm
    have := hb.tiled.pos hm
    omega
  exact (walked_iff hs hin).mpr ⟨hb.stands, fun b hm => ⟨hb.first b hm, fun _ => rfl⟩,
    hb.neighbours, rfl⟩

theorem checkSpans_sound {spans : List Span} (hs : ∀ s ∈ spans, h.Proper s)
    (hr : (checkSpans P spans t h).1 = .ok t') : ∀ s ∈ spans, ∃ bs, h.SpanSound P s bs := by
  induction spans generalizing t with
  | nil => simp
  | cons s rest ih =>
    have hp := hs s (by simp)
    rw [checkSpans, fst_bind] at hr
    rcases hc : (checkSpan P s (spanMaxBlocks P s) s.lo
      { t with covered := 0, havePrev := false, prevFree := false } h).1 with status | t₁
    · rw [hc, Prog.either_error] at hr
      simp [Prog.pure_run] at hr
    · rw [hc, Prog.either_ok, fst_ite] at hr
      obtain ⟨bs, ht, -, hw⟩ := (checkSpan_ok hp.found (le_refl _) hp.lo_le).mp hc
      have hsound := spanSound_of_walked hp.found ht hw
      split at hr
      · simp [fst_checkFailed] at hr
      · intro s' hs'
        rcases List.mem_cons.mp hs' with rfl | hs'
        · exact ⟨bs, hsound⟩
        · exact ih (fun s hm => hs s (List.mem_cons_of_mem _ hm)) hr s' hs'

theorem checkSpans_complete {spans : List Span} {blocks : Span → List Nat}
    (hs : ∀ s ∈ spans, h.Proper s) (hb : ∀ s ∈ spans, h.SpanSound P s (blocks s)) :
    ∃ t', (checkSpans P spans t h).1 = .ok t' ∧
      t'.lost = t.lost + h.lostIn (spans.flatMap blocks) ∧
      ∀ i, t'.perBin i = t.perBin i + (spans.flatMap blocks).countP (h.filedAs P i) := by
  induction spans generalizing t with
  | nil => exact ⟨t, rfl, rfl, fun _ => rfl⟩
  | cons s rest ih =>
    have hp := hs s (by simp)
    have hsb := hb s (by simp)
    have hlen : (blocks s).length ≤ spanMaxBlocks P s := by
      have hl := hsb.length_le
      have hmin := P.sizes
      rw [spanMaxBlocks]
      have := (Nat.le_div_iff_mul_le (by omega)).mpr (show (blocks s).length * P.minBlock ≤
        s.hi - s.lo by omega)
      omega
    obtain ⟨t₁, ht₁, hlost, hbin⟩ := ih
      (t := (blocks s).foldl (Tally.add P h) { t with covered := 0, havePrev := false, prevFree := false })
      (fun s hm => hs s (List.mem_cons_of_mem _ hm)) fun s hm => hb s (List.mem_cons_of_mem _ hm)
    refine ⟨t₁, ?_, ?_, fun i => ?_⟩
    · have hspan := (checkSpan_ok hp.found (le_refl _) hp.lo_le).mpr
        ⟨blocks s, hsb.tiled, hlen, hsb.walked (t := t) hp.found⟩
      have hsum := hsb.tiled.sum_size
      rw [checkSpans, fst_bind, hspan, Prog.either_ok, fst_ite, foldl_covered, if_neg (by
        rw [Nat.zero_add]; omega)]
      exact ht₁
    · rw [hlost, foldl_lost, List.flatMap_cons, lostIn_append, Nat.add_assoc]
    · rw [hbin, foldl_perBin, List.flatMap_cons, List.countP_append, Nat.add_assoc]

theorem checkBlock_error {status : Status} (hr : (checkBlock P p t h).1 = .error status) :
    status ≠ .ok := by
  rw [checkBlock, fst_bind, fst_ite, fst_checkFailed] at hr
  split at hr
  · exact Except.error.inj hr ▸ by decide
  rw [fst_bind, fst_ite, fst_checkFailed] at hr
  split at hr
  · exact Except.error.inj hr ▸ by decide
  rw [fst_bind, fst_ite, fst_checkFailed] at hr
  split at hr
  · exact Except.error.inj hr ▸ by decide
  rw [fst_bind, fst_bind, fst_ite, fst_bind] at hr
  split at hr
  · exact absurd hr (by simp [Prog.pure_run])
  rw [fst_bind, fst_ite, fst_checkFailed, fst_ite, fst_checkFailed] at hr
  split at hr
  · exact Except.error.inj hr ▸ by decide
  split at hr
  · exact Except.error.inj hr ▸ by decide
  · exact absurd hr (by simp [Prog.pure_run])

theorem checkSpan_error {budget : Nat} {status : Status}
    (hr : (checkSpan P s budget p t h).1 = .error status) : status ≠ .ok := by
  induction budget generalizing p t with
  | zero =>
    rw [checkSpan, fst_ite] at hr
    split at hr
    · exact Except.error.inj hr ▸ by decide
    · exact absurd hr (by simp [Prog.pure_run])
  | succ budget ih =>
    rw [checkSpan, fst_ite] at hr
    split at hr
    swap
    · exact absurd hr (by simp [Prog.pure_run])
    rw [fst_bind] at hr
    rcases hc : (checkBlock P p t h).1 with status' | t₁
    · rw [hc, Prog.either_error] at hr
      exact Except.error.inj hr ▸ checkBlock_error hc
    · rw [hc, Prog.either_ok, fst_bind] at hr
      exact ih hr

theorem checkSpans_error {spans : List Span} {status : Status}
    (hr : (checkSpans P spans t h).1 = .error status) : status ≠ .ok := by
  induction spans generalizing t with
  | nil => exact absurd hr (by simp [checkSpans, Prog.pure_run])
  | cons s rest ih =>
    rw [checkSpans, fst_bind] at hr
    rcases hc : (checkSpan P s (spanMaxBlocks P s) s.lo
      { t with covered := 0, havePrev := false, prevFree := false } h).1 with status' | t₁
    · rw [hc, Prog.either_error] at hr
      exact Except.error.inj hr ▸ checkSpan_error hc
    · rw [hc, Prog.either_ok, fst_ite] at hr
      split at hr
      · exact Except.error.inj hr ▸ by decide
      · exact ih hr

end Mars
