import MarsAllocator.Model.Session
import MarsAllocator.Steps.Rescue

namespace Mars

open ByteMemory StateProgram

def Call.target : Call → Option UInt64
  | .free ptr | .realloc ptr _ | .read ptr _ _ _ | .write ptr _ _ | .verify ptr => some ptr
  | _ => none

def Call.isVerify : Call → Bool
  | .verify _ => true
  | _ => false

def Reply.failed : Reply → Bool
  | .void => true
  | .pointer p => p == 0
  | .copied bytes => bytes.isNone
  | .written len => len.isNone
  | .status s => s != .ok

/-- Every byte of memory, the bins and `lost_bytes` are as they were. -/
def Untouched (h h' : Heap) : Prop :=
  h'.mem = h.mem ∧ h'.bins = h.bins ∧ h'.binBitmap = h.binBitmap ∧ h'.lostBytes = h.lostBytes

variable (P : Profile)

/-- The call fails, says why and leaves everything alone. -/
def Refused (call : Call) (h : Heap) : Prop :=
  (call.run P h).1.failed = true ∧ (call.run P h).2.lastError ≠ .ok ∧
    Untouched h (call.run P h).2

theorem Alike.untouched {h h' : Heap} (ha : Alike h h') : Untouched h h' := by
  obtain ⟨e, r, c, w⟩ := ha
  exact ⟨rfl, rfl, rfl, rfl⟩

variable {P}

theorem failed_ne_ok {α : Type} (status : Status) (hs : status ≠ .ok) (a : α) (h : Heap) :
    ((do fail status; pure a : HeapM α) h).2.lastError ≠ .ok := hs

theorem blockOf_fst (ptr : Nat) (h : Heap) :
    wp (blockOf P ptr) (fun b h' => b = 0 ∧ h'.lastError ≠ .ok ∨
      b = ptr - P.hdrSize ∧ ∃ s, h.Legible P s b) h := by
  refine wp_observe (refl_of Alike h) rfl fun h₁ h₁a => ?_
  rw [wp_ite]
  split
  · exact Or.inl ⟨rfl, failed_ne_ok .notInitialized (by decide) 0 h₁⟩
  have ho : Observes (Prog.read fun h : Heap => if ptr = 0 then none else h.spanOf ptr) :=
    observes_read fun _ _ _ _ _ => rfl
  refine wp_observe h₁a rfl fun h₂ h₂a => ?_
  rcases (Prog.read (fun h : Heap => if ptr = 0 then none else h.spanOf ptr) h).1 with _ | s
  · exact Or.inl ⟨rfl, failed_ne_ok .invalidPtr (by decide) 0 h₂⟩
  rw [Prog.elim_some, wp_ite]
  split
  · exact Or.inl ⟨rfl, failed_ne_ok .invalidPtr (by decide) 0 h₂⟩
  refine wp_observe h₂a rfl fun h₃ h₃a => ?_
  rw [wp_ite]
  split
  · exact Or.inr ⟨rfl, (isBlock_fst h _).mp ‹_›⟩
  · exact Or.inl ⟨rfl, failed_ne_ok .invalidPtr (by decide) 0 h₃⟩

/-- What a call can find at `p`: nothing it will look at, a header that checks out and is not to
be used, or a free block. -/
inductive Found (P : Profile) (p : Nat) (h : Heap) : Prop
  | nothing (hn : (blockOf P p h).1 = 0)
  | quarantined (hb : (blockOf P p h).1 ≠ 0) (hk : (headerOk P (blockOf P p h).1 h).1 = true)
      (hq : wordQuarantined (h.word (blockOf P p h).1) = true)
  | free (hb : (blockOf P p h).1 ≠ 0) (hk : (headerOk P (blockOf P p h).1 h).1 = true)
      (hq : wordQuarantined (h.word (blockOf P p h).1) = false)
      (hu : wordUsed (h.word (blockOf P p h).1) = false)

theorem wp_blockOf {α : Type} {p : Nat} {h h' : Heap} {f : Nat → HeapM α} {Q : α → Heap → Prop}
    (ha : Alike h h')
    (hf : ∀ h'', Alike h h'' → ((blockOf P p h).1 = 0 → h''.lastError ≠ .ok) →
      wp (f (blockOf P p h).1) Q h'') : wp (blockOf P p >>= f) Q h' := by
  have hv : (blockOf P p h').1 = (blockOf P p h).1 := Observes.value ha
  have hr := hf (blockOf P p h').2 (trans_of Alike ha (Respects.step h')) fun hz => by
    rcases blockOf_fst (P := P) p h' with hb | ⟨hb, s, hl⟩
    · exact hb.2
    · exact absurd (hv.trans hz) hl.ne_zero
  rw [← hv] at hr
  exact hr

theorem wp_soundHeader {α : Type} {b : Nat} {h h' : Heap} {f : Bool → HeapM α}
    {Q : α → Heap → Prop} (ha : Alike h h') (hk : (headerOk P b h).1 = true)
    (hf : ∀ h'', Alike h h'' → wp (f true) Q h'') :
    wp ((do if ← headerOk P b then pure true else rescue P b) >>= f) Q h' := by
  rw [wp_bind_assoc]
  refine wp_observe ha hk fun h₁ h₁a => ?_
  rw [if_pos rfl, wp_bind, wp_pure]
  exact hf h₁ h₁a

theorem wp_liveBlock_of_found {p : Nat} {h h' : Heap} (ha : Alike h h') (hf : Found P p h) :
    wp (liveBlock P p) (fun b h'' => Alike h h'' ∧ (b = 0 ∧ h''.lastError ≠ .ok ∨
      b = (blockOf P p h).1 ∧ b ≠ 0 ∧ wordUsed (h.word b) = false)) h' := by
  refine wp_blockOf ha fun h₁ h₁a h₁e => ?_
  rw [wp_ite]
  cases hf with
  | nothing hn =>
    rw [if_pos hn]
    exact ⟨h₁a, Or.inl ⟨rfl, h₁e hn⟩⟩
  | quarantined hb hk hq =>
    rw [if_neg hb]
    refine wp_soundHeader h₁a hk fun h₂ h₂a => ?_
    rw [wp_ite, if_neg (by decide)]
    refine wp_observe h₂a hq fun h₃ h₃a => ?_
    rw [wp_ite, if_pos rfl]
    exact ⟨trans_of Alike h₃a (Respects.step (x := fail .quarantined) h₃),
      Or.inl ⟨rfl, failed_ne_ok .quarantined (by decide) 0 h₃⟩⟩
  | free hb hk hq hu =>
    rw [if_neg hb]
    refine wp_soundHeader h₁a hk fun h₂ h₂a => ?_
    rw [wp_ite, if_neg (by decide)]
    refine wp_observe h₂a hq fun h₃ h₃a => ?_
    rw [wp_ite, if_neg (by decide)]
    exact ⟨h₃a, Or.inr ⟨rfl, hb, hu⟩⟩

theorem wp_checkedBlock_of_found {p offset len : Nat} {h h' : Heap} (ha : Alike h h')
    (hf : Found P p h) :
    wp (checkedBlock P p offset len)
      (fun b h'' => Alike h h'' ∧ b = 0 ∧ h''.lastError ≠ .ok) h' := by
  refine wp_blockOf ha fun h₁ h₁a h₁e => ?_
  rw [wp_ite]
  cases hf with
  | nothing hn =>
    rw [if_pos hn]
    exact ⟨h₁a, rfl, h₁e hn⟩
  | quarantined hb hk hq =>
    rw [if_neg hb]
    refine wp_soundHeader h₁a hk fun h₂ h₂a => ?_
    rw [wp_ite, if_neg (by decide)]
    refine wp_observe h₂a hq fun h₃ h₃a => ?_
    rw [wp_ite, if_pos rfl]
    exact ⟨trans_of Alike h₃a (Respects.step (x := fail .quarantined) h₃), rfl,
      failed_ne_ok .quarantined (by decide) 0 h₃⟩
  | free hb hk hq hu =>
    rw [if_neg hb]
    refine wp_soundHeader h₁a hk fun h₂ h₂a => ?_
    rw [wp_ite, if_neg (by decide)]
    refine wp_observe h₂a hq fun h₃ h₃a => ?_
    rw [wp_ite, if_neg (by decide)]
    refine wp_observe h₃a hu fun h₄ h₄a => ?_
    rw [wp_ite, if_pos (by decide)]
    exact ⟨trans_of Alike h₄a (Respects.step (x := fail .invalidPtr) h₄), rfl,
      failed_ne_ok .invalidPtr (by decide) 0 h₄⟩

def Harmless (h h' : Heap) : Prop := Alike h h' ∧ h'.lastError ≠ .ok

theorem Harmless.of_fail {h h' : Heap} (ha : Alike h h') (status : Status) (hs : status ≠ .ok) :
    Harmless h (fail status h').2 :=
  ⟨trans_of Alike ha (Respects.step (x := fail status) h'), hs⟩

theorem free_of_found {p : Nat} {h h' : Heap} (ha : Alike h h') (hf : Found P p h) :
    wp (freeUnlocked P p) (fun _ h'' => Harmless h h'') h' := by
  refine wp_observe ha rfl fun h₁ h₁a => ?_
  refine wp_seq (wp_liveBlock_of_found h₁a hf) fun b h₂ ⟨h₂a, hb⟩ => ?_
  rw [wp_when]
  rcases hb with ⟨hb, he⟩ | ⟨-, hb, hu⟩
  · rw [if_neg (by simpa using hb)]
    exact ⟨h₂a, he⟩
  · rw [if_pos hb]
    refine wp_observe h₂a hu fun h₃ h₃a => ?_
    rw [wp_ite, if_pos (by decide)]
    exact .of_fail h₃a .doubleFree (by decide)

theorem realloc_of_found {p : Nat} {h : Heap} (newSize : Nat) (hp : p ≠ 0) (hf : Found P p h) :
    wp (reallocUnlocked P p newSize) (fun q h' => q = 0 ∧ Harmless h h') h := by
  refine wp_observe (refl_of Alike h) rfl fun h₁ h₁a => ?_
  rw [wp_ite, if_neg hp, wp_ite]
  split
  · exact wp_seq (free_of_found h₁a hf) fun _ h₂ hh => ⟨rfl, hh⟩
  have hi : wp (reallocInPlace P p newSize) (fun r h' => r = .done 0 ∧ Harmless h h') h₁ := by
    refine wp_seq (wp_liveBlock_of_found h₁a hf) fun b h₂ ⟨h₂a, hb⟩ => ?_
    rw [wp_ite]
    rcases hb with ⟨hb, he⟩ | ⟨-, hb, hu⟩
    · rw [if_pos hb]
      exact ⟨rfl, h₂a, he⟩
    · rw [if_neg hb]
      refine wp_observe h₂a hu fun h₃ h₃a => ?_
      rw [wp_ite, if_pos (by decide)]
      exact ⟨rfl, .of_fail h₃a .doubleFree (by decide)⟩
  refine wp_seq hi fun r h₂ ⟨hr, hh⟩ => ?_
  subst hr
  exact ⟨rfl, hh⟩

theorem read_of_found {p : Nat} {h : Heap} (offset len : Nat) (bufNull : Bool)
    (hf : Found P p h) :
    wp (mmRead P p offset bufNull len) (fun r h' => r = none ∧ Harmless h h') h := by
  refine wp_observe (refl_of Alike h) rfl fun h₁ h₁a => ?_
  rw [wp_ite]
  split
  · exact ⟨rfl, .of_fail h₁a .invalidPtr (by decide)⟩
  refine wp_seq (wp_checkedBlock_of_found h₁a hf) fun b h₂ ⟨h₂a, hb, he⟩ => ?_
  rw [wp_ite, if_pos hb]
  exact ⟨rfl, h₂a, he⟩

theorem writeUnlocked_of_found {p offset : Nat} {src : List UInt8} {h h' : Heap} (ha : Alike h h')
    (hf : Found P p h) :
    wp (writeUnlocked P p offset src) (fun r h'' => r = none ∧ Harmless h h'') h' := by
  refine wp_seq (wp_checkedBlock_of_found ha hf) fun b h₂ ⟨h₂a, hb, he⟩ => ?_
  rw [wp_ite, if_pos hb]
  exact ⟨rfl, h₂a, he⟩

theorem write_of_found {p : Nat} {h : Heap} (offset : Nat) (src : Source) (hf : Found P p h) :
    wp (mmWrite P p offset src) (fun r h' => r = none ∧ Harmless h h') h := by
  refine wp_observe (refl_of Alike h) rfl fun h₁ h₁a => ?_
  rcases src with (_ | _) | src
  · exact writeUnlocked_of_found h₁a hf
  · exact ⟨rfl, .of_fail h₁a .invalidPtr (by decide)⟩
  · exact writeUnlocked_of_found h₁a hf

theorem verify_of_nothing {p : Nat} {h : Heap} (hn : (blockOf P p h).1 = 0) :
    wp (mmVerify P p) (fun st h' => st ≠ .ok ∧ Harmless h h') h := by
  refine wp_observe (refl_of Alike h) rfl fun h₁ h₁a => ?_
  refine wp_blockOf h₁a fun h₂ h₂a h₂e => ?_
  rw [wp_ite, if_pos hn]
  exact ⟨h₂e hn, h₂a, h₂e hn⟩

theorem verify_of_quarantined {p : Nat} {h : Heap} (hb : (blockOf P p h).1 ≠ 0)
    (hk : (headerOk P (blockOf P p h).1 h).1 = true)
    (hq : wordQuarantined (h.word (blockOf P p h).1) = true) :
    wp (mmVerify P p) (fun st h' => st ≠ .ok ∧ Harmless h h') h := by
  refine wp_observe (refl_of Alike h) rfl fun h₁ h₁a => ?_
  refine wp_blockOf h₁a fun h₂ h₂a _ => ?_
  rw [wp_ite, if_neg hb]
  refine wp_observe h₂a hk fun h₃ h₃a => ?_
  rw [wp_ite, if_neg (by decide)]
  refine wp_observe h₃a hq fun h₄ h₄a => ?_
  rw [wp_ite, if_pos rfl]
  exact ⟨show Status.quarantined ≠ .ok by decide, .of_fail h₄a .quarantined (by decide)⟩

theorem canaryOk_of_free {b : Nat} {h : Heap} (hu : wordUsed (h.word b) = false) :
    (canaryOk P b h).1 = true := by
  rw [canaryOk, Prog.ite_run]
  split
  · have hw : (load64 b h).1 = h.word b := rfl
    rw [Prog.bind_run, hw, Prog.ite_run, if_pos (by simp [hu])]
    rfl
  · rfl

theorem verify_of_free {p : Nat} {h : Heap} (hb : (blockOf P p h).1 ≠ 0)
    (hk : (headerOk P (blockOf P p h).1 h).1 = true)
    (hq : wordQuarantined (h.word (blockOf P p h).1) = false)
    (hu : wordUsed (h.word (blockOf P p h).1) = false) :
    wp (mmVerify P p) (fun st h' => if h.mode = .libc then st ≠ .ok ∧ Harmless h h' else st = .ok)
      h := by
  refine wp_observe (refl_of Alike h) rfl fun h₁ h₁a => ?_
  refine wp_blockOf h₁a fun h₂ h₂a _ => ?_
  rw [wp_ite, if_neg hb]
  refine wp_observe h₂a hk fun h₃ h₃a => ?_
  rw [wp_ite, if_neg (by decide)]
  refine wp_observe h₃a hq fun h₄ h₄a => ?_
  rw [wp_ite, if_neg (by decide)]
  refine wp_observe h₄a (canaryOk_of_free hu) fun h₅ h₅a => ?_
  rw [wp_ite, if_neg (by decide), wp_bind_assoc]
  refine wp_observe h₅a hu fun h₆ h₆a => ?_
  rw [if_neg (by decide), wp_bind, wp_pure, wp_ite, if_neg (by decide)]
  have ho : Observes (Prog.read Heap.mode) := observes_read fun _ _ _ _ _ => rfl
  refine wp_observe h₆a (show (Prog.read Heap.mode h).1 = h.mode from rfl) fun h₇ h₇a => ?_
  rw [wp_ite]
  split
  · exact ⟨show Status.degraded ≠ .ok by decide, .of_fail h₇a .degraded (by decide)⟩
  · rfl

theorem not_untouched_of_lost {h h' : Heap} (hl : h.lostBytes < h'.lostBytes) : ¬ Untouched h h' :=
  fun hu => absurd hu.2.2.2 (Nat.ne_of_gt hl)

/-- `lost_bytes` has grown, or a mirror has been used to undo a header. -/
def Surrenders (P : Profile) (h h' : Heap) : Prop :=
  ¬ Untouched h h' ∧ (P.hasMirror = false → h.lostBytes < h'.lostBytes)

theorem surrenders_of_lost {h h' : Heap} (hl : h.lostBytes < h'.lostBytes) : Surrenders P h h' :=
  ⟨not_untouched_of_lost hl, fun _ => hl⟩

theorem wp_checkUsed {b s : _} (h₀ : Heap) {h : Heap} (hk : h.HeaderOk P s b)
    (hu : wordUsed (h.word b) = true) (hq : wordQuarantined (h.word b) = false)
    (hl : h₀.lostBytes ≤ h.lostBytes) :
    wp (do
      if !(← canaryOk P b) then
        quarantine P b
        pure 0
      else do
        let requested ← requestedSize P b
        if requested < 0 ∨ requested - 0 < 0 then do
          fail .oob
          pure 0
        else pure b)
      (fun b' h' => b' = 0 ∧ h₀.lostBytes < h'.lostBytes ∨
        b' = b ∧ h'.HeaderOk P s b ∧ wordUsed (h'.word b) = true ∧
          wordQuarantined (h'.word b) = false ∧ h₀.lostBytes ≤ h'.lostBytes) h := by
  refine wp_observe (refl_of Alike h) rfl fun h₁ h₁a => ?_
  have hs₁ := h₁a.sameHeader P b
  rw [wp_ite]
  split
  · refine wp_seq (quarantine_loses (hs₁.headerOk hk) (hs₁.word ▸ hq) (hs₁.word ▸ hu))
      fun _ h₂ h₂l => Or.inl ⟨rfl, lt_of_le_of_lt (h₁a.lostBytes ▸ hl) h₂l⟩
  · refine wp_observe h₁a rfl fun h₂ h₂a => ?_
    have hs₂ := h₂a.sameHeader P b
    rw [wp_ite, if_neg (by omega)]
    exact Or.inr ⟨rfl, hs₂.headerOk hk, hs₂.word ▸ hu, hs₂.word ▸ hq, h₂a.lostBytes ▸ hl⟩

theorem wp_checkedBlock_of_not_found {p : Nat} {h h₀ : Heap} (ha : Alike h h₀)
    (hb : (blockOf P p h).1 ≠ 0) (hn : ¬ Found P p h) :
    wp (checkedBlock P p 0 0) (fun b h' =>
      b = 0 ∧ Surrenders P h h' ∨ ∃ s, h'.HeaderOk P s b ∧ wordUsed (h'.word b) = true ∧
        wordQuarantined (h'.word b) = false ∧ h.lostBytes ≤ h'.lostBytes) h₀ := by
  have hlegible : ∃ s, h.Legible P s (blockOf P p h).1 :=
    (blockOf_fst p h).elim (fun h0 => absurd h0.1 hb) fun hl => hl.2
  obtain ⟨s, hl⟩ := hlegible
  refine wp_blockOf ha fun h₁ h₁a _ => ?_
  generalize hbp : (blockOf P p h).1 = b at hb hl
  rw [wp_ite, if_neg hb]
  rcases hk : (headerOk P b h).1 with _ | _
  · rw [wp_bind_assoc]
    refine wp_observe h₁a hk fun h₂ h₂a => ?_
    rw [if_neg (by decide)]
    have hs₂ := h₂a.sameHeader P b
    have hbad : (headerOk P b h₂).1 = false := (Observes.value h₂a).trans hk
    have hspans := Respects.step (R := SameSpans) (x := rescue P b) h₂
    have hboth : wp (rescue P b) (fun ok h' => Rescued P s b h₂ ok h' ∧ SameSpans h₂ h') h₂ :=
      ⟨wp_rescue (hs₂.legible hl) hbad, hspans⟩
    refine wp_seq hboth fun ok h₃ ⟨hr, hsp⟩ => ?_
    rcases hr with ⟨rfl, hlost⟩ | ⟨rfl, hmir, hlost, m, -, hk₃, hu₃, -, -, -⟩
    · rw [wp_ite, if_pos (by decide)]
      exact Or.inl ⟨rfl, surrenders_of_lost (h₂a.lostBytes ▸ hlost)⟩
    rw [wp_ite, if_neg (by decide)]
    refine wp_observe (refl_of Alike h₃) rfl fun h₄ h₄a => ?_
    have hs₄ := h₄a.sameHeader P b
    rw [wp_ite]
    split
    · rename_i hq
      refine Or.inl ⟨rfl, fun hunt => ?_, fun hf => absurd (hf.symm.trans hmir) (by decide)⟩
      have hm : h₃.mem = h.mem := by
        obtain ⟨e, r, c, w⟩ := h₄a
        exact hunt.1
      have hback : SameHeader P b h₃ h :=
        ⟨(h₂a.sameHeader P b).registry ▸ hsp.1.symm, (h₂a.sameHeader P b).secret ▸ hsp.2.symm,
          fun a n _ _ => by rw [hm]⟩
      have := (headerOk_fst h b).mpr ⟨s, hback.headerOk hk₃⟩
      exact Bool.false_ne_true (hk.symm.trans this)
    · rename_i hquar
      have hq : wordQuarantined (h₃.word b) = false := by
        change ¬ wordQuarantined (h₃.word b) = true at hquar
        simpa using hquar
      refine wp_observe h₄a hu₃ fun h₅ h₅a => ?_
      have hs₅ := h₅a.sameHeader P b
      rw [wp_ite, if_neg (by decide)]
      refine wp_mono (wp_checkUsed h (hs₅.headerOk hk₃) (hs₅.word ▸ hu₃)
        (hs₅.word ▸ hq) ?_) fun b' h' hc => ?_
      · rw [h₅a.lostBytes]
        exact h₂a.lostBytes ▸ hlost
      · rcases hc with ⟨hz, hc⟩ | ⟨rfl, hc⟩
        · exact Or.inl ⟨hz, surrenders_of_lost hc⟩
        · exact Or.inr ⟨s, hc⟩
  · obtain ⟨s', hk'⟩ := (headerOk_fst h b).mp hk
    have hq : wordQuarantined (h.word b) = false := by
      by_contra hq
      subst hbp
      exact hn (.quarantined hb hk (by simpa using hq))
    have hu : wordUsed (h.word b) = true := by
      by_contra hu
      subst hbp
      exact hn (.free hb hk hq (by simpa using hu))
    refine wp_soundHeader h₁a hk fun h₂ h₂a => ?_
    rw [wp_ite, if_neg (by decide)]
    refine wp_observe h₂a hq fun h₃ h₃a => ?_
    rw [wp_ite, if_neg (by decide)]
    refine wp_observe h₃a hu fun h₄ h₄a => ?_
    have hs₄ := h₄a.sameHeader P b
    rw [wp_ite, if_neg (by decide)]
    refine wp_mono (wp_checkUsed h (hs₄.headerOk hk') (hs₄.word ▸ hu) (hs₄.word ▸ hq)
      (h₄a.lostBytes ▸ le_refl _)) fun b' h' hc => ?_
    rcases hc with ⟨hz, hc⟩ | ⟨rfl, hc⟩
    · exact Or.inl ⟨hz, surrenders_of_lost hc⟩
    · exact Or.inr ⟨s', hc⟩

theorem read_of_not_found {p : Nat} {h : Heap} (hb : (blockOf P p h).1 ≠ 0)
    (hn : ¬ Found P p h) :
    wp (mmRead P p 0 true 0) (fun r h' => r ≠ none ∨ Surrenders P h h') h := by
  refine wp_observe (refl_of Alike h) rfl fun h₁ h₁a => ?_
  rw [wp_ite, if_neg (by decide)]
  refine wp_seq (wp_checkedBlock_of_not_found h₁a hb hn) fun b h₂ hc => ?_
  rw [wp_ite]
  rcases hc with ⟨rfl, hunt⟩ | ⟨s, hk, hu, hq, hl⟩
  · rw [if_pos rfl]
    exact Or.inr hunt
  rw [if_neg hk.ne_zero]
  refine wp_observe (refl_of Alike h₂) rfl fun h₃ h₃a => ?_
  have hs₃ := h₃a.sameHeader P b
  rw [wp_ite]
  split
  · exact Or.inl (by simp [Prog.bind_run, Prog.pure_run])
  · refine wp_seq (quarantine_loses (hs₃.headerOk hk) (hs₃.word ▸ hq) (hs₃.word ▸ hu))
      fun _ h₄ h₄l => Or.inr (surrenders_of_lost ?_)
    exact lt_of_le_of_lt (h₃a.lostBytes ▸ hl) h₄l

/-- `mm_block_of` rejects `p`, or the header it leads to checks out and is no live block's, with
`MM_OK` from `mm_verify` excluded. -/
def Unclaimed (P : Profile) (p : Nat) (h : Heap) : Prop :=
  p ≠ 0 ∧ ((blockOf P p h).1 = 0 ∨ (headerOk P (blockOf P p h).1 h).1 = true ∧
    (wordQuarantined (h.word (blockOf P p h).1) = true ∨
      wordUsed (h.word (blockOf P p h).1) = false ∧ h.mode = .libc))

theorem Refused.of_harmless {call : Call} {h : Heap} (hf : (call.run P h).1.failed = true)
    (hh : Harmless h (call.run P h).2) : Refused P call h := ⟨hf, hh.2, hh.1.untouched⟩

theorem harmless_of_found {call : Call} {p : UInt64} {h : Heap} (hp : p ≠ 0)
    (hc : call.target = some p) (hv : call.isVerify = false) (hf : Found P p.toNat h) :
    (call.run P h).1.failed = true ∧ Harmless h (call.run P h).2 := by
  have hp' : p.toNat ≠ 0 := fun h0 => hp (UInt64.toNat_inj.mp h0)
  cases call with
  | free ptr =>
    obtain rfl : ptr = p := Option.some.inj hc
    have hr := free_of_found (refl_of Alike h) hf
    have hrun : (Call.free ptr).run P h = (.void, (freeUnlocked P ptr.toNat h).2) := by
      simp only [Call.run, mmFree, if_neg hp', Prog.bind_run, Prog.pure_run]
    exact ⟨by rw [hrun]; rfl, by rw [hrun]; exact hr⟩
  | realloc ptr newSize =>
    obtain rfl : ptr = p := Option.some.inj hc
    obtain ⟨hq, hh⟩ := realloc_of_found newSize.toNat hp' hf
    exact ⟨by simpa [Call.run, mmRealloc, Prog.bind_run, Prog.pure_run, Reply.failed] using hq, hh⟩
  | read ptr offset bufNull len =>
    obtain rfl : ptr = p := Option.some.inj hc
    obtain ⟨hq, hh⟩ := read_of_found offset.toNat len.toNat bufNull hf
    exact ⟨by simpa [Call.run, Prog.bind_run, Prog.pure_run, Reply.failed] using hq, hh⟩
  | write ptr offset src =>
    obtain rfl : ptr = p := Option.some.inj hc
    obtain ⟨hq, hh⟩ := write_of_found offset.toNat src hf
    exact ⟨by simpa [Call.run, Prog.bind_run, Prog.pure_run, Reply.failed] using hq, hh⟩
  | verify ptr => exact Bool.noConfusion hv
  | _ => exact absurd hc (by simp [Call.target])

theorem Unclaimed.found {p : Nat} {h : Heap} (hu : Unclaimed P p h) : Found P p h := by
  rcases hu.2 with hn | ⟨hk, hr⟩
  · exact .nothing hn
  by_cases hb : (blockOf P p h).1 = 0
  · exact .nothing hb
  by_cases hq : wordQuarantined (h.word (blockOf P p h).1) = true
  · exact .quarantined hb hk hq
  · rcases hr with hq' | ⟨hf, -⟩
    · exact absurd hq' hq
    · exact .free hb hk (by simpa using hq) hf

theorem verify_refused {p : UInt64} {h : Heap} (hu : Unclaimed P p.toNat h) :
    Refused P (.verify p) h := by
  have hrun : wp (mmVerify P p.toNat) (fun st h' => st ≠ .ok ∧ Harmless h h') h := by
    cases hu.found with
    | nothing hn => exact verify_of_nothing hn
    | quarantined hb hk hq => exact verify_of_quarantined hb hk hq
    | free hb hk hq hf =>
      have hm : h.mode = .libc := by
        rcases hu.2 with hn | ⟨-, hq' | ⟨-, hm⟩⟩
        · exact absurd hn hb
        · exact absurd (hq.symm.trans hq') Bool.false_ne_true
        · exact hm
      exact wp_mono (verify_of_free hb hk hq hf) fun _ _ hc => by rwa [if_pos hm] at hc
  exact .of_harmless (by simpa [Call.run, Prog.bind_run, Prog.pure_run, Reply.failed] using hrun.1)
    hrun.2

/-- A pointer is ignored, whatever call it is passed to, exactly if nothing claims it. -/
theorem ignored_iff (p : UInt64) (h : Heap) :
    (∀ call : Call, call.target = some p → Refused P call h) ↔ Unclaimed P p.toNat h := by
  constructor
  · intro hall
    have hp : p.toNat ≠ 0 := by
      intro h0
      refine (hall (.free p) rfl).2.1 ?_
      simp only [Call.run, mmFree, if_pos h0, Prog.bind_run, Prog.pure_run]
      rfl
    refine ⟨hp, ?_⟩
    by_cases hb : (blockOf P p.toNat h).1 = 0
    · exact Or.inl hb
    by_cases hf : Found P p.toNat h
    · cases hf with
      | nothing hn => exact Or.inl hn
      | quarantined _ hk hq => exact Or.inr ⟨hk, Or.inl hq⟩
      | free _ hk hq hu =>
        refine Or.inr ⟨hk, Or.inr ⟨hu, ?_⟩⟩
        by_contra hm
        have hv : wp (mmVerify P p.toNat) (fun st _ => st = .ok) h :=
          wp_mono (verify_of_free hb hk hq hu) fun _ _ hc => by rwa [if_neg hm] at hc
        have hfail := (hall (.verify p) rfl).1
        simp only [Call.run, Prog.bind_run, Prog.pure_run, Reply.failed] at hfail
        exact absurd hv (bne_iff_ne.mp hfail)
    · obtain ⟨hfail, -, hun⟩ := hall (.read p 0 true 0) rfl
      rcases read_of_not_found hb hf with hr | hr
      · simp only [Call.run, Prog.bind_run, Prog.pure_run, Reply.failed] at hfail
        exact absurd (Option.isNone_iff_eq_none.mp hfail) hr
      · exact absurd hun hr.1
  · intro hu call hc
    have hp : p ≠ 0 := fun h0 => hu.1 (by simp [h0])
    rcases hv : call.isVerify with _ | _
    · obtain ⟨hfail, hh⟩ := harmless_of_found hp hc hv hu.found
      exact .of_harmless hfail hh
    · cases call with
      | verify ptr =>
        obtain rfl : ptr = p := Option.some.inj hc
        exact verify_refused hu
      | _ => exact Bool.noConfusion hv

/-- Every call on a pointer that is no block's payload start is refused. -/
def IgnoresStrangers (P : Profile) (σ : Session) : Prop :=
  ∀ p : UInt64, p ≠ 0 → (∀ b ∈ σ.heap.tiling P, p.toNat ≠ payloadOf P b) →
    ∀ call : Call, call.target = some p → Refused P call σ.heap

theorem smallBuffer_ne_null : 4096 ≠ 0 := by decide

theorem smallBuffer_aligned : 4096 % alignment = 0 := by decide

theorem smallBuffer_large : minArena .hardened ≤ 1024 := by decide

theorem smallBuffer_fits : 4096 + 1024 < 2 ^ 64 := by decide

def smallBuffer : Buffer .hardened :=
  ⟨4096, 1024, smallBuffer_ne_null, smallBuffer_aligned, smallBuffer_large, smallBuffer_fits⟩

/-- One block of 100 bytes whose payload starts with a plausible control word: 48 bytes in use. -/
def forgeWord : List Action :=
  [.call (.malloc 100), .call (.write 4112 0 (.data (Memory.toBytes (48 * 64) 8)))]

def forgedWord : Session := (Session.start smallBuffer ⟨0⟩ 1).play .hardened forgeWord

theorem stranger_not_ignored :
    ¬ ∀ (P : Profile) (σ : Session), P.hasCrc = true → Reached P Action.any σ →
      IgnoresStrangers P σ := by
  intro hall
  have hr : Reached .hardened Action.any forgedWord :=
    (Reached.start smallBuffer ⟨0⟩ 1).play (by decide +kernel)
  have hrefused : Refused .hardened (.free 4128) forgedWord.heap :=
    hall .hardened forgedWord rfl hr 4128 (by decide) (by decide +kernel) (.free 4128) rfl
  have hlost : (Call.run .hardened (.free 4128) forgedWord.heap).2.lostBytes =
      forgedWord.heap.lostBytes := hrefused.2.2.2.2.2
  exact absurd hlost (by decide +kernel)

end Mars
