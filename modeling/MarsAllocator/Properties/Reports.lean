import MarsAllocator.Steps.Entry

namespace Mars

open StateProgram

def Status.isCorruption : Status → Bool
  | .corruptHeader | .corruptCanary | .corruptPayload | .corruptLinks | .quarantined => true
  | _ => false

/-- Whatever was raised between `h` and `h'` ends up in the status, the latest of it. -/
def Reports (h h' : Heap) : Prop :=
  ∃ raised, h'.raised = raised ++ h.raised ∧ h'.lastError = raised.headD h.lastError ∧
    .ok ∉ raised

/-- The same for a stretch that starts by clearing the status. -/
def Heard (h h' : Heap) : Prop :=
  ∃ raised, h'.raised = raised ++ h.raised ∧ h'.lastError = raised.headD .ok ∧ .ok ∉ raised

def RaisesCorruption (h h' : Heap) : Prop :=
  ∃ raised, h'.raised = raised ++ h.raised ∧ ∃ status ∈ raised, status.isCorruption

/-- A corruption status raised between `h` and `h'` is not lost. -/
def ReportKept (h h' : Heap) : Prop := RaisesCorruption h h' → h'.lastError ≠ .ok

theorem Reports.of_eq {h h' : Heap} (hr : h'.raised = h.raised) (he : h'.lastError = h.lastError) :
    Reports h h' := ⟨[], by simp [hr], by simp [he], by simp⟩

theorem Reports.trans {h₁ h₂ h₃ : Heap} (h : Reports h₁ h₂) (h' : Reports h₂ h₃) :
    Reports h₁ h₃ := by
  obtain ⟨r, hr, he, ho⟩ := h
  obtain ⟨r', hr', he', ho'⟩ := h'
  refine ⟨r' ++ r, by rw [hr', hr, List.append_assoc], ?_, by simp [ho, ho']⟩
  cases r' with
  | nil => simpa [he] using he'
  | cons status r' => simpa using he'

instance : StepClosed Reports where
  refl _ := .of_eq rfl rfl
  trans _ _ _ := Reports.trans
  core hs := by
    cases hs with
    | raise status hs => exact ⟨[status], rfl, rfl, by simpa using hs.symm⟩
    | _ => exact .of_eq rfl rfl
  span hs := by
    cases hs
    all_goals exact .of_eq rfl rfl

theorem Reports.lastError_ne_ok {h h' : Heap} (hr : Reports h h') (he : h.lastError ≠ .ok) :
    h'.lastError ≠ .ok := by
  obtain ⟨r, -, hl, ho⟩ := hr
  cases r with
  | nil => simpa [hl] using he
  | cons status r =>
    rw [hl]
    rintro rfl
    simp at ho

theorem Heard.reports {h₁ h₂ h₃ : Heap} (h : Heard h₁ h₂) (h' : Reports h₂ h₃) : Heard h₁ h₃ := by
  obtain ⟨r, hr, he, ho⟩ := h
  obtain ⟨r', hr', he', ho'⟩ := h'
  refine ⟨r' ++ r, by rw [hr', hr, List.append_assoc], ?_, by simp [ho, ho']⟩
  cases r' with
  | nil => simpa [he] using he'
  | cons status r' => simpa using he'

theorem Heard.then_fail {h₁ h₂ h₃ : Heap} (h : Heard h₁ h₂) (h' : Heard h₂ h₃) (status : Status)
    (hs : status ≠ .ok) : Heard h₁ (fail status h₃).2 := by
  obtain ⟨r, hr, -, ho⟩ := h
  obtain ⟨r', hr', -, ho'⟩ := h'
  refine ⟨status :: (r' ++ r), ?_, rfl, by simpa [ho, ho'] using hs.symm⟩
  change status :: h₃.raised = _
  rw [hr', hr, List.cons_append, List.append_assoc]

theorem raised_unique {h h' : Heap} {r r' : List Status} (hr : h'.raised = r ++ h.raised)
    (hr' : h'.raised = r' ++ h.raised) : r = r' :=
  List.append_cancel_right (hr.symm.trans hr')

theorem ne_ok_of_headD {r : List Status} {status : Status} (ho : .ok ∉ r) (hr : r ≠ []) :
    r.headD status ≠ .ok := by
  cases r with
  | nil => exact absurd rfl hr
  | cons s r =>
    rintro rfl
    simp at ho

theorem Reports.kept {h h' : Heap} (hr : Reports h h') : ReportKept h h' := by
  obtain ⟨r, hr, he, ho⟩ := hr
  rintro ⟨r', hr', status, hs, -⟩
  obtain rfl := raised_unique hr hr'
  rw [he]
  exact ne_ok_of_headD ho (List.ne_nil_of_mem hs)

theorem Heard.kept {h h' : Heap} (hr : Heard h h') : ReportKept h h' := by
  obtain ⟨r, hr, he, ho⟩ := hr
  rintro ⟨r', hr', status, hs, -⟩
  obtain rfl := raised_unique hr hr'
  rw [he]
  exact ne_ok_of_headD ho (List.ne_nil_of_mem hs)

theorem heard_of_cleared {α : Type} (x : HeapM α) [hx : Respects Reports x] (h : Heap) :
    Heard h ((do clearError; x) h).2 := by
  have hc : Heard h (clearError h).2 := ⟨[], rfl, rfl, by simp⟩
  exact hc.reports (hx.step _)

theorem Heard.bind {α β : Type} {x : HeapM α} {f : α → HeapM β} {h₁ h₂ : Heap}
    [hx : Respects Reports x] (h : Heard h₁ h₂)
    (hf : ∀ a h₃, Heard h₁ h₃ → Heard h₁ (f a h₃).2) : Heard h₁ ((x >>= f) h₂).2 :=
  hf _ _ (h.reports (hx.step h₂))

variable (P : Profile)

set_option synthInstance.maxSize 100000

theorem heard_mallocUnlocked (size : Nat) (h : Heap) : Heard h (mallocUnlocked P size h).2 := by
  unfold mallocUnlocked arenaLive
  exact heard_of_cleared _ h

theorem heard_freeUnlocked (ptr : Nat) (h : Heap) : Heard h (freeUnlocked P ptr h).2 := by
  unfold freeUnlocked
  exact heard_of_cleared _ h

theorem heard_mmFree (ptr : Nat) (h : Heap) : Heard h (mmFree P ptr h).2 := by
  rw [mmFree, Prog.ite_run]
  split
  · exact ⟨[], rfl, rfl, by simp⟩
  · exact heard_freeUnlocked P ptr h

theorem heard_mmRead (ptr offset : Nat) (bufNull : Bool) (len : Nat) (h : Heap) :
    Heard h (mmRead P ptr offset bufNull len h).2 := by
  unfold mmRead
  exact heard_of_cleared _ h

theorem heard_mmWrite (ptr offset : Nat) (src : Source) (h : Heap) :
    Heard h (mmWrite P ptr offset src h).2 := by
  unfold mmWrite
  rcases src with (_ | _) | src
  all_goals exact heard_of_cleared _ h

theorem heard_scrub (budgetBlocks : Nat) (h : Heap) : Heard h (scrub P budgetBlocks h).2 := by
  unfold scrub arenaLive
  exact heard_of_cleared _ h

theorem heard_mmVerify (ptr : Nat) (h : Heap) : Heard h (mmVerify P ptr h).2 := by
  unfold mmVerify
  exact heard_of_cleared _ h

theorem heard_mmCheckHeap (h : Heap) : Heard h (mmCheckHeap P h).2 := by
  unfold mmCheckHeap
  exact heard_of_cleared _ h

/-- An over-allocation that cannot be cut is freed again, and that free is reported as a refusal. -/
theorem heard_memalignFrom (align raw size : Nat) {h h₁ : Heap} (hm : Heard h h₁) :
    Heard h (memalignFrom P align raw size h₁).2 := by
  refine hm.bind fun b h₂ hb => ?_
  rw [Prog.ite_run]
  split
  · exact hb
  refine hb.bind fun total h₃ ht => ?_
  rw [Prog.ite_run]
  split
  · exact ht.then_fail (heard_freeUnlocked P raw h₃) .nomem (by decide)
  · exact ht.reports (Respects.step h₃)

theorem heard_memalignUnlocked (align size : Nat) (h : Heap) :
    Heard h (memalignUnlocked P align size h).2 := by
  unfold memalignUnlocked
  rw [Prog.ite_run]
  split
  · exact heard_mallocUnlocked P size h
  rw [Prog.ite_run]
  split
  · exact heard_of_cleared _ h
  have hm := heard_mallocUnlocked P (size + memalignPad P align) h
  rw [Prog.bind_run, Prog.ite_run]
  split
  · exact hm
  · exact heard_memalignFrom P align _ size hm

theorem fail_then_reports {α : Type} (status : Status) (hs : status ≠ .ok) (x : HeapM α)
    [hx : Respects Reports x] (h : Heap) : ((do fail status; x) h).2.lastError ≠ .ok :=
  Reports.lastError_ne_ok (hx.step (fail status h).2) hs

theorem publish_false_reports (b : Nat) (h : Heap) :
    wp (publish P b) (fun ok h' => ok = false → h'.lastError ≠ .ok) h := by
  refine wp_any fun legible h₁ => ?_
  rw [wp_ite]
  split
  · exact wp_any fun _ _ => wp_any fun _ _ => wp_any fun _ _ => wp_any fun _ _ =>
      wp_any fun _ _ => fun hf => Bool.noConfusion hf
  · exact fun _ =>
      fail_then_reports .corruptHeader (by decide) (do let _ ← rescue P b; pure false) h₁

theorem finishAllocation_false_reports (b size : Nat) (h : Heap) :
    wp (finishAllocation P b size) (fun ok h' => ok = false → h'.lastError ≠ .ok) h :=
  wp_any fun _ _ => wp_any fun _ _ => wp_any fun _ _ => wp_any fun _ h₁ =>
    publish_false_reports P b h₁

theorem carve_null_reports (b found need size : Nat) (h : Heap) :
    wp (carve P b found need size) (fun r h' => r.1 = 0 → h'.lastError ≠ .ok) h := by
  refine wp_any fun _ _ => wp_any fun dirty _ => wp_any fun _ _ => wp_any fun _ _ =>
    wp_any fun _ _ => wp_any fun _ h₁ => ?_
  refine wp_seq (finishAllocation_false_reports P b size h₁) fun ok h₂ hok => ?_
  cases ok with
  | true =>
    refine wp_any fun _ _ => wp_any fun _ _ => wp_any fun _ _ => fun hp => ?_
    have hz : b + P.hdrSize = 0 := hp
    have : 0 < P.hdrSize := by cases P <;> decide
    omega
  | false => exact fun _ => Reports.lastError_ne_ok (Respects.step (x := scrubTick P) h₂) (hok rfl)

theorem malloc_null_reports (size : Nat) (h : Heap) :
    wp (mallocUnlocked P size) (fun r h' => r.1 = 0 → h'.lastError ≠ .ok) h := by
  refine wp_any fun _ _ => wp_any fun live h₁ => ?_
  rw [wp_ite]
  split
  · exact fun _ => fail_then_reports .notInitialized (by decide) (pure (0, sizeMax)) h₁
  rw [wp_ite]
  split
  · exact fun _ => fail_then_reports .nomem (by decide) (pure (0, sizeMax)) h₁
  refine wp_any fun b h₂ => ?_
  rw [wp_ite]
  split
  · exact wp_any fun _ h₃ => fun _ =>
      fail_then_reports .nomem (by decide) (do scrubTick P; pure (0, sizeMax)) h₃
  refine wp_any fun found _ => wp_any fun _ _ => wp_any fun whole h₃ => ?_
  rw [wp_ite]
  split
  · exact carve_null_reports P b found _ size h₃
  · exact wp_any fun _ h₄ => fun _ =>
      fail_then_reports .corruptLinks (by decide) (do scrubTick P; pure (0, sizeMax)) h₄

theorem reallocCopy_reports (ptr oldSize oldSum newSize : Nat) (h : Heap) :
    wp (reallocCopy P ptr oldSize oldSum newSize)
      (fun fresh h' => Heard h h' ∧ (fresh = 0 → h'.lastError ≠ .ok)) h := by
  have hm : wp (mallocUnlocked P newSize)
      (fun r h' => Heard h h' ∧ (r.1 = 0 → h'.lastError ≠ .ok)) h :=
    ⟨heard_mallocUnlocked P newSize h, malloc_null_reports P newSize h⟩
  refine wp_seq hm fun fresh h₁ hm => ?_
  rw [wp_ite]
  split
  · rename_i hz
    exact ⟨hm.1, fun _ => hm.2 hz⟩
  · rename_i hz
    exact ⟨hm.1.reports (Respects.step h₁), fun h0 => absurd h0 hz⟩

theorem reports_setMode (mode : Mode) (h : Heap) : Reports h (mmSetMode P mode h).2 := by
  unfold mmSetMode setModeUnlocked
  rw [Prog.bind_run, Prog.when_run]
  split
  · have hm : Reports h { h with mode := mode } := .of_eq rfl rfl
    exact hm.trans (Respects.step (x := Prog.when (P.hasCrc ∧ mode = .libc)
      (forgetPayloadCrcs P h.spans)) { h with mode := mode })
  · exact .of_eq rfl rfl

end Mars
