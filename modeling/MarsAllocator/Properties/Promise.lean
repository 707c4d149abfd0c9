import MarsAllocator.Steps.FastChecks

namespace Mars

open ByteMemory StateProgram

/-- `align` is a power of two wherever one is asked for. -/
def Call.aligned : Call → Bool
  | .memalign align _ => align.toNat == 2 ^ Nat.log2 align.toNat
  | _ => true

/-- The arenas that calls with any arguments lead to from `h`, while the bytes of `s`, the bins and
the patrol's cursor are overwritten in any way in between. -/
inductive Tampered (P : Profile) (s : Span) (h : Heap) : Heap → Prop
  | start : Tampered P s h h
  | call {h' : Heap} (ht : Tampered P s h h') (c : Call) (hc : c.aligned = true) :
      Tampered P s h (c.run P h').2
  | damage {h' : Heap} (ht : Tampered P s h h') (mem : Memory) (bins : Nat → Nat)
      (binBitmap : Nat → BitVec 64) (scrubAt : Nat)
      (hm : Memory.AgreeOff h'.mem mem s.lo s.hi) :
      Tampered P s h { h' with
        mem := mem
        bins := bins
        binBitmap := binBitmap
        scrubAt := scrubAt }

variable {s : Span} {m : Memory} {h h' : Heap}

theorem confined_call (hs : s.hi - s.lo < 2 ^ 58) (hu : s.kind = .user) (h64 : s.hi < 2 ^ 64)
    (hc : Confined s m h) {c : Call} (ha : c.aligned = true) : Confined s m (c.run .fast h).2 := by
  cases c with
  | malloc size =>
    have hw := confined_mallocUnlocked hs hc size.toNat
    exact hw.1
  | free ptr =>
    have hw : wp (mmFree .fast ptr.toNat) (fun _ h' => Confined s m h') h := by
      rw [mmFree, wp_ite]
      split
      · exact confined_aside hc
      · exact confined_freeUnlocked hs hu hc ptr.toNat
    exact hw
  | realloc ptr newSize => exact confined_reallocUnlocked hs hu hc ptr.toNat newSize.toNat
  | memalign align size =>
    have hlt : align.toNat < 2 ^ 64 := align.toNat_lt
    have hpow : align.toNat = 2 ^ Nat.log2 align.toNat := beq_iff_eq.mp ha
    have hlog : Nat.log2 align.toNat < 64 := by
      rw [hpow] at hlt
      exact (Nat.pow_lt_pow_iff_right (by decide)).mp hlt
    have hle : align.toNat ≤ 2 ^ 63 := by
      rw [hpow]
      exact Nat.pow_le_pow_right (by decide) (by omega)
    exact confined_memalignUnlocked hs hu h64 hc hle size.toNat
  | read ptr offset bufNull len => exact confined_mmRead hs hc ptr.toNat offset.toNat bufNull _
  | write ptr offset src => exact confined_mmWrite hs hc ptr.toNat offset.toNat src
  | verify ptr => exact confined_mmVerify hc ptr.toNat
  | checkHeap => exact confined_mmCheckHeap hc
  | scrub budget =>
    have hw : wp (scrub .fast budget.toNat) (fun _ h' => Confined s m h') h := by
      refine wp_aside hc fun _ h₁ hc₁ _ => ?_
      rw [arenaLive, wp_bind, wp_read, wp_ite]
      split
      · exact confined_scrubRun hs hc₁ _
      · exact confined_aside (x := do
          fail .notInitialized
          pure Status.notInitialized) hc₁
    exact hw
  | setMode mode => exact confined_mmSetMode hc mode
  | setScrubInterval ops budget =>
    exact ⟨hc.registry, hc.spans, hc.tame, hc.fixed, hc.stale, hc.cursor, hc.agree⟩

theorem Buffer.span_room {P : Profile} (buf : Buffer P) :
    Room P buf.span buf.span.lo ∧ buf.span.hi < 2 ^ 64 := by
  have hp := P.sizes
  have hl := buf.large
  have hf := buf.fits
  have hlo : buf.span.lo = buf.base + P.blockOffset := rfl
  have hhi : buf.span.hi = buf.base + P.blockOffset +
      (buf.size - P.blockOffset - (buf.size - P.blockOffset) % 16) := rfl
  rw [minArena] at hl
  have hoff : P.blockOffset ≤ 8 := by cases P <;> decide
  refine ⟨⟨le_refl _, ?_⟩, ?_⟩
  · rw [hhi, hlo]
    omega
  · rw [hhi]
    omega

/-- The arena while its one block is still to be filed. -/
def bareArena (buf : Buffer .fast) (mem : Memory) (secret : Nat) : Heap :=
  (addSpan buf.span (spanRegister buf.span (setFresh buf.span false { Heap.blank
    (mem.store buf.base buf.size 0) with secret := secret }).2).2).2

theorem confined_bareArena (buf : Buffer .fast) (mem : Memory) (secret : Nat) :
    Confined buf.span (bareArena buf mem secret).mem (bareArena buf mem secret) :=
  ⟨rfl, rfl, rfl, rfl, rfl, fun s' hs' => absurd hs' (by simp [bareArena, addSpan, spanRegister,
    setFresh, Heap.blank, Prog.modify, Buffer.span, userSpan]), Memory.AgreeOff.refl _ _ _⟩

theorem installed_eq (buf : Buffer .fast) (mem : Memory) (secret : Nat) :
    installed .fast mem buf.base buf.size secret =
      (scrubEnter buf.span (spanFormat .fast buf.span (bareArena buf mem secret)).2).2 := by
  have hbad : ¬ (buf.base = 0 ∨ buf.size < minArena .fast ∨ buf.base % alignment ≠ 0) := by
    have := buf.ne_null
    have := buf.large
    have := buf.aligned
    omega
  rw [installed, mmInit, Prog.bind_run, Prog.ite_run, if_neg hbad]
  rfl

theorem confined_spanFormat (hs : s.hi - s.lo < 2 ^ 58) (hc : Confined s m h)
    (hb : Room .fast s s.lo) : Confined s m (spanFormat .fast s h).2 := by
  have hw : wp (spanFormat .fast s) (fun _ h' => Confined s m h') h := by
    rw [spanFormat, wp_bind, wp]
    have hc₁ := confined_store64 hc hb 0
    generalize (store64 s.lo 0 h).2 = h₁ at hc₁
    rw [fast_setPayloadCrc, pure_bind_run, wp_bind, wp]
    have hc₂ := confined_setWord hc₁ hb (s.hi - s.lo) 0 false false
    generalize (setWord s.lo (s.hi - s.lo) 0 false false h₁).2 = h₂ at hc₂
    rw [wp_bind, wp]
    have hc₃ := confined_setPrevInUse hc₂ hb true
    generalize (setPrevInUse s.lo true h₂).2 = h₃ at hc₃
    rw [wp_bind, wp]
    exact confined_binInsert (confined_publish hs hc₃ s.lo) hb
  exact hw

theorem confined_installed (buf : Buffer .fast) (hs : buf.span.hi - buf.span.lo < 2 ^ 58)
    (mem : Memory) (secret : Nat) :
    Confined buf.span (installed .fast mem buf.base buf.size secret).mem
      (installed .fast mem buf.base buf.size secret) := by
  have hc := confined_spanFormat hs (confined_bareArena buf mem secret) buf.span_room.1
  rw [installed_eq, scrubEnter, Prog.modify_run]
  generalize (spanFormat .fast buf.span (bareArena buf mem secret)).2 = h at hc
  split
  · exact ⟨hc.registry, hc.spans, hc.tame, hc.fixed, hc.stale, fun s' hs' =>
      (Option.some.inj hs').symm, Memory.AgreeOff.refl _ _ _⟩
  · exact ⟨hc.registry, hc.spans, hc.tame, hc.fixed, hc.stale, hc.cursor,
      Memory.AgreeOff.refl _ _ _⟩

/-- Whatever the bytes of the arena, its bins and its cursor have been overwritten with, the
allocator under the fast profile keeps to its one span. -/
theorem arena_promise (buf : Buffer .fast) (hs : buf.span.hi - buf.span.lo < 2 ^ 58) (mem : Memory)
    (secret : UInt64) {h : Heap}
    (ht : Tampered .fast buf.span (installed .fast mem buf.base buf.size secret.toNat) h) :
    h.spans = [buf.span] ∧ h.wild = false ∧
      Memory.AgreeOff (installed .fast mem buf.base buf.size secret.toNat).mem h.mem
        buf.span.lo buf.span.hi ∧ LoopsEnd .fast := by
  have hc : Confined buf.span (installed .fast mem buf.base buf.size secret.toNat).mem h := by
    induction ht with
    | start => exact confined_installed buf hs mem secret.toNat
    | call _ c ha ih => exact confined_call hs rfl buf.span_room.2 ih ha
    | damage _ mem bins binBitmap scrubAt hm ih =>
      exact ⟨ih.registry, ih.spans, ih.tame, ih.fixed, ih.stale, ih.cursor, ih.agree.trans hm⟩
  exact ⟨hc.spans, hc.tame, hc.agree, loopsEnd .fast⟩

def kilobyte : Buffer .fast := ⟨4096, 1024, by decide, by decide, by decide, by decide⟩

def scribbled (h : Heap) : Heap := { h with
  mem := h.mem.store 4104 8 (2 ^ 64 - 1)
  bins := fun _ => 4112
  binBitmap := fun _ => 0
  scrubAt := 4109 }

theorem arena_promise_kilobyte :
    let h := installed .fast ⟨0⟩ kilobyte.base kilobyte.size (UInt64.toNat 7)
    let h' := ((Call.free 4112).run .fast (scribbled h)).2
    h'.spans = [kilobyte.span] ∧ h'.wild = false ∧
      Memory.AgreeOff h.mem h'.mem kilobyte.span.lo kilobyte.span.hi ∧ LoopsEnd .fast :=
  arena_promise kilobyte (by decide) ⟨0⟩ 7 (.call (.damage .start _ _ _ _
    ((Memory.AgreeOff.refl _ _ _).store (by decide) (by decide))) (.free 4112) rfl)

/-- An alignment that is no power of two leads the allocator out of its one span. -/
theorem promise_broken_ragged : (Call.memalign 18446744073709551615 8192).aligned = false ∧
    (installed .fast ⟨0⟩ 4096 65536 1).wild = false ∧
      ((Call.memalign 18446744073709551615 8192).run .fast
        (installed .fast ⟨0⟩ 4096 65536 1)).2.wild = true := by
  refine ⟨?_, ?_, ?_⟩
  all_goals decide +kernel

end Mars
