import MarsAllocator.Invariant.Absorb

namespace Mars

open ByteMemory StateProgram

variable {P : Profile} {h h' h₁ : Heap} {s : Span} {a b n x y need : Nat} {u u' : Bool}
  {c c' d : Cell} {L L' : Span → List Cell} {pre post post' : List Cell} {X : Nat → Prop} {m : Memory}

/-- A tail cut off a block, as `split_block` and `mm_memalign` make it. -/
def Cell.tail (P : Profile) (n : Nat) : Cell := ⟨n, P.trail, 0, .bare⟩

theorem run_writeTail (hr : h.Room s b n) (hf : (Cell.tail P n).Fits P) :
    ∃ m', writeTail P b n h = ((), h.withMem m') ∧
      SealedIn P h.secret s h.mem m' b true (Cell.tail P n) := by
  have hp := P.sizes
  obtain ⟨d, hd⟩ : ∃ d, d = Cell.tail P n := ⟨_, rfl⟩
  have hsize : d.size = n := by rw [hd, Cell.tail]
  have hslack : d.slack = P.trail := by rw [hd, Cell.tail]
  have hcrc : d.crc = 0 := by rw [hd, Cell.tail]
  have hused : d.used = true := by rw [hd]; rfl
  have hq : d.quarantined = false := by rw [hd]; rfl
  rw [← hd] at hf ⊢
  have hmin := hf.min_le
  have hcov : h.Covers b n := hr.covers
  have hcov8 : h.Covers b 8 := hcov.sub (le_refl b) (by omega)
  have hcovh : h.Covers b P.hdrSize := hcov.sub (le_refl b) (by omega)
  have hrun₁ : store64 b 0 h = ((), h.withMem (h.mem.store b 8 0)) := run_store64 hcov8
  obtain ⟨m₁, hm₁⟩ : ∃ m₁, m₁ = h.mem.store b 8 0 := ⟨_, rfl⟩
  rw [← hm₁] at hrun₁
  obtain ⟨m₂, hrun₂, hset₂⟩ := run_setPayloadCrc (P := P) (hcovh.withMem m₁) (v := 0)
    (Nat.two_pow_pos 32)
  have hword₂ : m₂.load b 8 = 0 := by
    rw [hset₂.word, Heap.withMem_mem, hm₁, Memory.load_store_self]
    exact Nat.zero_mod _
  have hsame₂ : ∀ a, a < b ∨ b + P.hdrSize ≤ a → m₂.byte a = h.mem.byte a := fun a ha => by
    refine (hset₂.same a ha).trans ?_
    rw [Heap.withMem_mem, hm₁]
    exact Memory.byte_store_of_notMem (by omega)
  have hcov₂ : (h.withMem m₂).Covers b 8 := hcov8.withMem m₂
  have hrun₃ : setWord b n P.trail true false (h.withMem m₂) =
      ((), h.withMem (m₂.store b 8 (d.word false))) := by
    have hflag : wordPrevInUse ((h.withMem m₂).word b) = false := by
      change wordPrevInUse (m₂.load b 8) = false
      rw [hword₂]
      rfl
    have hrun := run_setWord_cell hcov₂ hflag hf
    rw [hsize, hslack, hused, hq] at hrun
    exact hrun
  have hrun₄ : setPrevInUse b true (h.withMem (m₂.store b 8 (d.word false))) =
      ((), h.withMem ((m₂.store b 8 (d.word false)).store b 8 (d.word true))) := by
    have hflag : wordSetPrevInUse (d.word false) true = d.word true :=
      wordSetPrevInUse_mkWord hf.lt hf.slack_lt
    rw [run_setPrevInUse (hcov8.withMem _)]
    change ((), h.withMem ((m₂.store b 8 (d.word false)).store b 8
      (wordSetPrevInUse ((m₂.store b 8 (d.word false)).load b 8) true))) = _
    rw [load_word hf, hflag]
  obtain ⟨m₄, hm₄⟩ : ∃ m₄, m₄ = (m₂.store b 8 (d.word false)).store b 8 (d.word true) := ⟨_, rfl⟩
  rw [← hm₄] at hrun₄
  have hsame₄ : ∀ a, a < b ∨ b + 8 ≤ a → m₄.byte a = m₂.byte a := fun a ha => by
    rw [hm₄, Memory.byte_store_of_notMem (by omega)]
    exact Memory.byte_store_of_notMem (by omega)
  have hroom : (h.withMem m₄).Room s b d.size := hsize ▸ hr.withMem m₄
  have hw₄ : (h.withMem m₄).Writ P s b true d := by
    refine ⟨hroom, hf, ?_⟩
    rw [Heap.withMem_mem, hm₄, load_word hf]
  obtain ⟨m₅, hrun₅, hs₅⟩ := run_sealHeader hw₄ fun hc => by
    have h16 := Profile.hdrSize_of_crc hc
    rw [hcrc]
    refine Eq.trans (Memory.load_congr fun x _ _ => ?_) (hset₂.crc hc)
    exact hsame₄ x (by omega)
  refine ⟨m₅, ?_, hs₅.head, hs₅.mirror, fun a h₁ h₂ => ?_⟩
  · rw [writeTail, Prog.bind_run_of_eq hrun₁, Prog.bind_run_of_eq hrun₂]
    change (setWord b n P.trail true false >>= _) (h.withMem m₂) = _
    rw [Prog.bind_run_of_eq hrun₃, Prog.bind_run_of_eq hrun₄]
    exact hrun₅
  · exact (hs₅.same a h₁ h₂).trans ((hsame₄ a (by omega)).trans (hsame₂ a h₁))

def Cell.cut (c : Cell) (n : Nat) : Cell := { c with size := n }

theorem Cell.Fits.cut (hf : c.Fits P) (hk : c.kind = .bare) (hd : n % 16 = 0) (hmin : P.minBlock ≤ n)
    (hle : n ≤ c.size) : (c.cut n).Fits P := by
  have h₁ := hf.lt
  have hne : ¬ (c.cut n).kind = .live := fun h' => absurd (hk.symm.trans h') (by decide)
  exact ⟨hd, hmin, Nat.lt_of_le_of_lt hle h₁, hf.slack_lt, fun h' => absurd h' hne,
    fun h' => absurd h' hne⟩

theorem Cell.Fits.tail (hd : n % 16 = 0) (hmin : P.minBlock ≤ n) (hlt : n < 2 ^ 58) :
    (Cell.tail P n).Fits P := by
  have hp := P.sizes
  have hs : (Cell.tail P n).slack = P.trail := rfl
  exact ⟨hd, hmin, hlt, by omega, nofun, nofun⟩

/-- What a split leaves of the block in hand and after it. -/
inductive Trimmed (P : Profile) (need : Nat) (c : Cell) (u : Bool) (post : List Cell) :
    Cell → Bool → List Cell → Prop
  | whole (h : c.size < need + P.minBlock) : Trimmed P need c u post c u post
  | parted (h : need + P.minBlock ≤ c.size) {front post' : List Cell} (hpost : post = front ++ post')
      (hfree : ∀ x ∈ front, x.kind = .free) : Trimmed P need c u post (c.cut need) true
        (Cell.freed (c.size - need + extents front) :: post')

theorem Trimmed.size (ht : Trimmed P need c u post c' u' post') (hle : need ≤ c.size) :
    need ≤ c'.size ∧ c'.size < need + P.minBlock ∧ c'.size ≤ c.size := by
  have hp := P.sizes
  cases ht with
  | whole h => exact ⟨hle, h, le_refl _⟩
  | parted h _ _ => exact ⟨le_refl _, Nat.lt_add_of_pos_right (by omega), hle⟩

theorem Trimmed.exact (ht : Trimmed P need c u post c' u' post') (hle : need + P.minBlock ≤ c.size) :
    c'.size = need := by
  cases ht with
  | whole h => omega
  | parted h _ _ => rfl

theorem Trimmed.crc (ht : Trimmed P need c u post c' u' post') : c'.crc = c.crc := by
  cases ht <;> rfl

namespace Heap.Open

variable (ho : h.Open P L s pre b c u post)
include ho

theorem run_cut (hd : need % 16 = 0) (hmin : P.minBlock ≤ need)
    (hrest : need + P.minBlock ≤ c.size) :
    ∃ h₁ h₂ h', setBlockSize b need h = ((), h₁) ∧ sealHeader P b h₁ = ((), h₂) ∧
      writeTail P (b + need) (c.size - need) h₂ = ((), h') ∧ h.Work h' ∧
      h'.Open P (Function.update L s (pre ++ [c.cut need] ++ [Cell.tail P (c.size - need)] ++ post)) s
        (pre ++ [c.cut need]) (b + need) (Cell.tail P (c.size - need)) u post ∧
      ∀ a, h.Kept P L (· = b) a ∨ b + P.hdrSize ≤ a ∧ a < b + need - P.mirrorSize →
        h'.mem.byte a = h.mem.byte a := by
  have hp := P.sizes
  have hw := ho.writ
  have hlt := hw.fits.lt
  have hdvd := hw.fits.dvd
  obtain ⟨c₁, hc₁⟩ : ∃ c₁, c₁ = c.cut need := ⟨_, rfl⟩
  have hsize₁ : c₁.size = need := by rw [hc₁, Cell.cut]
  have hbare₁ : c₁.kind = .bare := by rw [hc₁]; exact ho.bare
  have hfit₁ : c₁.Fits P := hc₁ ▸ hw.fits.cut ho.bare hd hmin (by omega)
  obtain ⟨t, ht⟩ : ∃ t, t = Cell.tail P (c.size - need) := ⟨_, rfl⟩
  have hsizet : t.size = c.size - need := by rw [ht, Cell.tail]
  have hfitt : t.Fits P := ht ▸ Cell.Fits.tail (by omega) (by omega) (by omega)
  rw [← hc₁, ← ht]
  have hset : setBlockSize b need h =
      ((), h.withMem (h.mem.store b 8 (c₁.word (lastUsed true pre)))) := by
    have hword : wordSetSize (c.word (lastUsed true pre)) need = c₁.word (lastUsed true pre) := by
      rw [hc₁]
      exact wordSetSize_mkWord (by omega) hw.fits.slack_lt
    rw [run_setBlockSize hw.covers8, hw.word_eq, hword]
  obtain ⟨m₁, hm₁⟩ : ∃ m₁, m₁ = h.mem.store b 8 (c₁.word (lastUsed true pre)) := ⟨_, rfl⟩
  rw [← hm₁] at hset
  have hsame₁ : ∀ a, a < b ∨ b + P.hdrSize ≤ a → m₁.byte a = h.mem.byte a := fun a ha => by
    rw [hm₁]
    exact Memory.byte_store_of_notMem (by omega)
  have hroom := ho.room
  have hroom₁ : (h.withMem m₁).Room s b c₁.size := by
    have := hroom.end_le
    exact ⟨hroom.span, hroom.found, hroom.lo_pos, hroom.top, hroom.lo_le, by omega, hroom.dvd⟩
  have hw₁ : (h.withMem m₁).Writ P s b (lastUsed true pre) c₁ := by
    refine ⟨hroom₁, hfit₁, ?_⟩
    rw [Heap.withMem_mem, hm₁, load_word hfit₁]
  obtain ⟨m₂, hrun₂, hs₂⟩ := run_sealHeader hw₁ fun hcrc => by
    have h16 := Profile.hdrSize_of_crc hcrc
    have hcc : c₁.crc = c.crc := by rw [hc₁, Cell.cut]
    rw [Heap.withMem_mem, hm₁, Memory.load_store_of_disjoint (by omega), hcc]
    exact ho.head.crc hcrc
  have hsame₂ : ∀ a, a < b ∨ b + P.hdrSize ≤ a → a < b + need - P.mirrorSize ∨ b + need ≤ a →
      m₂.byte a = h.mem.byte a := fun a h₁ h₂ =>
    (hs₂.same a h₁ (.inr (hsize₁.symm ▸ h₂))).trans (hsame₁ a h₁)
  have hroomt : (h.withMem m₂).Room s (b + need) (c.size - need) := by
    have := hroom.end_le
    have := hroom.dvd
    have := hroom.lo_le
    exact ⟨hroom.span, hroom.found, hroom.lo_pos, hroom.top, by omega, by omega, by omega⟩
  obtain ⟨m₃, hrun₃, hs₃⟩ := run_writeTail (h := h.withMem m₂) hroomt (ht ▸ hfitt)
  rw [← ht] at hs₃
  have hsame₃ : ∀ a, a < b + need ∨ b + c.size ≤ a → m₃.byte a = m₂.byte a := fun a ha =>
    hs₃.same a (by omega) (.inr (by omega))
  have hcell₁ : CellAt P h.secret True s m₃ b (lastUsed true pre) c₁ := by
    have hcell : CellAt P h.secret True s m₂ b (lastUsed true pre) c₁ := hs₂.cellAt hfit₁ (fun _ hk => absurd (hbare₁.symm.trans hk)
      (by decide)) fun hk => absurd (hbare₁.symm.trans hk) (by decide)
    exact hcell.congr hfit₁ fun a h₁ h₂ _ => hsame₃ a (by omega)
  have hsame : ∀ a, a < b ∨ b + c.size ≤ a → m₃.byte a = h.mem.byte a := fun a ha =>
    (hsame₃ a (by omega)).trans (hsame₂ a (by omega) (by omega))
  have hc₃ := ho.toClear.inside hsame
  have hused₁ : c₁.used = true := Cell.used_of_bare hbare₁
  have hext : extents ([c₁] ++ [t]) = c.size := by
    rw [extents_append, extents_one, extents_one]
    omega
  have hbaret : t.kind = .bare := by rw [ht]; rfl
  have hcells : pre ++ [c₁] ++ [t] ++ post = pre ++ ([c₁] ++ [t]) ++ post := by
    rw [List.append_assoc pre]
  have hclear : (h.withMem m₃).Clear P
      (Function.update L s (pre ++ [c₁] ++ [t] ++ post)) s (pre ++ [c₁]) (b + need) t u post := by
    refine ⟨Function.update_self .., ?_, ?_, hbaret, ?_, ?_, hc₃.narrow⟩
    · rw [hcells]
      refine hc₃.plan.update hc₃.gap.span hc₃.cells (hext.trans (extents_one c).symm) fun d hd => ?_
      rcases List.mem_append.mp hd with hd | hd
      · exact List.mem_singleton.mp hd ▸ hfit₁
      · exact List.mem_singleton.mp hd ▸ hfitt
    · have hg := (hc₃.gap.update (pre ++ [c₁] ++ [t] ++ post))
      refine ⟨hg.ground, hg.secret_lt, hg.span, hg.others, ?_, ?_, by omega, ?_⟩
      · refine laid_append.mpr ⟨hg.before, ?_⟩
        rw [← hg.start]
        exact ⟨hcell₁, hfit₁, .inr hused₁, trivial⟩
      · have := hg.start
        rw [extents_append, extents_one]
        omega
      · have := hg.after
        rwa [show b + c.size = b + need + t.size by omega] at this
    · refine hc₃.filed.of_iff fun x k => ?_
      rw [hcells, hc₃.freeAt_update hext]
      refine ⟨.inl, fun hx => hx.resolve_right ?_⟩
      rintro ⟨e, he, hk, -⟩
      rcases at_append.mp he with he | he
      · obtain ⟨-, rfl⟩ := at_one.mp he
        exact absurd (hbare₁.symm.trans hk) (by decide)
      · obtain ⟨-, rfl⟩ := at_one.mp he
        exact absurd (hbaret.symm.trans hk) (by decide)
    · rw [hcells]
      refine hc₃.cursor.update hc₃.cells (hext.trans (extents_one c).symm) fun e he => ?_
      exact ⟨c₁, .inl ⟨(at_one.mp he).1, rfl⟩⟩
  refine ⟨_, _, _, hset, hrun₂, hrun₃, ⟨rfl⟩, ⟨hclear, ?_⟩, fun a ha => ?_⟩
  · rw [lastUsed_append]
    change HeadAt P h.secret s m₃ (b + need) c₁.used t
    rw [hused₁]
    exact hs₃.head
  · change m₃.byte a = h.mem.byte a
    rcases ha with ha | ha
    · exact hsame a (ho.toClear.kept_outside ha rfl)
    · exact (hsame₃ a (by omega)).trans (hsame₂ a (by omega) (by omega))

theorem run_splitBlock (hd : need % 16 = 0) (hmin : P.minBlock ≤ need) (hle : need ≤ c.size) :
    ∃ h' c' u' post', splitBlock P b need h = ((), h') ∧ h.Work h' ∧
      h'.Open P (Function.update L s (pre ++ [c'] ++ post')) s pre b c' u' post' ∧
      Trimmed P need c u post c' u' post' ∧
      (∀ X : Nat → Prop, X b → h.Spares P X L h' (Function.update L s (pre ++ [c'] ++ post'))) ∧
      ∀ a, b + P.hdrSize ≤ a → a < b + need - P.mirrorSize → h'.mem.byte a = h.mem.byte a := by
  have hp := P.sizes
  have hw := ho.writ
  have hlt := hw.fits.lt
  have husub : usub c.size need = c.size - need := usub_of_le hle (by omega)
  rw [splitBlock, Prog.bind_run_of_eq hw.run_blockSize, Prog.when_run, husub]
  by_cases hpart : need + P.minBlock ≤ c.size
  swap
  · rw [if_neg (by omega)]
    refine ⟨h, c, u, post, rfl, h.work_refl, ?_, .whole (by omega), fun X _ => ?_, fun _ _ _ => rfl⟩
    · rw [ho.update_self]
      exact ho
    · rw [ho.update_self]
      exact Heap.Spares.refl P X h L
  rw [if_pos (by omega)]
  obtain ⟨h₁, h₂, h₃, hrun₁, hrun₂, hrun₃, hwork₃, ho₃, hsame₃⟩ := ho.run_cut hd hmin hpart
  obtain ⟨h₄, r, h₅, pre', back, front, post', hpre, hpost, hback, hfree, hr, -, hrun₄, hrun₅,
    hwork₅, hsound, hspares⟩ := ho₃.run_giveBack
  -- the first half is in use, so nothing before the tail is taken in
  have hused : (c.cut need).used = true := Cell.used_of_bare ho.bare
  obtain rfl : back = [] := by
    rcases List.eq_nil_or_concat back with hb | ⟨back', e, hb⟩
    · exact hb
    rw [hb, List.concat_eq_append] at hback hpre
    rw [← List.append_assoc] at hpre
    obtain ⟨-, he⟩ := List.append_inj' hpre rfl
    have := hback e (List.mem_append_right _ List.mem_cons_self)
    rw [← List.singleton_inj.mp he] at this
    exact absurd this (Cell.used_iff.mp hused)
  rw [List.append_nil] at hpre
  subst hpre
  have hext : extents ([] ++ [Cell.tail P (c.size - need)] ++ front) =
      c.size - need + extents front := by
    rw [List.nil_append, extents_append, extents_one]
    rfl
  rw [hext, Function.update_idem] at hsound hspares
  obtain ⟨f, hf⟩ : ∃ f, f = Cell.freed (c.size - need + extents front) := ⟨_, rfl⟩
  rw [← hf] at hsound hspares
  have hcut : Function.update L s (pre ++ [c.cut need] ++ [f] ++ post') s =
      pre ++ [c.cut need] ++ f :: post' := by
    rw [Function.update_self, List.append_assoc _ [f]]
    rfl
  have hopen := hsound.open (hwork₅.kin.spans ▸ hwork₃.kin.spans ▸ ho.gap.span) hcut ho.gap.start hused
    (by rw [Cell.quarantined]; rw [show (c.cut need).kind = .bare from ho.bare]; rfl)
  have hopened : (c.cut need).opened = c.cut need := by
    rw [Cell.opened, Cell.cut, ho.bare]
  rw [hopened, Function.update_idem] at hopen
  have htail : ∀ cs : List Cell, pre ++ [c.cut need] ++ [f] ++ cs = pre ++ [c.cut need] ++ f :: cs :=
    fun cs => by rw [List.append_assoc _ [f]]; rfl
  rw [htail] at hspares
  have hwork := hwork₃.trans hwork₅
  refine ⟨h₅, c.cut need, true, f :: post', ?_, hwork, hopen, hf ▸ .parted hpart hpost hfree,
    fun X hX => ?_, fun a h₁ h₂ => ?_⟩
  · rw [Prog.bind_run_of_eq hrun₁, Prog.bind_run_of_eq hrun₂, Prog.bind_run_of_eq hrun₃,
      Prog.bind_run_of_eq hrun₄, Prog.when_run, if_pos hr]
    exact hrun₅
  · have hL : L s = pre ++ ([c] ++ front) ++ post' := by
      rw [ho.cells, hpost, List.append_assoc, List.append_assoc, List.append_assoc]
    have hext' : extents ([c.cut need] ++ [f]) = extents ([c] ++ front) := by
      rw [extents_append, extents_append, extents_one, extents_one, extents_one, hf]
      change need + (c.size - need + extents front) = _
      omega
    have hassoc : pre ++ [c.cut need] ++ f :: post' = pre ++ ([c.cut need] ++ [f]) ++ post' := by
      rw [List.append_assoc, List.append_assoc, List.append_assoc]
      rfl
    have hX₁ : ∀ x d, At (s.lo + extents pre) ([c] ++ front) x d → d.used = true → X x :=
      fun x d hx hd => by
        have hx' : At (s.lo + extents pre) ([] ++ [c] ++ front) x d := hx
        rwa [at_run (fun _ h' => absurd h' List.not_mem_nil) hfree ho.gap.start hx' hd]
    have hX₂ : ∀ x d, At (s.lo + extents pre) ([c.cut need] ++ [f]) x d → d.used = true → X x :=
      fun x d hx hd => by
        have hx' : At (s.lo + extents pre) ([] ++ [c.cut need] ++ [f]) x d := hx
        rwa [at_run (fun _ h' => absurd h' List.not_mem_nil)
          (fun y hy => by rw [List.mem_singleton.mp hy, hf]; rfl) ho.gap.start hx' hd]
    have hmid : extents ([c.cut need] ++ [Cell.tail P (c.size - need)]) = extents [c] := by
      rw [extents_append, extents_one, extents_one, extents_one]
      change need + (c.size - need) = _
      omega
    rw [hassoc]
    refine ho.plan.spares ho.gap.span hL hext' hwork.kin.spans hX₁ hX₂ fun a ha => ?_
    have hk := ha.transport ho.plan ho.gap.span ho.cells hmid hwork₃.kin.spans fun x d hx _ => by
      rw [← ho.gap.start] at hx
      rwa [(at_one.mp hx).1]
    have hassoc' : pre ++ ([c.cut need] ++ [Cell.tail P (c.size - need)]) ++ post =
        pre ++ [c.cut need] ++ [Cell.tail P (c.size - need)] ++ post := by
      rw [← List.append_assoc pre]
    rw [hassoc'] at hk
    refine ((hspares (· = b + need) rfl).bytes a (hk.mono ?_)).trans (hsame₃ a (.inl (ha.mono ?_)))
    · rintro x rfl
      rw [← ho.gap.start, extents_one]
      omega
    · rintro x rfl
      exact hX
  · -- the payload of the first half is no part of the tail, nor a byte of a free block
    have hcell : h₃.CellIn (Function.update L s
        (pre ++ [c.cut need] ++ [Cell.tail P (c.size - need)] ++ post)) s b (c.cut need) := by
      refine ⟨ho₃.gap.span, ?_⟩
      rw [Function.update_self, List.append_assoc, at_append, at_append, ← ho.gap.start]
      exact .inl (.inr (at_one.mpr ⟨rfl, rfl⟩))
    have hbody : (c.cut need).bodyEnd P = need - P.mirrorSize := by
      rw [Cell.bodyEnd, show (c.cut need).kind = .bare from ho.bare]
      rfl
    have hk : h₃.Kept P (Function.update L s
        (pre ++ [c.cut need] ++ [Cell.tail P (c.size - need)] ++ post)) (· = b + need) a :=
      ⟨s, b, c.cut need, hcell, hused, by omega, h₁, by rw [hbody]; omega⟩
    exact ((hspares (· = b + need) rfl).bytes a hk).trans (hsame₃ a (.inr ⟨h₁, h₂⟩))

end Heap.Open

/-- What the caller may use of a block handed out for `size` bytes. -/
def Cell.grant (P : Profile) (mode : Mode) (c : Cell) (size : Nat) : Nat :=
  if mode = .libc then c.size - P.hdrSize - P.trail else size

def Cell.handed (P : Profile) (mode : Mode) (c : Cell) (size : Nat) : Cell :=
  ⟨c.size, c.size - P.hdrSize - c.grant P mode size, c.crc, .live⟩

/-- The block is large enough for a request, and hardly larger. -/
structure Cell.Suits (P : Profile) (c : Cell) (size : Nat) : Prop where
  le : size + P.hdrSize + P.trail ≤ c.size
  ge : c.size ≤ max size 1 + P.hdrSize + P.slackMax

theorem Cell.Suits.grant (hs : c.Suits P n) (mode : Mode) :
    c.grant P mode n + P.hdrSize + P.trail ≤ c.size ∧ c.size ≤ c.grant P mode n + P.hdrSize + 127 ∧
      n ≤ c.grant P mode n := by
  have hp := P.sizes
  have h₁ := hs.le
  have h₂ := hs.ge
  have hmax : P.slackMax ≤ 126 := by cases P <;> decide
  rw [Cell.grant]
  split <;> omega

theorem Cell.Fits.handed (hf : c.Fits P) (hs : c.Suits P n) (mode : Mode) :
    (c.handed P mode n).Fits P := by
  obtain ⟨h₁, h₂, -⟩ := hs.grant mode
  have hslack : (c.handed P mode n).slack = c.size - P.hdrSize - c.grant P mode n := rfl
  have hsize : (c.handed P mode n).size = c.size := rfl
  exact ⟨hf.dvd, hf.min_le, hf.lt, by omega, fun _ => by omega, fun _ => by omega⟩

theorem Cell.requested_handed (hs : c.Suits P n) (mode : Mode) :
    (c.handed P mode n).requested P = c.grant P mode n := by
  obtain ⟨h₁, h₂, -⟩ := hs.grant mode
  have hslack : (c.handed P mode n).slack = c.size - P.hdrSize - c.grant P mode n := rfl
  have hsize : (c.handed P mode n).size = c.size := rfl
  rw [Cell.requested, hslack, hsize]
  omega

theorem canaryValue_lt {κ : Nat} (hκ : κ < 2 ^ 64) (i : Nat) : canaryValue i κ < 2 ^ 64 := by
  have hp : canaryPattern < 2 ^ 64 := by decide
  exact Nat.xor_lt_two_pow (Nat.xor_lt_two_pow hp hκ) (Nat.mod_lt _ (Nat.two_pow_pos 64))

theorem run_writeCanary (hw : h.Writ P s b u c) (hk : c.kind = .live) (hκ : h.secret < 2 ^ 64) :
    ∃ m', writeCanary P b h = ((), h.withMem m') ∧
      (P.hasCanary = true → m'.load (b + c.size - c.slack) 8 = canaryValue (indexIn s b) h.secret) ∧
      ∀ a, a < b + P.hdrSize + c.requested P ∨
        b + P.hdrSize + c.requested P + P.canarySize ≤ a → m'.byte a = h.mem.byte a := by
  rw [writeCanary, Prog.ite_run]
  by_cases hcan : P.hasCanary = true
  swap
  · rw [if_neg hcan]
    exact ⟨h.mem, rfl, fun h' => absurd h' hcan, fun _ _ => rfl⟩
  have hcs : P.canarySize = 8 := by rw [Profile.canarySize, if_pos hcan]
  have ht : P.trail = P.canarySize + P.mirrorSize := rfl
  have h₁ := hw.fits.trail_le hk
  have h₂ := hw.fits.slack_le hk
  have hreq : c.requested P = c.size - P.hdrSize - c.slack := rfl
  have hat : canaryAt P b h = (b + P.hdrSize + c.requested P, h) := by
    rw [canaryAt, Prog.bind_run_of_eq (hw.run_requestedSize hk)]
    rfl
  rw [if_pos hcan, Prog.bind_run_of_eq hw.run_blockIndex, Prog.bind_run, Prog.read_run,
    Prog.bind_run_of_eq hat, run_store64 (hw.covers.sub (by omega) (by omega))]
  refine ⟨_, rfl, fun _ => ?_, fun a ha => Memory.byte_store_of_notMem (by omega)⟩
  rw [show b + c.size - c.slack = b + P.hdrSize + c.requested P by omega, Memory.load_store_self]
  exact Nat.mod_eq_of_lt (canaryValue_lt hκ _)

theorem Heap.Clear.run_settle (hc : h.Clear P L s pre b c u post)
    (hw : h.Writ P s b (lastUsed true pre) d) (hsize : d.size = c.size)
    (hcrc : P.hasCrc = true → h.mem.load (b + 12) 4 = d.crc)
    (hcan : P.hasCanary = true → d.kind = .live →
      h.mem.load (b + d.size - d.slack) 8 = canaryValue (indexIn s b) h.secret)
    (hused : d.used = true) :
    ∃ m', publish P b h = (true, h.withMem m') ∧
      (h.withMem m').Sound P (Function.update L s (pre ++ [d] ++ post)) ∧
      (∀ X : Nat → Prop, X b →
        h.Spares P X L (h.withMem m') (Function.update L s (pre ++ [d] ++ post))) ∧
      ∀ a, ¬ PublishBytes P b d post a → m'.byte a = h.mem.byte a := by
  obtain ⟨m', hrun, ht, hF, hsame⟩ := hc.run_publish hw hsize hcrc hcan (.inr hused) (.inl hused)
  have hone : extents [d] = extents [c] := extents_one_eq hsize
  refine ⟨m', hrun, ⟨ht, ?_, ?_, hc.narrow⟩, fun X hX => ?_, hsame⟩
  · refine hF.of_iff fun x k => ?_
    change h.FreeAt L x k ↔ h.FreeAt _ x k
    rw [hc.freeAt_update ((extents_one d).trans hsize)]
    refine ⟨.inl, fun hx => hx.resolve_right ?_⟩
    rintro ⟨e, he, hk, -⟩
    obtain ⟨-, rfl⟩ := at_one.mp he
    exact absurd hk (Cell.used_iff.mp hused)
  · refine (hc.cursor.update hc.cells hone fun e he => ?_).congr rfl rfl rfl
    exact ⟨d, .inl ⟨(at_one.mp he).1, rfl⟩⟩
  · exact hc.plan.spares_recell hc.gap.span hc.cells hc.gap.start hsize rfl hX fun a ha =>
      hsame a (hc.kept_not_publish hsize hw.fits hX ha)

theorem Heap.Loose.run_finishAllocation (ho : h.Loose P L s pre b c u post) (hs : c.Suits P n) :
    ∃ h', finishAllocation P b n h = (true, h') ∧ h.Work h' ∧
      h'.Sound P (Function.update L s (pre ++ [c.handed P h.mode n] ++ post)) ∧
      (∀ X : Nat → Prop, X b →
        h.Spares P X L h' (Function.update L s (pre ++ [c.handed P h.mode n] ++ post))) ∧
      ∀ a, b + P.hdrSize ≤ a → a < b + P.hdrSize + c.grant P h.mode n →
        h'.mem.byte a = h.mem.byte a := by
  have hp := P.sizes
  have hw := ho.writ
  have hmin := hw.fits.min_le
  have hlt := hw.fits.lt
  have htr : P.trail = P.canarySize + P.mirrorSize := rfl
  obtain ⟨hg₁, hg₂, -⟩ := hs.grant h.mode
  have hfit := hw.fits.handed hs h.mode
  have hreq := Cell.requested_handed hs h.mode
  obtain ⟨d, hd⟩ : ∃ d, d = c.handed P h.mode n := ⟨_, rfl⟩
  have hsize : d.size = c.size := by rw [hd]; rfl
  have hslack : d.slack = c.size - P.hdrSize - c.grant P h.mode n := by rw [hd]; rfl
  have hcrc : d.crc = c.crc := by rw [hd]; rfl
  have hkind : d.kind = .live := by rw [hd]; rfl
  have hused : d.used = true := Cell.used_of_ne (by rw [hkind]; decide)
  have hq : d.quarantined = false := by rw [Cell.quarantined, hkind]; rfl
  rw [← hd] at hfit hreq ⊢
  have hsub : usub c.size P.hdrSize = c.size - P.hdrSize := usub_of_le (by omega) (by omega)
  have hgive : (if h.mode = .libc then usub (usub c.size P.hdrSize) P.trail else n) =
      c.grant P h.mode n := by
    rw [hsub, usub_of_le (by omega) (by omega), Cell.grant]
  have hset : setWord b c.size (usub (usub c.size P.hdrSize) (c.grant P h.mode n)) true false h =
      ((), h.withMem (h.mem.store b 8 (d.word (lastUsed true pre)))) := by
    have hrun := run_setWord_cell hw.covers8 hw.prevInUse_eq hfit
    rw [hsize, hslack, hused, hq] at hrun
    rw [hsub, usub_of_le (by omega) (by omega)]
    exact hrun
  obtain ⟨m₁, hm₁⟩ : ∃ m₁, m₁ = h.mem.store b 8 (d.word (lastUsed true pre)) := ⟨_, rfl⟩
  rw [← hm₁] at hset
  have hsame₁ : ∀ a, a < b ∨ b + 8 ≤ a → m₁.byte a = h.mem.byte a := fun a ha => by
    rw [hm₁]
    exact Memory.byte_store_of_notMem (by omega)
  have hroom : (h.withMem m₁).Room s b d.size := hsize ▸ hw.room.withMem m₁
  have hw₁ : (h.withMem m₁).Writ P s b (lastUsed true pre) d := by
    refine ⟨hroom, hfit, ?_⟩
    rw [Heap.withMem_mem, hm₁, load_word hfit]
  obtain ⟨m₂, hrun₂, hcan, hsame₂⟩ := run_writeCanary hw₁ hkind ho.gap.secret_lt
  have hhead₂ : ∀ a, b ≤ a → a < b + P.hdrSize → m₂.byte a = m₁.byte a := fun a _ _ =>
    hsame₂ a (by omega)
  have hw₂ : (h.withMem m₂).Writ P s b (lastUsed true pre) d := by
    refine ⟨hw₁.room.withMem m₂, hfit, ?_⟩
    exact (Memory.load_congr fun x _ _ => hhead₂ x (by omega) (by omega)).trans hw₁.word
  have hcrc₂ : P.hasCrc = true → (h.withMem m₂).mem.load (b + 12) 4 = d.crc := fun hc => by
    have h16 := Profile.hdrSize_of_crc hc
    refine Eq.trans (Memory.load_congr fun x _ _ => ?_) ((ho.crc hc).trans hcrc.symm)
    exact (hhead₂ x (by omega) (by omega)).trans (hsame₁ x (by omega))
  have hin₂ : ∀ a, a < b ∨ b + c.size ≤ a → m₂.byte a = h.mem.byte a := fun a ha =>
    (hsame₂ a (by omega)).trans (hsame₁ a (by omega))
  obtain ⟨m₃, hrun₃, hsound₃, hspares₃, hsame₃⟩ := (ho.toClear.inside hin₂).run_settle hw₂ hsize hcrc₂
    (fun hc _ => hcan hc) hused
  have hrun : finishAllocation P b n h = (true, (h.withMem m₂).withMem m₃) := by
    rw [finishAllocation, Prog.bind_run_of_eq hw.run_blockSize, Prog.bind_run, Prog.read_run, hgive,
      Prog.bind_run_of_eq hset, Prog.bind_run_of_eq hrun₂]
    exact hrun₃
  refine ⟨_, hrun, ⟨rfl⟩, hsound₃, fun X hX =>
    (ho.toClear.spares_inside (h.kin_withMem m₂).spans hin₂ hX).trans (hspares₃ X hX), fun a h₁ h₂ => ?_⟩
  · refine (hsame₃ a fun hpub => ?_).trans ((hsame₂ a (by omega)).trans (hsame₁ a (by omega)))
    rcases hpub with hedge | ⟨e, he, hedge⟩
    · rw [EdgeBytes, Cell.tailStart, if_pos hused] at hedge
      omega
    · have hpost : ∃ rest, post = e :: rest := by
        cases hpost : post with
        | nil =>
          rw [hpost] at he
          exact absurd he (Option.not_mem_none e)
        | cons e' rest =>
          rw [hpost] at he
          exact ⟨rest, by rw [Option.mem_some.mp he]⟩
      obtain ⟨rest, hpost⟩ := hpost
      have := hedge.bounds (ho.next hpost).2.fits
      omega

end Mars
