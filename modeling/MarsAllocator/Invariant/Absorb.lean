import MarsAllocator.Invariant.Coalesce

namespace Mars

open ByteMemory StateProgram

variable {P : Profile} {h h' h₁ : Heap} {s s' : Span} {a b b' e n x y : Nat} {u u' : Bool}
  {c c' d : Cell} {L L' : Span → List Cell} {pre pre' mid mid' post post' front : List Cell}
  {back : List Cell} {p : Nat} {X : Nat → Prop}

def Heap.forgot (h : Heap) (lo hi : Nat) : Heap := { h with
  scrubAt := if lo < h.scrubAt ∧ h.scrubAt < hi then lo else h.scrubAt }

theorem Heap.Filed.forgot {M : Nat → Nat → Prop} (hF : h.Filed P M) (lo hi : Nat) :
    (h.forgot lo hi).Filed P M :=
  hF.frame rfl rfl rfl (fun b n hb => (hF.node b n hb).congr ⟨rfl, rfl, rfl⟩
    fun _ _ _ => rfl) fun _ _ => rfl

theorem Heap.Gap.bared (hp : h.Plan P L) (hg : h.Gap P True L s pre b e u post)
    (hL : L s = pre ++ mid ++ post) (he : e = b + extents mid) (hsize : c.size = extents mid)
    (hbare : c.kind = .bare) (hfit : c.Fits P) {M : Nat → Nat → Prop} (hF : h.Filed P M)
    (hM : ∀ x k, M x k ↔ h.FreeAt L x k ∧ x ≠ n)
    (hone : ∀ x d, At b mid x d → d.kind = .free → x = n) (hn : b ≤ n ∧ n < e)
    (hcur : h.Cursor (Function.update L s (pre ++ [c] ++ post))) (hnar : h.Narrow) :
    h.Clear P (Function.update L s (pre ++ [c] ++ post)) s pre b c u post := by
  have hext : extents [c] = extents mid := (extents_one c).trans hsize
  refine ⟨Function.update_self .., ?_, ?_, hbare, ?_, hcur, hnar⟩
  · exact hp.update hg.span hL hext fun d hd => List.mem_singleton.mp hd ▸ hfit
  · rw [hsize, ← he]
    exact hg.update _
  · refine hF.of_iff fun x k => ?_
    rw [hp.freeAt_update hg.span hL hext, ← hg.start, ← he, hM]
    constructor
    · rintro ⟨hx, hxn⟩
      refine .inl ⟨hx, fun hin => hxn ?_⟩
      obtain ⟨s', d, hd, hkd, -⟩ := hx
      have := hp.at_of_mem hg.span hL hd (by rw [← hg.start]; exact hin.1)
        (by rw [← hg.start, ← he]; exact hin.2)
      exact hone x d (hg.start ▸ this.2) hkd
    · rintro (⟨hx, hout⟩ | ⟨d, hd, hkd, -⟩)
      · refine ⟨hx, ?_⟩
        rintro rfl
        exact hout hn
      · obtain ⟨-, rfl⟩ := at_one.mp hd
        exact absurd (hbare.symm.trans hkd) (by decide)

theorem Heap.Gap.merged (hp : h.Plan P L) (hg : h.Gap P True L s pre b e u post)
    (hL : L s = pre ++ mid ++ post) (he : e = b + extents mid) (hsize : c.size = extents mid)
    (hbare : c.kind = .bare) (hfit : c.Fits P) {M : Nat → Nat → Prop} (hF : h.Filed P M)
    (hM : ∀ x k, M x k ↔ h.FreeAt L x k ∧ x ≠ n)
    (hone : ∀ x d, At b mid x d → d.kind = .free → x = n) (hn : b ≤ n ∧ n < e)
    (hcur : h.Cursor L) (hnar : h.Narrow) :
    (h.forgot b e).Clear P (Function.update L s (pre ++ [c] ++ post)) s pre b c u post := by
  have hk : h.Kin (h.forgot b e) := ⟨rfl, rfl, rfl⟩
  refine Heap.Gap.bared (hp.kin hk) (hg.kin hk fun _ _ => rfl) hL he hsize hbare hfit (hF.forgot b e)
    hM hone hn ?_ hnar
  have hf := hcur.forget hp hg.span hL hg.start he hsize
  rwa [run_scrubForget] at hf

def Cell.grown (c : Cell) (n : Nat) : Cell := { c with size := c.size + n }

theorem Cell.Fits.grown (hf : c.Fits P) (hk : c.kind = .bare) (hd : n % 16 = 0)
    (hlt : c.size + n < 2 ^ 58) : (c.grown n).Fits P := by
  have h₁ := hf.dvd
  have h₂ := hf.min_le
  have hne : ¬ (c.grown n).kind = .live := fun h' => absurd (hk.symm.trans h') (by decide)
  exact ⟨(by omega : (c.size + n) % 16 = 0), Nat.le_trans h₂ (Nat.le_add_right _ _), hlt, hf.slack_lt,
    fun h' => absurd h' hne, fun h' => absurd h' hne⟩

theorem at_run (hb : ∀ x ∈ back, x.kind = .free) (hf : ∀ x ∈ front, x.kind = .free) (hr : b = p + extents back)
    (hx : At p (back ++ [c] ++ front) x d) (hd : d.used = true) : x = b := by
  have hne : ∀ cs : List Cell, (∀ y ∈ cs, y.kind = .free) → ∀ q, ¬ At q cs x d := fun cs hcs q hq =>
    absurd (hcs d hq.mem) (Cell.used_iff.mp hd)
  rcases at_append.mp hx with hx | hx
  · rcases at_append.mp hx with hx | hx
    · exact absurd hx (hne back hb _)
    · exact (at_one.mp hx).1.trans hr.symm
  · exact absurd hx (hne front hf _)

namespace Heap.Clear

variable (ho : h.Clear P L s pre b c u post)
include ho

theorem next (hpost : post = d :: post') : CellAt P h.secret True s h.mem (b + c.size) u d ∧
    h.Holds P s (b + c.size) u d := by
  have hafter := ho.gap.after
  rw [hpost] at hafter
  have hcell := hafter.laid.1
  exact ⟨hcell, hcell.holds (ho.plan.room (ho.head_mem hpost)) hafter.laid.2.1⟩

theorem post_nil (hpost : post = []) : b + c.size = s.hi := by
  have hends := ho.gap.after.ends
  rw [hpost, extents_nil] at hends
  omega

theorem next_lt (hpost : post = d :: post') : b + c.size < s.hi := by
  have hends := ho.gap.after.ends
  have := (ho.next hpost).2.fits.pos
  rw [hpost, extents_cons] at hends
  omega

end Heap.Clear

namespace Heap.Open

variable (ho : h.Open P L s pre b c u post)
include ho

theorem update_self : Function.update L s (pre ++ [c] ++ post) = L := by
  rw [← ho.cells, Function.update_eq_self]

theorem run_mergeNext (hpost : post = d :: post') (hk : d.kind = .free) :
    ∃ h₁ h₂ h₃ h', binRemove P (b + c.size) h = ((), h₁) ∧
      unchanged P b c.size true h₁ = (true, h₁) ∧
      unchanged P (b + c.size) d.size false h₁ = (true, h₁) ∧
      setBlockSize b (c.size + d.size) h₁ = ((), h₂) ∧
      blockEnd b h₂ = (b + c.size + d.size, h₂) ∧
      scrubForget b (b + c.size + d.size) h₂ = ((), h₃) ∧
      sealHeader P b h₃ = ((), h') ∧ h.Work h' ∧
      h'.Open P (Function.update L s (pre ++ [c.grown d.size] ++ post')) s pre b (c.grown d.size)
        false post' ∧
      ∀ a, h.Kept P L (· = b) a ∨ b + P.hdrSize ≤ a ∧ a < b + c.size →
        h'.mem.byte a = h.mem.byte a := by
  have hp := P.sizes
  have hw := ho.writ
  obtain ⟨hcell, hd⟩ := ho.next hpost
  have hdu : d.used = false := Cell.not_used_iff.mpr hk
  have hfree : h.FreeAt L (b + c.size) d.size := ⟨s, d, ho.toClear.head_mem hpost, hk, rfl⟩
  have hr := (ho.filed.unlinked_spec hfree).1
  have hF₁ := ho.filed.unlinked hfree
  have hrun₁ := ho.filed.run_binRemove hfree
  generalize h.unlinked P (b + c.size) (binOf P d.size) = h₁ at hr hF₁ hrun₁
  have hkin₁ := hr.kin
  have hgap₁ := ho.gap.rebinned ho.plan ho.cells (by rw [extents_one]) (fun _ _ h' => h') hr
  rw [hpost] at hgap₁
  -- both headers are as they were
  have hhead₁ : HeadAt P h₁.secret s h₁.mem b (lastUsed true pre) c := by
    rw [hkin₁.secret]
    refine ho.head.congr fun a h₁ h₂ => hr.same a fun hl => ?_
    have := ho.toClear.link_outside hl
    have := hw.fits.min_le
    omega
  have hw₁ : h₁.Holds P s b (lastUsed true pre) c :=
    ⟨⟨hw.room.kin hkin₁, hw.fits, hhead₁.word⟩, hhead₁⟩
  have hd₁ : h₁.Holds P s (b + c.size) u d :=
    hgap₁.after.laid.1.holds (hd.room.kin hkin₁) hd.fits
  have hun : unchanged P b c.size true h₁ = (true, h₁) := by
    have := hw₁.run_unchanged_self
    rwa [Cell.used_of_bare ho.bare] at this
  have hun' : unchanged P (b + c.size) d.size false h₁ = (true, h₁) := by
    have := hd₁.run_unchanged_self
    rwa [hdu] at this
  obtain ⟨c', hc'⟩ : ∃ c', c' = c.grown d.size := ⟨_, rfl⟩
  have hsize : c'.size = c.size + d.size := by rw [hc', Cell.grown]
  have hbare : c'.kind = .bare := by rw [hc']; exact ho.bare
  have hends := hgap₁.take.end_le
  have hfit : c'.Fits P := by
    rw [hc']
    refine hw.fits.grown ho.bare hd.fits.dvd ?_
    have := ho.narrow s ho.gap.span
    have := hw.room.lo_le
    omega
  rw [← hc']
  have hL : L s = pre ++ [c, d] ++ post' := by
    rw [ho.cells, hpost, List.append_assoc, List.append_assoc]
    rfl
  have hext : extents [c, d] = c.size + d.size := by rw [extents_cons, extents_one]
  have hcur : h₁.Cursor L := ho.cursor.congr hkin₁.spans (by rw [hr.eq]) (by rw [hr.eq])
  have hclear := hgap₁.take.merged (ho.plan.kin hkin₁) hL (by rw [hext, Nat.add_assoc])
    (hsize.trans hext.symm) hbare hfit hF₁ (n := b + c.size)
    (fun x k => by rw [freeAt_kin hkin₁.spans]; exact Iff.rfl)
    (fun x e hx hke => ?_) (by have := hd.fits.pos; omega) hcur
    (ho.narrow.of_spans hkin₁.spans)
  swap
  · rcases hx with ⟨-, rfl⟩ | ⟨hx, -⟩ | hx
    · exact absurd (ho.bare.symm.trans hke) (by decide)
    · exact hx
    · exact hx.elim
  rw [hdu] at hclear
  have hset : setBlockSize b (c.size + d.size) h₁ =
      ((), h₁.withMem (h₁.mem.store b 8 (c'.word (lastUsed true pre)))) := by
    have hlt58 := hfit.lt
    rw [hsize] at hlt58
    have hword : wordSetSize (c.word (lastUsed true pre)) (c.size + d.size) =
        c'.word (lastUsed true pre) := by
      rw [hc']
      exact wordSetSize_mkWord hlt58 hw.fits.slack_lt
    rw [run_setBlockSize hw₁.covers8, hw₁.word_eq, hword]
  obtain ⟨m₂, hm₂⟩ : ∃ m₂, m₂ = h₁.mem.store b 8 (c'.word (lastUsed true pre)) := ⟨_, rfl⟩
  rw [← hm₂] at hset
  have hsame₂ : ∀ a, a < b ∨ b + P.hdrSize ≤ a → m₂.byte a = h₁.mem.byte a := fun a ha => by
    rw [hm₂]
    exact Memory.byte_store_of_notMem (by omega)
  have hroom₂ : ((h₁.forgot b (b + c.size + d.size)).withMem m₂).Room s b c'.size :=
    hclear.room.withMem m₂
  have hw₂ : ((h₁.forgot b (b + c.size + d.size)).withMem m₂).Writ P s b (lastUsed true pre) c' := by
    refine ⟨hroom₂, hfit, ?_⟩
    rw [Heap.withMem_mem, hm₂, load_word hfit]
  have hw₂' : (h₁.withMem m₂).Writ P s b (lastUsed true pre) c' :=
    ⟨hw₂.room.kin ⟨rfl, rfl, rfl⟩, hfit, hw₂.word⟩
  have hend : blockEnd b (h₁.withMem m₂) = (b + c.size + d.size, h₁.withMem m₂) := by
    rw [hw₂'.run_blockEnd, hsize, Nat.add_assoc]
  obtain ⟨m₃, hrun₃, hs₃⟩ := run_sealHeader hw₂ fun hcrc => by
    have h16 := Profile.hdrSize_of_crc hcrc
    have hcc : c'.crc = c.crc := by rw [hc', Cell.grown]
    rw [Heap.withMem_mem, hm₂, Memory.load_store_of_disjoint (by omega), hcc]
    exact hhead₁.crc hcrc
  have hsame₃ : ∀ a, a < b ∨ b + P.hdrSize ≤ a → a < b + c.size ∨ b + c'.size ≤ a →
      m₃.byte a = h₁.mem.byte a := fun a h₁ h₂ => by
    refine (hs₃.same a h₁ (.inr ?_)).trans (hsame₂ a h₁)
    have := hd.fits.min_le
    omega
  have hmin := hfit.min_le
  have hclear₃ := hclear.inside (m := m₃) fun a ha => hsame₃ a (by omega) (by omega)
  refine ⟨h₁, _, _, _, hrun₁, hun, hun', hset, hend, run_scrubForget _ _ _, hrun₃, ?_,
    ⟨hclear₃, hs₃.head⟩, fun a ha => ?_⟩
  · exact (hr.work.trans ⟨rfl⟩ : h.Work (h₁.forgot b (b + c.size + d.size))).trans
      (Heap.work_withMem _ _)
  · have hout : ¬ LinkBytes P (h.FreeAt L) a ∧ (a < b ∨ b + P.hdrSize ≤ a) ∧
        (a < b + c.size ∨ b + c'.size ≤ a) := by
      rcases ha with ha | ha
      · have h₁ := ho.toClear.kept_outside ha rfl
        have h₂ := ha.outside ho.plan (ho.toClear.head_mem hpost) fun hu =>
          absurd hk (Cell.used_iff.mp hu)
        exact ⟨ha.not_link ho.plan fun _ _ h' => h', by omega, by omega⟩
      · refine ⟨fun hl => ?_, by omega, by omega⟩
        have := ho.toClear.link_outside hl
        omega
    exact (hsame₃ a hout.2.1 hout.2.2).trans (hr.same a hout.1)

theorem run_absorbNext :
    ∃ h' c' u' front post', post = front ++ post' ∧ (∀ x ∈ front, x.kind = .free) ∧
      c'.size = c.size + extents front ∧
      absorbNext P s b c.size h = (some c'.size, h') ∧ h.Work h' ∧
      h'.Open P (Function.update L s (pre ++ [c'] ++ post')) s pre b c' u' post' ∧
      (∀ x ∈ post'.head?, x.used = true) ∧
      ∀ a, h.Kept P L (· = b) a ∨ b + P.hdrSize ≤ a ∧ a < b + c.size →
        h'.mem.byte a = h.mem.byte a := by
  have hw := ho.writ
  have hstay : h.Open P (Function.update L s (pre ++ [c] ++ post)) s pre b c u post := by
    rw [ho.update_self]
    exact ho
  rw [absorbNext, Prog.bind_run_of_eq hw.run_blockEnd, Prog.ite_run]
  rcases hpost : post with _ | ⟨d, post'⟩
  · have hend := ho.post_nil hpost
    rw [hpost] at hstay
    rw [if_pos (by omega)]
    exact ⟨h, c, u, [], [], rfl, fun _ hx => absurd hx List.not_mem_nil, rfl, rfl, h.work_refl,
      hstay, fun _ hx => absurd hx nofun, fun _ _ => rfl⟩
  have hlt := ho.next_lt hpost
  obtain ⟨hcell, hd⟩ := ho.next hpost
  have hmerge : Prog.and (headerOk P (b + c.size)) (do
      let used ← isUsed (b + c.size)
      return !used) h = (!d.used, h) := by
    rw [Prog.and_run, hd.run_headerOk, if_pos rfl, Prog.bind_run_of_eq hd.run_isUsed]
    rfl
  rw [if_neg (by omega), Prog.bind_run_of_eq hmerge, Prog.ite_run]
  cases hdu : d.used with
  | true =>
    rw [hpost] at hstay
    exact ⟨h, c, u, [], d :: post', rfl, fun _ hx => absurd hx List.not_mem_nil, rfl, rfl,
      h.work_refl, hstay, fun x hx => Option.mem_some.mp hx ▸ hdu, fun _ _ => rfl⟩
  | false =>
    have hk := Cell.not_used_iff.mp hdu
    obtain ⟨h₁, h₂, h₃, h', hrun₁, hun, hun', hset, hend, hforget, hseal, hwork, hopen, hsame⟩ :=
      ho.run_mergeNext hpost hk
    refine ⟨h', c.grown d.size, false, [d], post', rfl,
      fun x hx => List.mem_singleton.mp hx ▸ hk, by rw [extents_one]; rfl, ?_, hwork, hopen,
      fun x hx => ?_, hsame⟩
    · rw [if_neg (by decide), Prog.bind_run_of_eq hd.run_blockSize, Prog.bind_run_of_eq hrun₁,
        Prog.bind_run_of_eq hun, if_pos rfl, Prog.bind_run_of_eq hun', if_pos rfl,
        Prog.bind_run_of_eq hset, Prog.bind_run_of_eq hend, Prog.bind_run_of_eq hforget,
        Prog.bind_run_of_eq hseal]
      rfl
    · -- two free blocks are never neighbours
      have hside := ho.gap.after.laid
      rw [hpost] at hside
      cases post' with
      | nil => exact absurd hx nofun
      | cons e rest =>
        rw [← Option.mem_some.mp hx]
        exact hside.2.2.2.2.2.1.resolve_left (by rw [hdu]; decide)

theorem prev (hu : lastUsed true pre = false) : ∃ pre' d, pre = pre' ++ [d] ∧ d.kind = .free ∧
    lastUsed true pre' = true ∧ b = s.lo + extents pre' + d.size ∧
    CellAt P h.secret True s h.mem (b - d.size) (lastUsed true pre') d ∧
    h.Holds P s (b - d.size) (lastUsed true pre') d ∧ h.CellIn L s (b - d.size) d := by
  rcases List.eq_nil_or_concat pre with rfl | ⟨pre', d, rfl⟩
  · exact absurd hu (by decide)
  rw [List.concat_eq_append] at *
  have hstart := ho.gap.start
  rw [extents_append, extents_one] at hstart
  have hdu : d.used = false := by rwa [lastUsed_append] at hu
  obtain ⟨hlaid, hcell, hfit, hside, -⟩ := laid_append.mp ho.gap.before
  have hb : b - d.size = s.lo + extents pre' := by omega
  have hin : h.CellIn L s (b - d.size) d := by
    refine ⟨ho.gap.span, ?_⟩
    rw [ho.cells, at_append, at_append, at_append, hb]
    exact .inl (.inl (.inr (.inl ⟨rfl, rfl⟩)))
  rw [← hb] at hcell
  exact ⟨pre', d, rfl, Cell.not_used_iff.mp hdu, hside.resolve_right (by rw [hdu]; decide), by omega,
    hcell, hcell.holds (ho.plan.room hin) hfit, hin⟩

theorem run_prevFreeBlock (hu : lastUsed true pre = false) (hd : h.Holds P s (b - n) u' d)
    (hb : n ≤ b) (hn : d.size = n) (hk : d.kind = .free)
    (htag : h.mem.load (b - n + n - 8) 8 = n) : prevFreeBlock P b h = (b - n, h) := by
  have hp := P.sizes
  have hw := ho.writ
  have hroom := hd.room
  have hlo := hroom.lo_le
  have hmin := hd.fits.min_le
  have hdvd := hd.fits.dvd
  have hend := hw.room.end_le
  rw [hn] at hmin hdvd
  have htag' : readPrevFooter b h = (n, h) := by
    rw [readPrevFooter, run_load64 ⟨s, hw.room.span, by omega, by omega⟩, ← htag]
    congr 1
    rw [show b - n + n - 8 = b - 8 by omega]
  have hok : Prog.and (headerOk P (b - n)) (do
      let size ← blockSize (b - n)
      let used ← isUsed (b - n)
      return size == n && !used) h = (true, h) := by
    rw [Prog.and_run, hd.run_headerOk, if_pos rfl, Prog.bind_run_of_eq hd.run_blockSize,
      Prog.bind_run_of_eq hd.run_isUsed, hn, Cell.not_used_iff.mpr hk, beq_self_eq_true]
    rfl
  have hbad : ¬ (n < P.minBlock ∨ n % alignment ≠ 0 ∨ b - s.lo < n) := by
    rw [alignment]
    omega
  rw [prevFreeBlock, Prog.bind_run_of_eq hw.run_prevInUse, hu, if_neg Bool.false_ne_true, withSpanOf,
    Prog.bind_run, Prog.read_run, hw.spanOf, Prog.elim_some, Prog.ite_run, if_neg (by omega),
    Prog.bind_run_of_eq htag', if_neg hbad, Prog.bind_run_of_eq hok]
  rfl

theorem run_absorbPrev :
    ∃ h' r c' pre' back, pre = pre' ++ back ∧ (∀ x ∈ back, x.kind = .free) ∧
      c'.size = extents back + c.size ∧ r ≠ 0 ∧
      absorbPrev P b c.size h = (r, h') ∧ h.Work h' ∧
      h'.Open P (Function.update L s (pre' ++ [c'] ++ post)) s pre' r c' u post ∧
      lastUsed true pre' = true ∧
      ∀ a, h.Kept P L (· = b) a → h'.mem.byte a = h.mem.byte a := by
  have hp := P.sizes
  have hw := ho.writ
  have hlo := hw.room.lo_pos
  have hlob := hw.room.lo_le
  cases hu : lastUsed true pre with
  | true =>
    have hnone : prevFreeBlock P b h = (0, h) := by
      rw [prevFreeBlock, Prog.bind_run_of_eq hw.run_prevInUse, hu, if_pos rfl]
      rfl
    refine ⟨h, b, c, pre, [], (List.append_nil pre).symm, fun _ hx => absurd hx List.not_mem_nil,
      (Nat.zero_add _).symm, by omega, ?_, h.work_refl, by rw [ho.update_self]; exact ho, hu,
      fun _ _ => rfl⟩
    rw [absorbPrev, Prog.bind_run_of_eq hnone, if_pos rfl]
    rfl
  | false =>
    obtain ⟨pre', d, hpre, hk, hleft, hb, hcell, hd, hmem⟩ := ho.prev hu
    have hdu : d.used = false := Cell.not_used_iff.mpr hk
    have hroom := hd.room
    have hdlo := hroom.lo_le
    have hdpos := hd.fits.pos
    have hprev := ho.run_prevFreeBlock hu hd (by omega) rfl hk (hcell.tag hk)
    have hfree : h.FreeAt L (b - d.size) d.size := ⟨s, d, hmem, hk, rfl⟩
    have hr := (ho.filed.unlinked_spec hfree).1
    have hF₁ := ho.filed.unlinked hfree
    have hrun₁ := ho.filed.run_binRemove hfree
    generalize h.unlinked P (b - d.size) (binOf P d.size) = h₁ at hr hF₁ hrun₁
    have hkin₁ := hr.kin
    have hgap₁ := ho.gap.rebinned ho.plan ho.cells (by rw [extents_one]) (fun _ _ h' => h') hr
    have hhead₁ : HeadAt P h₁.secret s h₁.mem b (lastUsed true pre) c := by
      rw [hkin₁.secret]
      refine ho.head.congr fun a h₁ h₂ => hr.same a fun hl => ?_
      have := ho.toClear.link_outside hl
      have := hw.fits.min_le
      omega
    have hw₁ : h₁.Holds P s b (lastUsed true pre) c :=
      ⟨⟨hw.room.kin hkin₁, hw.fits, hhead₁.word⟩, hhead₁⟩
    have hd₁ : h₁.Holds P s (b - d.size) (lastUsed true pre') d := by
      rw [hpre] at hgap₁
      have hc₁ := (laid_append.mp hgap₁.before).2.1
      rw [show s.lo + extents pre' = b - d.size by omega] at hc₁
      exact hc₁.holds (hd.room.kin hkin₁) hd.fits
    have hun : unchanged P b c.size true h₁ = (true, h₁) := by
      have := hw₁.run_unchanged_self
      rwa [Cell.used_of_bare ho.bare] at this
    have hun' : unchanged P (b - d.size) d.size false h₁ = (true, h₁) := by
      have := hd₁.run_unchanged_self
      rwa [hdu] at this
    obtain ⟨c', hc'⟩ : ∃ c' : Cell, c' = ⟨d.size + c.size, P.trail, d.crc, .bare⟩ := ⟨_, rfl⟩
    have hsize : c'.size = d.size + c.size := by rw [hc']
    have hbare : c'.kind = .bare := by rw [hc']
    have hslack : c'.slack = P.trail := by rw [hc']
    have hused : c'.used = true := Cell.used_of_bare hbare
    have hq : c'.quarantined = false := by rw [hc']; rfl
    have hends := ho.gap.end_le
    have hfit : c'.Fits P := by
      have h₁ := hw.fits
      have h₂ := hd.fits
      have := h₁.dvd
      have := h₂.dvd
      have := h₂.min_le
      have := ho.narrow s ho.gap.span
      have hne : ¬ c'.kind = .live := fun h' => absurd (hbare.symm.trans h') (by decide)
      exact ⟨by omega, by omega, by omega, by omega, fun h' => absurd h' hne,
        fun h' => absurd h' hne⟩
    have hL : L s = pre' ++ [d, c] ++ post := by
      rw [ho.cells, hpre, List.append_assoc pre']
      rfl
    have hext : extents [d, c] = d.size + c.size := by rw [extents_cons, extents_one]
    have hcur : h₁.Cursor L := ho.cursor.congr hkin₁.spans (by rw [hr.eq]) (by rw [hr.eq])
    rw [hpre] at hgap₁
    have hclear := hgap₁.takeBefore.merged (ho.plan.kin hkin₁) hL (by omega)
      (hsize.trans hext.symm) hbare hfit hF₁ (n := b - d.size)
      (fun x k => by rw [freeAt_kin hkin₁.spans]; exact Iff.rfl)
      (fun x e hx hke => ?_) (by have := hw.fits.pos; omega) hcur
      (ho.narrow.of_spans hkin₁.spans)
    swap
    · rcases hx with ⟨hx, -⟩ | ⟨-, rfl⟩ | hx
      · exact hx
      · exact absurd (ho.bare.symm.trans hke) (by decide)
      · exact hx.elim
    have hset : setWord (b - d.size) (d.size + c.size) P.trail true false h₁ =
        ((), h₁.withMem (h₁.mem.store (b - d.size) 8 (c'.word true))) := by
      have hrun := run_setWord_cell hd₁.covers8 hd₁.prevInUse_eq hfit
      rw [hleft, hsize, hslack, hused, hq] at hrun
      exact hrun
    obtain ⟨m₂, hm₂⟩ : ∃ m₂, m₂ = h₁.mem.store (b - d.size) 8 (c'.word true) := ⟨_, rfl⟩
    rw [← hm₂] at hset
    have hsame₂ : ∀ a, a < b - d.size ∨ b - d.size + P.hdrSize ≤ a → m₂.byte a = h₁.mem.byte a :=
      fun a ha => by
        rw [hm₂]
        exact Memory.byte_store_of_notMem (by omega)
    have hroom₂ : ((h₁.forgot (b - d.size) (b + c.size)).withMem m₂).Room s (b - d.size) c'.size :=
      hclear.room.withMem m₂
    have hw₂ : ((h₁.forgot (b - d.size) (b + c.size)).withMem m₂).Writ P s (b - d.size) true c' := by
      refine ⟨hroom₂, hfit, ?_⟩
      rw [Heap.withMem_mem, hm₂, load_word hfit]
    have hw₂' : (h₁.withMem m₂).Writ P s (b - d.size) true c' :=
      ⟨hw₂.room.kin ⟨rfl, rfl, rfl⟩, hfit, hw₂.word⟩
    have hend : blockEnd (b - d.size) (h₁.withMem m₂) = (b + c.size, h₁.withMem m₂) := by
      rw [hw₂'.run_blockEnd, hsize, show b - d.size + (d.size + c.size) = b + c.size by omega]
    obtain ⟨m₃, hrun₃, hs₃⟩ := run_sealHeader hw₂ fun hcrc => by
      have h16 := Profile.hdrSize_of_crc hcrc
      have hcc : c'.crc = d.crc := by rw [hc']
      rw [Heap.withMem_mem, hm₂, Memory.load_store_of_disjoint (by omega), hcc]
      exact hd₁.head.crc hcrc
    have hsame₃ : ∀ a, a < b - d.size ∨ b + c.size ≤ a → m₃.byte a = h₁.mem.byte a := fun a ha =>
      (hs₃.same a (by have := hd.fits.min_le; omega) (.inr (by have := hfit.min_le; omega))).trans
        (hsame₂ a (by have := hd.fits.min_le; omega))
    have hclear₃ := hclear.inside (m := m₃) fun a ha => hsame₃ a (by omega)
    have hrun : absorbPrev P b c.size h =
        (b - d.size, ((h₁.forgot (b - d.size) (b + c.size)).withMem m₂).withMem m₃) := by
      rw [absorbPrev, Prog.bind_run_of_eq hprev, if_neg (by omega),
        Prog.bind_run_of_eq hd.run_blockSize, Prog.bind_run_of_eq hrun₁, Prog.bind_run_of_eq hun,
        if_pos rfl, Prog.bind_run_of_eq hun', if_pos rfl, Prog.bind_run_of_eq hset,
        Prog.bind_run_of_eq hend, Prog.bind_run_of_eq (run_scrubForget _ _ _)]
      change (sealHeader P (b - d.size) >>= _) ((h₁.forgot (b - d.size) (b + c.size)).withMem m₂) = _
      rw [Prog.bind_run_of_eq hrun₃]
      rfl
    refine ⟨_, b - d.size, c', pre', [d], hpre, fun x hx => List.mem_singleton.mp hx ▸ hk,
      by rw [extents_one]; exact hsize, by omega, hrun, ?_, ⟨hclear₃, ?_⟩, hleft, fun a ha => ?_⟩
    · exact (hr.work.trans ⟨rfl⟩ : h.Work (h₁.forgot (b - d.size) (b + c.size))).trans
        (Heap.work_withMem _ _)
    · rw [hleft]
      exact hs₃.head
    · have h₁ := ho.toClear.kept_outside ha rfl
      have h₂ := ha.outside ho.plan hmem fun hu => absurd hk (Cell.used_iff.mp hu)
      have hnl : ¬ LinkBytes P (h.FreeAt L) a := ha.not_link ho.plan fun _ _ h' => h'
      exact (hsame₃ a (by omega)).trans (hr.same a hnl)

theorem run_absorbNeighbours :
    ∃ h' r c' u' pre' back front post', pre = pre' ++ back ∧ post = front ++ post' ∧
      (∀ x ∈ back, x.kind = .free) ∧ (∀ x ∈ front, x.kind = .free) ∧
      c'.size = extents (back ++ [c] ++ front) ∧ r ≠ 0 ∧
      absorbNeighbours P b h = (r, h') ∧ h.Work h' ∧
      h'.Open P (Function.update L s (pre' ++ [c'] ++ post')) s pre' r c' u' post' ∧
      lastUsed true pre' = true ∧ (∀ x ∈ post'.head?, x.used = true) ∧
      ∀ a, h.Kept P L (· = b) a → h'.mem.byte a = h.mem.byte a := by
  have hw := ho.writ
  obtain ⟨h₁, c₁, u₁, front, post', hpost, hfront, hsize₁, hrun₁, hwork₁, ho₁, hright, hsame₁⟩ :=
    ho.run_absorbNext
  obtain ⟨h₂, r, c₂, pre', back, hpre, hback, hsize₂, hr, hrun₂, hwork₂, ho₂, hleft, hsame₂⟩ :=
    ho₁.run_absorbPrev
  rw [Function.update_idem] at ho₂
  refine ⟨h₂, r, c₂, u₁, pre', back, front, post', hpre, hpost, hback, hfront, ?_, hr, ?_,
    hwork₁.trans hwork₂, ho₂, hleft, hright, fun a ha => ?_⟩
  · rw [hsize₂, hsize₁, extents_append, extents_append, extents_one, Nat.add_assoc]
  · rw [absorbNeighbours, Prog.bind_run_of_eq hw.run_blockSize, withSpanOf, Prog.bind_run,
      Prog.read_run, hw.spanOf, Prog.elim_some, Prog.bind_run_of_eq hrun₁, Prog.elim_some]
    exact hrun₂
  · have hL : L s = pre ++ ([c] ++ front) ++ post' := by
      rw [ho.cells, hpost, List.append_assoc, List.append_assoc, List.append_assoc]
    have hext : extents [c₁] = extents ([c] ++ front) := by
      rw [extents_append, extents_one, extents_one, hsize₁]
    have hk := ha.transport ho.plan ho.gap.span hL hext hwork₁.kin.spans (X := (· = b))
      fun x d hx hd => ?_
    swap
    · have hx' : At (s.lo + extents pre) ([] ++ [c] ++ front) x d := hx
      exact at_run (fun _ h' => absurd h' List.not_mem_nil) hfront ho.gap.start hx' hd
    refine (hsame₂ a (hk.mono ?_)).trans (hsame₁ a (.inl ha))
    rintro x rfl
    have hpos := ho.fits.pos
    rw [← ho.gap.start, ← hext, extents_one, hsize₁]
    omega

theorem run_giveBack :
    ∃ h₁ r h' pre' back front post', pre = pre' ++ back ∧ post = front ++ post' ∧
      (∀ x ∈ back, x.kind = .free) ∧ (∀ x ∈ front, x.kind = .free) ∧ r ≠ 0 ∧
      r = s.lo + extents pre' ∧ absorbNeighbours P b h = (r, h₁) ∧
      releaseBlock P r h₁ = ((), h') ∧ h.Work h' ∧
      h'.Sound P (Function.update L s
        (pre' ++ [Cell.freed (extents (back ++ [c] ++ front))] ++ post')) ∧
      ∀ X : Nat → Prop, X b → h.Spares P X L h' (Function.update L s
        (pre' ++ [Cell.freed (extents (back ++ [c] ++ front))] ++ post')) := by
  obtain ⟨h₁, r, c₁, u₁, pre', back, front, post', hpre, hpost, hback, hfront, hsize, hr, hrun₁,
    hwork₁, ho₁, hleft, hright, hsame₁⟩ := ho.run_absorbNeighbours
  obtain ⟨h', hrun, hwork, hsound, hspares⟩ := ho₁.run_releaseBlock hleft hright
  rw [Function.update_idem, hsize] at hsound
  refine ⟨h₁, r, h', pre', back, front, post', hpre, hpost, hback, hfront, hr, ho₁.gap.start, hrun₁,
    hrun, hwork₁.trans hwork, hsound, fun X hX => ?_⟩
  have hL : L s = pre' ++ (back ++ [c] ++ front) ++ post' := by
    rw [ho.cells, hpre, hpost, List.append_assoc, List.append_assoc, List.append_assoc,
      List.append_assoc, List.append_assoc]
  have hone : ∀ n, extents [Cell.freed n] = n := fun n => extents_one _
  have hb : b = s.lo + extents pre' + extents back := by
    have := ho.gap.start
    rw [hpre, extents_append] at this
    omega
  have hX' : ∀ x d, At (s.lo + extents pre') (back ++ [c] ++ front) x d → d.used = true → X x :=
    fun x d hx hd => by rwa [at_run hback hfront hb hx hd]
  refine ho.plan.spares ho.gap.span hL (hone _) (hwork₁.trans hwork).kin.spans hX' ?_ fun a ha => ?_
  · rintro x d hx hd
    obtain ⟨-, rfl⟩ := at_one.mp hx
    exact absurd rfl (Cell.used_iff.mp hd)
  · have hext : extents [c₁] = extents (back ++ [c] ++ front) := (extents_one c₁).trans hsize
    have hk := ha.transport ho.plan ho.gap.span hL hext hwork₁.kin.spans hX'
    have hmono : ∀ x, x = r → s.lo + extents pre' ≤ x ∧
        x < s.lo + extents pre' + extents (back ++ [c] ++ front) := by
      rintro x rfl
      rw [← hsize, ← ho₁.gap.start]
      have := ho₁.fits.pos
      omega
    refine ((hspares (· = r) rfl).bytes a (hk.mono hmono)).trans (hsame₁ a (ha.mono ?_))
    rintro x rfl
    exact hX

end Heap.Open

end Mars
