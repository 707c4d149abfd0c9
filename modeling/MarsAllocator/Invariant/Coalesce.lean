import MarsAllocator.Invariant.Opened

namespace Mars

open ByteMemory StateProgram

variable {P : Profile} {h h' : Heap} {s s' : Span} {a b b' e n x y : Nat} {u u' : Bool}
  {c c' d : Cell} {L L' : Span → List Cell} {M : Nat → Nat → Prop} {pre mid mid' post cs : List Cell}
  {X : Nat → Prop} {m : Memory}

theorem load_word (hf : d.Fits P) (u : Bool) (b : Nat) (m : Memory) :
    (m.store b 8 (d.word u)).load b 8 = d.word u := by
  rw [Memory.load_store_self]
  exact Nat.mod_eq_of_lt (Cell.word_lt hf u)

theorem run_setWord_cell (hc : h.Covers b 8) (hu : wordPrevInUse (h.word b) = u) (hf : d.Fits P) :
    setWord b d.size d.slack d.used d.quarantined h =
      ((), h.withMem (h.mem.store b 8 (d.word u))) := by
  rw [run_setWord hc, wordSet_eq hf.lt hf.slack_lt, hu]
  rfl

theorem Heap.Writ.prevInUse_eq (hw : h.Writ P s b u c) : wordPrevInUse (h.word b) = u := by
  rw [hw.word_eq, Cell.wordPrevInUse_word]

theorem HeadAt.opened {κ : Nat} (hh : HeadAt P κ s m b u c) (hu : c.used = true)
    (hq : c.quarantined = false) : HeadAt P κ s m b u c.opened := by
  have hw : c.opened.word u = c.word u := by
    rw [Cell.word, Cell.word, hq, hu]
    rfl
  refine ⟨hh.word.trans hw.symm, hh.crc, fun hc => ?_⟩
  rw [hw]
  exact hh.sealed hc

theorem extents_one_eq (hsize : c'.size = c.size) : extents [c'] = extents [c] := by
  rw [extents_one, extents_one, hsize]

theorem at_one : At b [c] x d ↔ x = b ∧ d = c := by
  rw [At, At, or_false]

theorem Heap.CellIn.split (hc : h.CellIn L s b c) :
    ∃ pre post, L s = pre ++ [c] ++ post ∧ b = s.lo + extents pre := by
  obtain ⟨pre, post, he, hb⟩ := at_iff.mp hc.2
  exact ⟨pre, post, by rw [he, List.append_assoc]; rfl, hb⟩

theorem Heap.cellIn_of_eq (hs : s ∈ h.spans) (hL : L s = pre ++ [c] ++ post)
    (hb : b = s.lo + extents pre) : h.CellIn L s b c := by
  refine ⟨hs, at_iff.mpr ⟨pre, post, ?_, hb⟩⟩
  rw [hL, List.append_assoc]
  rfl

theorem Heap.Sound.open (hS : h.Sound P L) (hs : s ∈ h.spans) (hL : L s = pre ++ [c] ++ post)
    (hb : b = s.lo + extents pre) (hu : c.used = true) (hq : c.quarantined = false) :
    h.Open P (Function.update L s (pre ++ [c.opened] ++ post)) s pre b c.opened true post := by
  obtain ⟨hgap, hmid⟩ := hS.tiled.gap hs hL
  rw [← hb, extents_one] at hgap
  rw [← hb] at hmid
  have hplan := hS.tiled.plan
  have hcell : h.CellIn L s b c := Heap.cellIn_of_eq hs hL hb
  have hfit := hplan.cell_fits hcell
  have he := extents_one_eq (show c.opened.size = c.size from rfl)
  have hlast : lastUsed (lastUsed true pre) [c] = true := hu
  rw [hlast] at hgap
  refine ⟨⟨Function.update_self .., hplan.update hs hL he fun d hd =>
    List.mem_singleton.mp hd ▸ hfit.opened, hgap.update _, rfl, hS.filed.of_iff fun x n => ?_,
      hS.cursor.update hL he fun d hd => ?_, hS.narrow⟩, hmid.1.toHeadAt.opened hu hq⟩
  · have hiff := fun s' d => hplan.cellIn_update hs hL he s' x d
    constructor
    · rintro ⟨s', d, hd, hk, hn⟩
      refine ⟨s', d, (hiff s' d).mpr (.inl ⟨hd, fun hin => ?_⟩), hk, hn⟩
      rw [← hb, extents_one] at hin
      have := (hplan.cell_fits hd).pos
      rcases hplan.apart hd hcell with ⟨-, -, rfl⟩ | hap
      · exact absurd hk (Cell.used_iff.mp hu)
      · omega
    · rintro ⟨s', d, hd, hk, hn⟩
      rcases (hiff s' d).mp hd with ⟨hd, -⟩ | ⟨-, hd⟩
      · exact ⟨s', d, hd, hk, hn⟩
      · obtain ⟨-, rfl⟩ := at_one.mp hd
        exact absurd hk (show Kind.bare ≠ .free by decide)
  · obtain ⟨hx, -⟩ := at_one.mp hd
    exact ⟨c.opened, .inl ⟨hx, rfl⟩⟩

theorem Heap.Plan.spares_recell (hp : h.Plan P L) (hs : s ∈ h.spans) (hL : L s = pre ++ [c] ++ post)
    (hb : b = s.lo + extents pre) (hsize : c'.size = c.size) (hspans : h'.spans = h.spans) (hX : X b)
    (hm : ∀ a, h.Kept P L X a → h'.mem.byte a = h.mem.byte a) :
    h.Spares P X L h' (Function.update L s (pre ++ [c'] ++ post)) := by
  refine hp.spares hs hL (extents_one_eq hsize) hspans (fun x d hx _ => ?_) (fun x d hx _ => ?_) hm
  · rw [← hb] at hx
    rwa [(at_one.mp hx).1]
  · rw [← hb] at hx
    rwa [(at_one.mp hx).1]

namespace Heap.Clear

variable (hc : h.Clear P L s pre b c u post)
include hc

theorem head_mem {rest : List Cell} (hpost : post = d :: rest) : h.CellIn L s (b + c.size) d := by
  refine ⟨hc.gap.span, ?_⟩
  rw [hc.cells, at_append, extents_append, ← Nat.add_assoc, ← hc.gap.start, extents_one, hpost]
  exact .inr (.inl ⟨rfl, rfl⟩)

theorem publish_edge (hsize : d.size = c.size) (hf : d.Fits P) (ha : PublishBytes P b d post a) :
    b ≤ a ∧ a < b + c.size ∨ ∃ x e, h.CellIn L s x e ∧ EdgeBytes P x e a := by
  rcases ha with ha | ⟨e, he, ha⟩
  · exact .inl (hsize ▸ ha.bounds hf)
  · refine .inr ⟨b + c.size, e, ?_, hsize ▸ ha⟩
    cases hpost : post with
    | nil =>
      rw [hpost] at he
      exact absurd he nofun
    | cons e' rest =>
      rw [hpost] at he
      exact Option.mem_some.mp he ▸ hc.head_mem hpost

theorem kept_not_publish (hsize : d.size = c.size) (hf : d.Fits P) (hX : X b)
    (ha : h.Kept P L X a) : ¬ PublishBytes P b d post a := by
  intro hpub
  have hout := hc.kept_outside ha hX
  rcases hc.publish_edge hsize hf hpub with hin | ⟨x, e, he, hedge⟩
  · omega
  · exact ha.not_edge hc.plan he hedge

theorem link_not_publish (hsize : d.size = c.size) (hf : d.Fits P)
    (ha : LinkBytes P (h.FreeAt L) a) : ¬ PublishBytes P b d post a := by
  intro hpub
  have hout := hc.link_outside ha
  rcases hc.publish_edge hsize hf hpub with hin | ⟨x, e, he, hedge⟩
  · omega
  · have hfe := hc.plan.cell_fits he
    have hb := hedge.bounds hfe
    refine hc.plan.not_link he hb.1 hb.2 (fun hk => ?_) (fun _ _ h' => h') ha
    have hmin := hfe.min_le
    have hp := P.sizes
    rw [EdgeBytes, Cell.tailStart, Cell.not_used_iff.mpr hk, if_neg Bool.false_ne_true] at hedge
    omega

theorem run_publish (hw : h.Writ P s b (lastUsed true pre) d) (hsize : d.size = c.size)
    (hcrc : P.hasCrc = true → h.mem.load (b + 12) 4 = d.crc)
    (hcan : P.hasCanary = true → d.kind = .live →
      h.mem.load (b + d.size - d.slack) 8 = canaryValue (indexIn s b) h.secret)
    (hleft : lastUsed true pre = true ∨ d.used = true)
    (hright : d.used = true ∨ ∀ x ∈ post.head?, x.used = true) :
    ∃ m', publish P b h = (true, h.withMem m') ∧
      (h.withMem m').Tiled P True (Function.update L s (pre ++ [d] ++ post)) ∧
      (h.withMem m').Filed P (h.FreeAt L) ∧
      ∀ a, ¬ PublishBytes P b d post a → m'.byte a = h.mem.byte a := by
  have hfit := hw.fits
  have hrest : Rest P h.secret True s h.mem (b + d.size) u post := hsize ▸ hc.gap.after
  obtain ⟨m', hrun, hcell, hrest', hsame⟩ := Mars.run_publish hw hcrc hcan hrest hright
  have hafter : Rest P (h.withMem m').secret True s (h.withMem m').mem (b + c.size) d.used post :=
    hsize ▸ hrest'
  have hgap := hc.gap.relinked (h.kin_withMem m') (fun a hout hne => ?_) hafter
  swap
  · refine hsame a ?_
    rintro (hedge | hedge)
    · have := hedge.bounds hfit
      omega
    · exact hne (hsize ▸ hedge)
  have htiled : (h.withMem m').Tiled P True (Function.update L s (pre ++ [d] ++ post)) :=
    hgap.close (⟨hcell, hfit, hleft, trivial⟩ : Laid P h.secret True s m' b (lastUsed true pre) [d])
      (by rw [extents_one, hsize]) hafter
  refine ⟨m', hrun, htiled, htiled.filed (fun x n hx => ?_) hc.filed (h.kin_withMem m') rfl rfl
    fun a ha => hsame a (hc.link_not_publish hsize hfit ha), hsame⟩
  have he : extents [d] = c.size := (extents_one d).trans hsize
  exact (hc.freeAt_update he).mpr (.inl hx)

end Heap.Clear

theorem Heap.Clear.run_shelve (hc : h.Clear P L s pre b c u post)
    (hw : h.Writ P s b (lastUsed true pre) d) (hsz : d.size = c.size) (hkind : d.kind = .free)
    (hcrc : P.hasCrc = true → h.mem.load (b + 12) 4 = d.crc) (hleft : lastUsed true pre = true)
    (hright : ∀ x ∈ post.head?, x.used = true) :
    ∃ h₁ h', publish P b h = (true, h₁) ∧ binInsert P b h₁ = ((), h') ∧ h.Work h' ∧
      h'.Sound P (Function.update L s (pre ++ [d] ++ post)) ∧
      ∀ X : Nat → Prop, X b → h.Spares P X L h' (Function.update L s (pre ++ [d] ++ post)) := by
  have hp := P.sizes
  have hfit := hw.fits
  have hmin := hfit.min_le
  have hcan : d.kind ≠ .live := by rw [hkind]; decide
  obtain ⟨m', hrun, ht, hF, hsame⟩ := hc.run_publish hw hsz hcrc (fun _ hk => absurd hk hcan)
    (.inl hleft) (.inr hright)
  have hcell : (h.withMem m').CellIn (Function.update L s (pre ++ [d] ++ post)) s b d := by
    refine ⟨hc.gap.span, ?_⟩
    rw [Function.update_self, at_append, at_append, ← hc.gap.start]
    exact .inl (.inr (.inl ⟨rfl, rfl⟩))
  have hnode : (h.withMem m').Node P b d.size := by
    obtain ⟨u', -, hh⟩ := ht.cell hcell
    exact hh.node hkind
  have hap : ∀ x k, h.FreeAt L x k → x + k ≤ b ∨ b + d.size ≤ x := fun x k hx =>
    hsz.symm ▸ hc.free_outside hx
  have hspec := hF.pushed_spec hnode hap (binOf_lt P d.size)
  have hF' := hF.pushed hnode hap
  have hiff : ∀ x k, AddTo (h.FreeAt L) b d.size x k ↔
      h.FreeAt (Function.update L s (pre ++ [d] ++ post)) x k := by
    intro x k
    rw [hc.freeAt_update ((extents_one d).trans hsz)]
    refine or_congr Iff.rfl ⟨?_, ?_⟩
    · rintro ⟨rfl, rfl⟩
      exact ⟨d, at_one.mpr ⟨rfl, rfl⟩, hkind, rfl⟩
    · rintro ⟨e, he, -, rfl⟩
      obtain ⟨rfl, rfl⟩ := at_one.mp he
      exact ⟨rfl, rfl⟩
  have hwork : h.Work ((h.withMem m').pushed P b (binOf P d.size)) :=
    (h.work_withMem m').trans hspec.1.work
  refine ⟨_, _, hrun, hF.run_binInsert hnode, hwork,
    ⟨ht.rebinned (fun x k => (hiff x k).mp) hspec.1, ?_, ?_, hc.narrow.of_spans hwork.kin.spans⟩,
    fun X hX => ?_⟩
  · rw [freeAt_kin hwork.kin.spans]
    exact hF'.of_iff hiff
  · have hkin := hspec.1.eq
    refine Heap.Cursor.congr (h := h) ?_ hwork.kin.spans (by rw [hwork.eq]) (by rw [hkin]; rfl)
    refine hc.cursor.update hc.cells (extents_one_eq hsz) fun e he => ?_
    exact ⟨d, .inl ⟨(at_one.mp he).1, rfl⟩⟩
  · refine hc.plan.spares_recell hc.gap.span hc.cells hc.gap.start hsz hwork.kin.spans hX
      fun a ha => ?_
    have hout := hc.kept_outside ha hX
    have hlink : ((h.withMem m').pushed P b (binOf P d.size)).mem.byte a = m'.byte a := by
      refine hspec.1.same a ?_
      rintro ⟨x, k, hx | ⟨rfl, rfl⟩, h₁, h₂⟩
      · exact ha.not_link hc.plan (fun _ _ h' => h') ⟨x, k, hx, h₁, h₂⟩
      · omega
    exact hlink.trans (hsame a (hc.kept_not_publish hsz hfit hX ha))

theorem Heap.Clear.spares_inside (hc : h.Clear P L s pre b c u post)
    (hspans : h'.spans = h.spans)
    (hm : ∀ a, a < b ∨ b + c.size ≤ a → h'.mem.byte a = h.mem.byte a) (hX : X b) :
    h.Spares P X L h' L := by
  refine ⟨fun s b c _ _ => ?_, fun a ha => hm a (hc.kept_outside ha hX)⟩
  rw [Heap.CellIn, hspans]
  rfl

def Cell.freed (n : Nat) : Cell := ⟨n, 0, 0, .free⟩

theorem Cell.Fits.freed (hf : c.Fits P) : (Cell.freed c.size).Fits P :=
  ⟨hf.dvd, hf.min_le, hf.lt, Nat.zero_lt_succ _, nofun, nofun⟩

theorem Heap.Open.run_releaseBlock (ho : h.Open P L s pre b c u post)
    (hleft : lastUsed true pre = true) (hright : ∀ x ∈ post.head?, x.used = true) :
    ∃ h', releaseBlock P b h = ((), h') ∧ h.Work h' ∧
      h'.Sound P (Function.update L s (pre ++ [Cell.freed c.size] ++ post)) ∧
      ∀ X : Nat → Prop, X b →
        h.Spares P X L h' (Function.update L s (pre ++ [Cell.freed c.size] ++ post)) := by
  have hp := P.sizes
  have hfit := ho.fits.freed
  have hmin := ho.fits.min_le
  obtain ⟨d, hd⟩ : ∃ d, d = Cell.freed c.size := ⟨_, rfl⟩
  have hsz : d.size = c.size := by rw [hd, Cell.freed]
  have hkind : d.kind = .free := by rw [hd, Cell.freed]
  have hcrc : d.crc = 0 := by rw [hd, Cell.freed]
  rw [← hd] at hfit ⊢
  have hw := ho.writ
  have hset : setWord b c.size 0 false false h =
      ((), h.withMem (h.mem.store b 8 (d.word (lastUsed true pre)))) := by
    have hrun := run_setWord_cell hw.covers8 hw.prevInUse_eq hfit
    rw [hsz, Cell.not_used_iff.mpr hkind] at hrun
    rw [← hrun, hd]
    rfl
  obtain ⟨m₁, hm₁⟩ : ∃ m₁, m₁ = h.mem.store b 8 (d.word (lastUsed true pre)) := ⟨_, rfl⟩
  rw [← hm₁] at hset
  have hsame₁ : ∀ a, a < b ∨ b + P.hdrSize ≤ a → m₁.byte a = h.mem.byte a := fun a ha => by
    rw [hm₁]
    exact Memory.byte_store_of_notMem (by omega)
  have hword₁ : m₁.load b 8 = d.word (lastUsed true pre) := by rw [hm₁, load_word hfit]
  have hcov : (h.withMem m₁).Covers b P.hdrSize := hw.covers_head
  obtain ⟨m₂, hrun₂, hset₂⟩ := run_setPayloadCrc hcov (v := 0) (Nat.two_pow_pos 32)
  have hsame₂ : ∀ a, a < b ∨ b + P.hdrSize ≤ a → m₂.byte a = h.mem.byte a := fun a ha =>
    (hset₂.same a ha).trans (hsame₁ a ha)
  have hroom : (h.withMem m₂).Room s b d.size := hsz ▸ hw.room.withMem m₂
  have hw₂ : (h.withMem m₂).Writ P s b (lastUsed true pre) d :=
    ⟨hroom, hfit, hset₂.word.trans hword₁⟩
  have hin₂ : ∀ a, a < b ∨ b + c.size ≤ a → m₂.byte a = h.mem.byte a := fun a ha =>
    hsame₂ a (by omega)
  have hc₂ : (h.withMem m₂).Clear P L s pre b c u post := ho.toClear.inside hin₂
  obtain ⟨h₃, h₄, hrun₃, hrun₄, hwork, hsound, hspares⟩ := hc₂.run_shelve hw₂ hsz hkind
    (fun h' => (hset₂.crc h').trans hcrc.symm) hleft hright
  refine ⟨h₄, ?_, (h.work_withMem m₂).trans hwork, hsound, fun X hX =>
    (ho.toClear.spares_inside (h.kin_withMem m₂).spans hin₂ hX).trans (hspares X hX)⟩
  rw [releaseBlock, Prog.bind_run_of_eq hw.run_blockSize, Prog.bind_run_of_eq hset,
    Prog.bind_run_of_eq hrun₂]
  change (publish P b >>= _) (h.withMem m₂) = _
  rw [Prog.bind_run_of_eq hrun₃, Prog.when_run, if_pos rfl]
  exact hrun₄

end Mars
