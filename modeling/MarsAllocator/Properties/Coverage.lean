import MarsAllocator.Library.Rounds
import MarsAllocator.Properties.Accounts
import MarsAllocator.Properties.Bookkeeping

namespace Mars

open ByteMemory StateProgram

variable (P : Profile)

/-- The patrol's loop, with a note of the blocks it looks at. -/
def scrubLoopSeen (budget : Nat) : (guard : Nat) → Lap → HeapM (Lap × List Nat)
  | 0, lap => pure (lap, [])
  | guard + 1, lap =>
      if lap.visited < budget then do
        let lap ← lapSpan lap
        if ← headerOk P lap.pos then
          let next ← scrubStep P lap
          let r ← scrubLoopSeen budget guard next
          pure (r.1, lap.pos :: r.2)
        else if ← scrubRescue P lap.pos then
          let next ← scrubStep P (lap.note .corruptHeader)
          let r ← scrubLoopSeen budget guard next
          pure (r.1, lap.pos :: r.2)
        else scrubLoopSeen budget guard { lap.note .corruptHeader with pos := lap.span.lo }
      else pure (lap, [])

def scrubRunSeen (budgetBlocks : Nat) : HeapM (Status × List Nat) :=
  if budgetBlocks = 0 then pure (.ok, [])
  else do
    let s ← Prog.read fun h => h.scrubSpan.or h.spans.head?
    Prog.elim s (pure (.ok, [])) fun s => do
      let cursor ← Prog.read Heap.scrubAt
      let blocks ← maxBlocks P
      let spans ← Prog.read Heap.spanCount
      let r ← scrubLoopSeen P budgetBlocks (blocks + spans) { span := s, pos := lapStart s cursor }
      let found ← scrubEnd r.1
      pure (found, r.2)

def scrubSeen (budgetBlocks : Nat) : HeapM (Status × List Nat) := do
  clearError
  if ← arenaLive then scrubRunSeen P budgetBlocks
  else do
    fail .notInitialized
    pure (.notInitialized, [])

/-- One `mm_scrub` after the other: what each returns, and the blocks it looks at. -/
def patrols : List Nat → HeapM (List (Status × List Nat))
  | [] => pure []
  | k :: budgets => do
      let r ← scrubSeen P k
      let rest ← patrols budgets
      pure (r :: rest)

variable {P} {h h' h₁ h₂ h₃ : Heap} {s t : Span} {b i j k n : Nat} {c : Cell} {L : Span → List Cell}
  {lap lap' : Lap} {cs : List Cell} {budgets : List Nat} {seen : List Nat} {σ : Session}

theorem scrubLoopSeen_run (budget guard : Nat) (lap : Lap) (h : Heap) :
    scrubLoop P budget guard lap h =
      ((scrubLoopSeen P budget guard lap h).1.1, (scrubLoopSeen P budget guard lap h).2) := by
  induction guard generalizing lap h with
  | zero => rfl
  | succ guard ih =>
    rw [scrubLoop, scrubLoopSeen, Prog.ite_run, Prog.ite_run]
    split
    · rw [Prog.bind_run, Prog.bind_run, Prog.bind_run, Prog.bind_run, Prog.ite_run, Prog.ite_run]
      split
      · rw [Prog.bind_run, ih]
        rfl
      · rw [Prog.bind_run, Prog.bind_run, Prog.ite_run, Prog.ite_run]
        split
        · rw [Prog.bind_run, ih]
          rfl
        · exact ih _ _
    · rfl

/-- The note apart, it is `mm_scrub`. -/
theorem scrubSeen_run (budget : Nat) (h : Heap) :
    scrub P budget h = ((scrubSeen P budget h).1.1, (scrubSeen P budget h).2) := by
  have hrun : ∀ h, scrubRun P budget h =
      ((scrubRunSeen P budget h).1.1, (scrubRunSeen P budget h).2) := fun h => by
    rw [scrubRun, scrubRunSeen, Prog.ite_run, Prog.ite_run]
    split
    · rfl
    rw [Prog.bind_run, Prog.bind_run, Prog.read_run]
    cases h.scrubSpan.or h.spans.head? with
    | none => rfl
    | some s =>
      rw [Prog.elim_some, Prog.elim_some, Prog.bind_run, Prog.bind_run, Prog.bind_run, Prog.bind_run,
        Prog.bind_run, Prog.bind_run, Prog.bind_run, Prog.bind_run, scrubLoopSeen_run]
      rfl
  rw [scrub, scrubSeen, Prog.bind_run, Prog.bind_run, Prog.bind_run, Prog.bind_run, Prog.ite_run,
    Prog.ite_run]
  split
  · exact hrun _
  · rfl

/-- Only the patrol's position, its counters and the status have changed. -/
structure Heap.Swept (h h' : Heap) : Prop where
  eq : h' = { h with
    scrubSpan := h'.scrubSpan, scrubAt := h'.scrubAt, stats := h'.stats, lastError := h'.lastError,
    raised := h'.raised }
  stats : h'.stats = { h.stats with
    scrubPasses := h'.stats.scrubPasses, scrubBlocks := h'.stats.scrubBlocks,
    scrubDetections := h'.stats.scrubDetections }

theorem Heap.Swept.trans (hs : h₁.Swept h₂) (hs' : h₂.Swept h₃) : h₁.Swept h₃ := by
  refine ⟨?_, ?_⟩
  · rw [hs'.eq, hs.eq]
  · rw [hs'.stats, hs.stats]

theorem Heap.Swept.patrolled (hs : h.Swept h') : h.Patrolled h' := by
  refine ⟨?_, hs.stats⟩
  rw [hs.eq]

theorem Heap.Swept.tiling (hs : h.Swept h') : h'.tiling P = h.tiling P := by
  have hfrom : ∀ (s : Span) (budget p : Nat), h'.tilingFrom s budget p = h.tilingFrom s budget p := by
    intro s budget
    induction budget with
    | zero => exact fun _ => rfl
    | succ budget ih =>
      intro p
      rw [Heap.tilingFrom, Heap.tilingFrom, ih, Heap.word, hs.patrolled.mem, Heap.word]
  have hof : h'.tilingOf P = h.tilingOf P := funext fun s => hfrom s _ _
  rw [Heap.tiling, Heap.tiling, hof, hs.patrolled.kin.spans]

theorem scrubEnd_sweeps (lap : Lap) (h : Heap) : ∃ h', scrubEnd lap h = (lap.found, h') ∧
    h.Swept h' ∧ h'.scrubSpan = some lap.span ∧ h'.scrubAt = lap.pos := by
  rw [scrubEnd, Prog.bind_run, Prog.bind_run, Prog.bind_run, Prog.when_run]
  split
  all_goals
    rw [Prog.bind_run, Prog.when_run]
    split
    all_goals exact ⟨_, rfl, ⟨rfl, rfl⟩, rfl, rfl⟩

/-- The block ends where its span does. -/
def Heap.EndsSpan (h : Heap) (b : Nat) : Prop := ∃ s ∈ h.spans, b + h.extent b = s.hi

/-- How many blocks stand before the one that the patrol looks at next. -/
def Heap.lapFrom (P : Profile) (h : Heap) : Nat :=
  match h.scrubSpan.or h.spans.head? with
  | none => 0
  | some s => (h.tiling P).idxOf (lapStart s h.scrubAt)

/-- The `i`-th block that a lap looks at. -/
def Heap.blockNo (P : Profile) (h : Heap) (i : Nat) : Option Nat := Rounds.nth (h.tiling P) (h.lapFrom P + i)

/-- The blocks from the one the patrol looks at next on, `n` of them. -/
def Heap.Window (P : Profile) (h : Heap) (j n : Nat) (seen : List Nat) : Prop :=
  seen.map some = (List.range n).map fun i => Rounds.nth (h.tiling P) (j + i)

theorem Heap.Window.mem (hw : h.Window P j n seen) (hi : i < n)
    (hb : Rounds.nth (h.tiling P) (j + i) = some b) : b ∈ seen := by
  have hmem : some b ∈ seen.map some := by
    rw [hw, List.mem_map]
    exact ⟨i, List.mem_range.mpr hi, hb⟩
  obtain ⟨b', hb', he⟩ := List.mem_map.mp hmem
  exact Option.some.inj he ▸ hb'

theorem Heap.Window.cover (hw : h.Window P j n seen) (hn : (h.tiling P).length ≤ n)
    (hb : b ∈ h.tiling P) : b ∈ seen := by
  obtain ⟨i, hi, hat⟩ := Rounds.exists_nth hb hn j
  exact hw.mem hi hat

theorem Heap.window_zero (h : Heap) (j : Nat) : h.Window P j 0 [] := rfl

theorem Heap.Window.cons (hb : Rounds.nth (h.tiling P) j = some b)
    (hw : h.Window P (j + 1) n seen) : h.Window P j (n + 1) (b :: seen) := by
  rw [Heap.Window, List.map_cons, hw, List.range_succ_eq_map, List.map_cons, List.map_map, ← hb]
  refine congrArg _ (List.map_congr_left fun i _ => ?_)
  rw [Function.comp_apply, Nat.succ_eq_add_one, show j + 1 + i = j + (i + 1) by omega]

theorem Heap.Window.append {seen' : List Nat} (hw : h.Window P j n seen)
    (hw' : h.Window P (j + n) k seen') : h.Window P j (n + k) (seen ++ seen') := by
  rw [Heap.Window, List.map_append, hw, hw', List.range_add, List.map_append, List.map_map]
  refine congrArg _ (List.map_congr_left fun i _ => ?_)
  rw [Function.comp_apply, Nat.add_assoc]


/-- How often the patrol's loop goes round at most. -/
def Heap.lapGuard (P : Profile) (h : Heap) : Nat := h.totalBytes / P.minBlock + 1 + h.spanCount

theorem Heap.lapGuard_pos (P : Profile) (h : Heap) : 0 < h.lapGuard P :=
  Nat.add_pos_left (Nat.succ_pos _) _

theorem outline_head (hne : cs ≠ []) (p : Nat) : ((outline p cs).map Block.start).head? = some p := by
  cases cs with
  | nil => exact absurd rfl hne
  | cons c cs => rfl

theorem outline_append (p : Nat) (cs ds : List Cell) :
    outline p (cs ++ ds) = outline p cs ++ outline (p + extents cs) ds := by
  induction cs generalizing p with
  | nil => rfl
  | cons c cs ih => rw [List.cons_append, outline, ih, outline, List.cons_append, extents_cons, Nat.add_assoc]

theorem outline_length (p : Nat) (cs : List Cell) : (outline p cs).length = cs.length := by
  induction cs generalizing p with
  | nil => rfl
  | cons c cs ih => rw [outline, List.length_cons, ih, List.length_cons]

theorem spanAfter_append {pre post : List Span} (hs : s ∉ pre) :
    spanAfter s (pre ++ s :: post) = post.head? := by
  induction pre with
  | nil => rw [List.nil_append, spanAfter, if_pos rfl]
  | cons t pre ih =>
    rw [List.mem_cons, not_or] at hs
    rw [List.cons_append, spanAfter, if_neg fun he => hs.1 he.symm, ih hs.2]

namespace Heap.Thriving

variable (hT : h.Thriving P L)
include hT

theorem cells_ne (hs : s ∈ h.spans) : L s ≠ [] := by
  obtain ⟨c, hc⟩ := hT.sound.tiled.plan.first hs
  intro hnil
  rw [hnil] at hc
  exact hc

theorem tilingOf_head (hs : s ∈ h.spans) : (h.tilingOf P s).head? = some s.lo := by
  rw [hT.sound.tilingOf hs]
  exact outline_head (hT.cells_ne hs) s.lo

theorem tiling_nodup : (h.tiling P).Nodup := by
  have hn := hT.sound.layout_nodup hT.distinct
  rw [Heap.layout, List.map_map] at hn
  have hid : (Block.start ∘ h.blockAt) = id := rfl
  rwa [hid, List.map_id] at hn

theorem flatMap_head (spans : List Span) (hsub : ∀ t ∈ spans, t ∈ h.spans) :
    (spans.flatMap (h.tilingOf P)).head? = spans.head?.map Span.lo := by
  cases spans with
  | nil => rfl
  | cons t spans =>
    have hhead := hT.tilingOf_head (hsub t List.mem_cons_self)
    rw [List.flatMap_cons, List.head?_append, hhead]
    rfl

/-- After a block of the tiling comes the one that it ends at, after the last one of a span the
first one of the next. -/
theorem nth_next (hc : h.CellIn L s b c) (hj : Rounds.nth (h.tiling P) j = some b) :
    Rounds.nth (h.tiling P) (j + 1) =
      some (if s.hi ≤ b + c.size then (h.nextSpan s).lo else b + c.size) := by
  obtain ⟨before, after, hspans⟩ := List.append_of_mem hc.1
  obtain ⟨pre, post, hL, hb⟩ := at_iff.mp hc.2
  have hends := hT.sound.tiled.plan.ends s hc.1
  have hbefore : s ∉ before := by
    have hd := hT.distinct
    rw [hspans] at hd
    exact fun hm => (List.nodup_append.mp hd).2.2 s hm s List.mem_cons_self rfl
  have hafter : ∀ t ∈ after, t ∈ h.spans := fun t ht => by
    rw [hspans]
    exact List.mem_append_right _ (List.mem_cons_of_mem s ht)
  have hT' : h.tiling P = (before.flatMap (h.tilingOf P) ++ (outline s.lo pre).map Block.start) ++
      b :: ((outline (b + c.size) post).map Block.start ++ after.flatMap (h.tilingOf P)) := by
    rw [Heap.tiling, hspans, List.flatMap_append, List.flatMap_cons, hT.sound.tilingOf hc.1, hL,
      outline_append, ← hb, List.map_append, outline, List.map_cons, List.append_assoc, List.append_assoc]
    rfl
  rw [Rounds.nth_succ hT.tiling_nodup hT' hj, List.head?_append]
  rw [hL, extents_append, extents_cons] at hends
  cases post with
  | nil =>
    rw [extents_nil] at hends
    rw [if_pos (by omega), outline, List.map_nil, List.head?_nil, Option.none_or, hT.flatMap_head after hafter,
      Heap.tiling, hT.flatMap_head h.spans fun _ ht => ht, Heap.nextSpan, hspans, spanAfter_append hbefore]
    cases after with
    | nil =>
      cases before with
      | nil => rfl
      | cons t before => rfl
    | cons t after => rfl
  | cons d post =>
    have hpos : 0 < d.size := (hT.sound.tiled.plan.fits s hc.1 d (by
      rw [hL]
      exact List.mem_append_right _ (List.mem_cons_of_mem c List.mem_cons_self))).pos
    rw [extents_cons] at hends
    rw [if_neg (by omega), outline_head (List.cons_ne_nil d post), Option.some_or, Option.some_or]

theorem length_le_guard : (h.tiling P).length ≤ h.lapGuard P := by
  have hp := P.sizes
  have hlen : (h.tiling P).length * P.minBlock ≤ h.totalBytes := by
    rw [hT.total, Heap.tiling, List.length_flatMap]
    have hle : ∀ spans : List Span, (∀ t ∈ spans, t ∈ h.spans) →
        (spans.map fun t => (h.tilingOf P t).length).sum * P.minBlock ≤
          (spans.map fun t => t.hi - t.lo).sum := by
      intro spans
      induction spans with
      | nil => exact fun _ => Nat.le_of_eq (Nat.zero_mul _)
      | cons t spans ih =>
        intro hsub
        have ht := hsub t List.mem_cons_self
        have hends := hT.sound.tiled.plan.ends t ht
        have hle := length_mul_le (hT.sound.tiled.plan.fits t ht)
        have := ih fun t' ht' => hsub t' (List.mem_cons_of_mem t ht')
        have hlen : (h.tilingOf P t).length = (L t).length := by
          rw [hT.sound.tilingOf ht, List.length_map, outline_length]
        rw [List.map_cons, List.sum_cons, List.map_cons, List.sum_cons, Nat.add_mul, hlen]
        omega
    exact hle h.spans fun _ ht => ht
  have := (Nat.le_div_iff_mul_le (by omega)).mpr hlen
  rw [Heap.lapGuard]
  omega

end Heap.Thriving

/-- What has become of `lap` when it has gone on from block `j` for `n` blocks. -/
structure Lap.Walked (P : Profile) (h : Heap) (L : Span → List Cell) (lap lap' : Lap) (j n : Nat)
    (seen : List Nat) : Prop where
  placed : lap'.Placed h L
  window : h.Window P j n seen
  next : Rounds.nth (h.tiling P) (j + n) = some (lapSpan lap' h).1.pos
  still : n = 0 → lap' = lap
  inside : n ≤ 1 → lap.pos < lap.span.hi → lap'.span = lap.span
  stop : 0 < n → ∃ b, Rounds.nth (h.tiling P) (j + n - 1) = some b ∧ lap'.pos = b + h.extent b
  clean : h.Matching P L → lap.found = .ok → lap'.found = .ok

theorem lapSpan_of_inside (hin : lap.pos < lap.span.hi) : (lapSpan lap h).1 = lap := by
  rw [run_lapSpan, if_neg (Nat.not_le.mpr hin)]

namespace Heap.Thriving

variable (hT : h.Thriving P L)
include hT

theorem turn_next (hl : lap.Placed h L)
    (hj : Rounds.nth (h.tiling P) j = some (lapSpan lap h).1.pos) :
    (h.turn P lap).pos = (lapSpan lap h).1.pos + h.extent (lapSpan lap h).1.pos ∧
      (h.turn P lap).span = (lapSpan lap h).1.span ∧ (h.turn P lap).visited = lap.visited + 1 ∧
      Rounds.nth (h.tiling P) (j + 1) = some (lapSpan (h.turn P lap) h).1.pos := by
  obtain ⟨c, hc, hturn, -⟩ := hT.sound.turn_spec hT.settled hl
  obtain ⟨u, hcell, hh⟩ := hT.sound.tiled.cell hc
  have hspan : (h.turn P lap).span = (lapSpan lap h).1.span := by
    rw [hturn, Lap.visit]
    exact Lap.note_span _ _
  have hpos : (h.turn P lap).pos = (lapSpan lap h).1.pos + c.size := by rw [hturn, Lap.visit]
  have hvisited : (lapSpan lap h).1.visited = lap.visited := by
    rw [run_lapSpan]
    split <;> rfl
  refine ⟨?_, hspan, ?_, ?_⟩
  · rw [hpos, hcell.extent hh.fits]
  · rw [hturn, Lap.visit]
    dsimp only
    rw [hvisited]
  · rw [hT.nth_next hc hj, run_lapSpan h (h.turn P lap), hspan, hpos]
    split
    · rfl
    · exact congrArg some hpos.symm

theorem run_scrubLoopSeen (budget guard : Nat) (hl : lap.Placed h L)
    (hj : Rounds.nth (h.tiling P) j = some (lapSpan lap h).1.pos) :
    ∃ lap' seen, scrubLoopSeen P budget guard lap h = ((lap', seen), h) ∧
      lap.Walked P h L lap' j (min (budget - lap.visited) guard) seen := by
  induction guard generalizing lap j with
  | zero =>
    rw [Nat.min_zero]
    exact ⟨lap, [], rfl, hl, h.window_zero j, hj, fun _ => rfl, fun _ _ => rfl, fun hlt => absurd hlt (Nat.lt_irrefl 0), fun _ hf => hf⟩
  | succ guard ih =>
    rw [scrubLoopSeen, Prog.ite_run]
    split
    swap
    · rename_i hlt
      rw [Nat.sub_eq_zero_of_le (Nat.not_lt.mp hlt), Nat.zero_min]
      exact ⟨lap, [], rfl, hl, h.window_zero j, hj, fun _ => rfl, fun _ _ => rfl, fun hlt => absurd hlt (Nat.lt_irrefl 0), fun _ hf => hf⟩
    rename_i hlt
    obtain ⟨c, hc, hturn, hl'⟩ := hT.sound.turn_spec hT.settled hl
    obtain ⟨u, hcell, hh⟩ := hT.sound.tiled.cell hc
    obtain ⟨hpos, hspan, hvisited, hnext⟩ := hT.turn_next hl hj
    have hlap : lapSpan lap h = ((lapSpan lap h).1, h) := by rw [run_lapSpan]
    obtain ⟨lap', seen, hrun, hw⟩ := ih hl' hnext
    obtain ⟨n, hn⟩ : ∃ n, n = min (budget - (lap.visited + 1)) guard := ⟨_, rfl⟩
    have hn' : min (budget - lap.visited) (guard + 1) = n + 1 := by omega
    rw [hvisited, ← hn] at hw
    rw [hn']
    refine ⟨lap', (lapSpan lap h).1.pos :: seen, ?_, hw.placed, hw.window.cons hj, ?_, nofun, fun h1 hin => ?_, fun _ => ?_,
      fun hmat hf => hw.clean hmat ?_⟩
    · rw [Prog.bind_run_of_eq hlap, Prog.bind_run_of_eq hh.run_headerOk, if_pos rfl,
        Prog.bind_run_of_eq (hT.sound.run_scrubStep hT.settled hc), ← hturn, Prog.bind_run_of_eq hrun]
      rfl
    · rw [← hw.next, show j + 1 + n = j + (n + 1) by omega]
    · rw [hw.still (by omega), hspan, lapSpan_of_inside hin]
    · by_cases h0 : 0 < n
      · obtain ⟨b, hb, hstop⟩ := hw.stop h0
        refine ⟨b, ?_, hstop⟩
        rw [← hb, show j + 1 + n - 1 = j + (n + 1) - 1 by omega]
      · obtain rfl : n = 0 := by omega
        exact ⟨_, hj, hw.still rfl ▸ hpos⟩
    · have hf₁ : (lapSpan lap h).1.found = .ok := by
        rw [run_lapSpan]
        split <;> exact hf
      rw [hturn, Heap.verdict, if_neg]
      · exact hf₁
      · intro hbad
        rw [Bool.and_eq_true, Bool.not_eq_true'] at hbad
        exact absurd ((hmat _ _ _ hc hbad.1).symm.trans hbad.2) (by decide)

end Heap.Thriving

theorem lapStart_lt (hlt : s.lo < s.hi) (p : Nat) : lapStart s p < s.hi := by
  rw [lapStart]
  split
  · exact hlt
  · rename_i hin
    exact Nat.not_le.mp fun hle => hin (.inr (.inr hle))

/-- The patrol goes on from block `j`. -/
def Heap.LapAt (P : Profile) (h : Heap) (j : Nat) : Prop :=
  ∀ s, h.scrubSpan.or h.spans.head? = some s → Rounds.nth (h.tiling P) j = some (lapStart s h.scrubAt)

/-- What one `mm_scrub` of `k` blocks comes to, from block `j` on. -/
structure Heap.Scanned (P : Profile) (h : Heap) (L : Span → List Cell) (j k : Nat) (st : Status)
    (seen : List Nat) (h' : Heap) : Prop where
  swept : h.Swept h'
  cursor : h'.Cursor L
  clean : h.Matching P L → st = .ok
  window : h.Window P j (min k (h.lapGuard P)) seen
  onward : k ≤ h.lapGuard P →
    (h.spans.length = 1 ∨ ∀ b, 0 < k → Rounds.nth (h.tiling P) (j + k - 1) = some b → ¬ h.EndsSpan b) →
      h'.LapAt P (j + k)
  held : ∀ s, h.scrubSpan.or h.spans.head? = some s → k = 1 → h'.scrubSpan.or h'.spans.head? = some s ∧
    ∀ b ∈ seen, ∃ c, h.CellIn L s b c

theorem Heap.Swept.thriving (hs : h.Swept h') (hT : h.Thriving P L) (hc : h'.Cursor L) :
    h'.Thriving P L := by
  have hk := hs.patrolled.kin.spans
  refine ⟨hT.sound.patrolled hs.patrolled hc, hT.settled.congr hk, hk ▸ hT.distinct, hk ▸ hT.root,
    hk ▸ hT.origin, hk ▸ hT.low, ?_, ?_, ?_, ?_⟩
  · rw [hs.eq]
    exact hT.fixed
  · rw [hs.eq]
    exact hT.total
  · rw [hs.eq]
    exact hT.lost
  · rw [hs.eq]
    exact hT.paged

theorem Heap.Swept.endsSpan (hs : h.Swept h') : h'.EndsSpan b ↔ h.EndsSpan b := by
  rw [Heap.EndsSpan, Heap.EndsSpan, hs.patrolled.kin.spans, Heap.extent, Heap.word, hs.patrolled.mem]
  rfl

theorem lapStart_of_inside {p : Nat} (hpos : 0 < s.lo) (h₁ : s.lo ≤ p) (h₂ : p < s.hi) : lapStart s p = p := by
  rw [lapStart, if_neg (by omega)]

theorem lapStart_hi (s : Span) : lapStart s s.hi = s.lo := by
  rw [lapStart, if_pos (.inr (.inr (le_refl _)))]

namespace Heap.Thriving

variable (hT : h.Thriving P L)
include hT

theorem lap_span : ∃ s ∈ h.spans, h.scrubSpan.or h.spans.head? = some s := by
  cases hspan : h.scrubSpan with
  | some s => exact ⟨s, (hT.sound.cursor.at_block s hspan).1, rfl⟩
  | none =>
    obtain ⟨s, rest, hs⟩ := List.exists_cons_of_ne_nil hT.spans_ne
    refine ⟨s, hs ▸ List.mem_cons_self, ?_⟩
    rw [hs]
    rfl

theorem lapAt_lapFrom : h.LapAt P (h.lapFrom P) := by
  intro s hs
  have hl := hT.sound.cursor.start hT.sound.tiled.plan hs
  have hlt := lapStart_lt (hT.sound.tiled.ground s hl.1).lo_lt h.scrubAt
  obtain ⟨hmem, hend | ⟨c, hc⟩⟩ := hl
  · exact absurd hend (Nat.ne_of_lt hlt)
  · have hin : lapStart s h.scrubAt ∈ h.tiling P := hT.sound.mem_tiling.mpr ⟨s, c, hmem, hc⟩
    rw [Heap.lapFrom, hs]
    exact Rounds.nth_idxOf hin

theorem run_scrubSeen (hj : h.LapAt P j) (k : Nat) :
    ∃ st seen h', scrubSeen P k h = ((st, seen), h') ∧ h.Scanned P L j k st seen h' := by
  obtain ⟨g, hg⟩ : ∃ g, g = (clearError h).2 := ⟨_, rfl⟩
  have hclear : clearError h = ((), g) := by rw [hg, clearError, Prog.modify_run]
  have hsg : h.Swept g := by
    rw [hg]
    exact ⟨rfl, rfl⟩
  have hcg : g.Cursor L := hT.sound.cursor.congr hsg.patrolled.kin.spans (by rw [hg]; rfl) (by rw [hg]; rfl)
  have hTg := hsg.thriving hT hcg
  have hlive := run_arenaLive (hsg.patrolled.kin.spans ▸ hT.spans_ne)
  have hspanAt : g.scrubSpan = h.scrubSpan ∧ g.scrubAt = h.scrubAt ∧ g.spans = h.spans := by
    rw [hg]
    exact ⟨rfl, rfl, rfl⟩
  rw [scrubSeen, Prog.bind_run_of_eq hclear, Prog.bind_run_of_eq hlive, if_pos rfl, scrubRunSeen, Prog.ite_run]
  by_cases hk : k = 0
  · subst hk
    rw [if_pos rfl]
    refine ⟨.ok, [], g, rfl, hsg, hcg, fun _ => rfl, ?_, fun _ _ => ?_, fun _ _ h1 => absurd h1 (by decide)⟩
    · rw [Nat.zero_min]
      exact h.window_zero j
    · intro s hs
      rw [hspanAt.1, hspanAt.2.2] at hs
      rw [hspanAt.2.1, hsg.tiling]
      exact hj s hs
  rw [if_neg hk, Prog.bind_run, Prog.read_run]
  obtain ⟨s, hs, hor⟩ := hTg.lap_span
  have hor' : h.scrubSpan.or h.spans.head? = some s := by rw [← hspanAt.1, ← hspanAt.2.2, hor]
  have hl := hTg.sound.cursor.start hTg.sound.tiled.plan hor
  have hin := lapStart_lt (hTg.sound.tiled.ground s hs).lo_lt g.scrubAt
  have hstart : Rounds.nth (g.tiling P) j =
      some (lapSpan { span := s, pos := lapStart s g.scrubAt } g).1.pos := by
    rw [lapSpan_of_inside hin, hspanAt.2.1, hsg.tiling]
    exact hj s hor'
  obtain ⟨lap', seen, hrun, hw⟩ := hTg.run_scrubLoopSeen k (g.lapGuard P)
    hl hstart
  obtain ⟨h', hend, hsw, hspan', hat'⟩ := scrubEnd_sweeps lap' g
  have hsh : h.Swept h' := hsg.trans hsw
  have hguard : g.lapGuard P = h.lapGuard P := by rw [hg]; rfl
  have hg0 := h.lapGuard_pos P
  have hspans' : h'.spans = h.spans := hsh.patrolled.kin.spans
  rw [hguard] at hw hrun
  refine ⟨lap'.found, seen, h', ?_, hsh, ⟨fun hn => ?_, fun t ht => ?_⟩, fun hmat => ?_, ?_,
    fun hle hgo => ?_, fun t ht hk1 => ⟨?_, fun b hb => ?_⟩⟩
  · rw [hor, Prog.elim_some, Prog.bind_run, Prog.read_run, maxBlocks, Prog.bind_run, Prog.read_run,
      Prog.bind_run, Prog.read_run]
    change (scrubLoopSeen P k (g.lapGuard P) _ >>= _) g = _
    rw [hguard, Prog.bind_run_of_eq hrun, Prog.bind_run_of_eq hend]
    rfl
  · rw [hspan'] at hn
    exact absurd hn (Option.some_ne_none _)
  · rw [hspan'] at ht
    obtain rfl := Option.some.inj ht
    rw [hat', hsw.patrolled.kin.spans]
    exact hw.placed
  · exact hw.clean (hmat.congr hspanAt.2.2 (by rw [hg]; rfl)) rfl
  · have hwin := hw.window
    rw [Heap.Window, hsg.tiling] at hwin
    exact hwin
  · have hn : min (k - 0) (h.lapGuard P) = k := by omega
    intro t ht
    rw [hspan'] at ht
    obtain rfl : lap'.span = t := Option.some.inj ht
    have hground := hTg.sound.tiled.ground _ hw.placed.1
    rw [hsh.tiling, ← hsg.tiling, hat']
    have hnext := hw.next
    rw [hn] at hnext
    rw [hnext]
    rcases hw.placed.2 with hhi | ⟨c, hc⟩
    · have hone : h.spans.length = 1 := hgo.resolve_right fun hno => by
        obtain ⟨b, hb, hstop⟩ := hw.stop (by rw [hn]; omega)
        rw [hn, hsg.tiling] at hb
        refine hno b (Nat.pos_of_ne_zero hk) hb (hsg.endsSpan.mp ⟨lap'.span, hw.placed.1, ?_⟩)
        rw [← hstop, hhi]
      rw [run_lapSpan, if_pos (Nat.le_of_eq hhi.symm), hhi, lapStart_hi]
      obtain ⟨u, hu⟩ := List.length_eq_one_iff.mp hone
      have hmem : ∀ t ∈ g.spans, t = u := fun t ht => by
        rw [hspanAt.2.2, hu] at ht
        exact List.mem_singleton.mp ht
      rw [hmem _ (Heap.nextSpan_mem hw.placed.1), hmem _ hw.placed.1]
    · have hb := hTg.sound.tiled.plan.bounds ⟨hw.placed.1, hc⟩
      have hpos := (hTg.sound.tiled.plan.cell_fits ⟨hw.placed.1, hc⟩).pos
      rw [lapSpan_of_inside (by omega), lapStart_of_inside hground.lo_pos (by omega) (by omega)]
  · obtain rfl : s = t := Option.some.inj (hor'.symm.trans ht)
    rw [hspan', Option.some_or, hw.inside (by omega) hin]
  · obtain rfl : s = t := Option.some.inj (hor'.symm.trans ht)
    have hwin := hw.window
    rw [Heap.Window, show min (k - 0) (h.lapGuard P) = 1 by omega,
      List.range_one, List.map_singleton, Nat.add_zero, hstart, lapSpan_of_inside hin] at hwin
    obtain ⟨x, rfl, hx⟩ := List.map_eq_singleton_iff.mp hwin
    obtain rfl := List.mem_singleton.mp hb
    obtain ⟨c, hc⟩ := hl.2.resolve_left (Nat.ne_of_lt hin)
    refine ⟨c, hspanAt.2.2 ▸ hs, ?_⟩
    rw [Option.some.inj hx]
    exact hc

end Heap.Thriving

/-- Each block is looked at in one of the calls. -/
def Heap.Sees (P : Profile) (h : Heap) (budgets : List Nat) : Prop :=
  ∀ b ∈ h.tiling P, ∃ r ∈ (patrols P budgets h).1, b ∈ r.2

theorem patrols_cons (k : Nat) (budgets : List Nat) (h : Heap) : patrols P (k :: budgets) h =
    ((scrubSeen P k h).1 :: (patrols P budgets (scrubSeen P k h).2).1,
      (patrols P budgets (scrubSeen P k h).2).2) := rfl

theorem Heap.Swept.refl (h : Heap) : h.Swept h := ⟨rfl, rfl⟩

namespace Heap.Thriving

theorem patrols_sweep (hT : h.Thriving P L) (budgets : List Nat) :
    h.Swept (patrols P budgets h).2 ∧
      (h.Matching P L → ∀ r ∈ (patrols P budgets h).1, r.1 = .ok) := by
  induction budgets generalizing h with
  | nil => exact ⟨.refl h, fun _ r hr => absurd hr List.not_mem_nil⟩
  | cons k budgets ih =>
    obtain ⟨st, seen, h', hrun, hs⟩ := hT.run_scrubSeen hT.lapAt_lapFrom k
    obtain ⟨hsw, hok⟩ := ih (hs.swept.thriving hT hs.cursor)
    rw [patrols_cons, hrun]
    refine ⟨hs.swept.trans hsw, fun hmat r hr => ?_⟩
    rcases List.mem_cons.mp hr with rfl | hr
    · exact hs.clean hmat
    · exact hok (hmat.congr hs.swept.patrolled.kin.spans hs.swept.patrolled.mem) r hr

/-- One budget as large as the tiling is enough. -/
theorem sees_of_budget (hT : h.Thriving P L) (hk : k ∈ budgets) (hlen : (h.tiling P).length ≤ k) :
    h.Sees P budgets := by
  induction budgets generalizing h with
  | nil => exact absurd hk List.not_mem_nil
  | cons k' budgets ih =>
    obtain ⟨st, seen, h', hrun, hs⟩ := hT.run_scrubSeen hT.lapAt_lapFrom k'
    intro b hb
    rw [patrols_cons, hrun]
    rcases List.mem_cons.mp hk with rfl | hk
    · exact ⟨_, List.mem_cons_self, hs.window.cover (le_min hlen hT.length_le_guard) hb⟩
    · obtain ⟨r, hr, hbr⟩ := ih (hs.swept.thriving hT hs.cursor) hk (by rw [hs.swept.tiling]; exact hlen) b
        (by rw [hs.swept.tiling]; exact hb)
      exact ⟨r, List.mem_cons_of_mem _ hr, hbr⟩

/-- While the calls stop inside a span, each goes on where the last one stopped. -/
theorem patrols_window (hT : h.Thriving P L) (hj : h.LapAt P j) (hle : ∀ k ∈ budgets, k ≤ h.lapGuard P)
    (hgo : h.spans.length = 1 ∨ ∀ i < budgets.length, 0 < (budgets.take i).sum → ∀ b,
      Rounds.nth (h.tiling P) (j + (budgets.take i).sum - 1) = some b → ¬ h.EndsSpan b) :
    h.Window P j budgets.sum ((patrols P budgets h).1.flatMap Prod.snd) := by
  induction budgets generalizing h j with
  | nil => exact h.window_zero j
  | cons k budgets ih =>
    obtain ⟨st, seen, h', hrun, hs⟩ := hT.run_scrubSeen hj k
    have hk := hle k List.mem_cons_self
    have hwin := hs.window
    rw [Nat.min_eq_left hk] at hwin
    rw [patrols_cons, hrun, List.sum_cons, List.flatMap_cons]
    cases budgets with
    | nil =>
      change h.Window P j (k + 0) (seen ++ [])
      rwa [List.append_nil]
    | cons k' budgets =>
      have hj' : h'.LapAt P (j + k) := by
        refine hs.onward hk (hgo.imp_right fun hgo b hpos hb => ?_)
        have h1 : ((k :: k' :: budgets).take 1).sum = k := Nat.add_zero k
        refine hgo 1 (by rw [List.length_cons, List.length_cons]; omega) (by rw [h1]; exact hpos) b ?_
        rw [h1]
        exact hb
      have htail := ih (hs.swept.thriving hT hs.cursor) hj' (fun m hm => ?_) (hgo.imp (fun h1 => ?_)
        fun hgo i hi hpos b hb => ?_)
      · rw [Heap.Window, hs.swept.tiling] at htail
        exact hwin.append htail
      · rw [show h'.lapGuard P = h.lapGuard P by rw [Heap.lapGuard, Heap.lapGuard, hs.swept.eq]]
        exact hle m (List.mem_cons_of_mem k hm)
      · rw [hs.swept.patrolled.kin.spans]
        exact h1
      · rw [hs.swept.endsSpan]
        rw [hs.swept.tiling] at hb
        have hsum : ((k :: k' :: budgets).take (i + 1)).sum = k + ((k' :: budgets).take i).sum := by
          rw [List.take_succ_cons, List.sum_cons]
        refine hgo (i + 1) (by rw [List.length_cons]; omega) (by rw [hsum]; omega) b ?_
        rw [hsum, ← hb, Nat.add_assoc]

/-- A patrol of one block never leaves the span it is in. -/
theorem patrols_held (hT : h.Thriving P L) (hs : h.scrubSpan.or h.spans.head? = some s) (n : Nat) :
    ∀ r ∈ (patrols P (List.replicate n 1) h).1, ∀ b ∈ r.2, ∃ c, h.CellIn L s b c := by
  induction n generalizing h with
  | zero => exact fun r hr => absurd hr List.not_mem_nil
  | succ n ih =>
    obtain ⟨st, seen, h', hrun, hsc⟩ := hT.run_scrubSeen hT.lapAt_lapFrom 1
    obtain ⟨hs', hseen⟩ := hsc.held s hs rfl
    rw [List.replicate_succ, patrols_cons, hrun]
    intro r hr b hb
    rcases List.mem_cons.mp hr with rfl | hr
    · exact hseen b hb
    · obtain ⟨c, hc⟩ := ih (hsc.swept.thriving hT hsc.cursor) hs' r hr b hb
      exact ⟨c, hsc.swept.patrolled.kin.spans ▸ hc.1, hc.2⟩

theorem sees_of_window (hT : h.Thriving P L) (hsum : (h.tiling P).length ≤ budgets.sum)
    (hle : ∀ k ∈ budgets, k < (h.tiling P).length)
    (hgo : h.spans.length = 1 ∨ ∀ i < budgets.length, 0 < (budgets.take i).sum → ∀ b,
      h.blockNo P ((budgets.take i).sum - 1) = some b → ¬ h.EndsSpan b) : h.Sees P budgets := by
  intro b hb
  have hwin : h.Window P (h.lapFrom P) budgets.sum _ := hT.patrols_window hT.lapAt_lapFrom
    (fun k hk => (hle k hk).le.trans hT.length_le_guard)
    (hgo.imp_right fun hgo i hi hpos b hb => hgo i hi hpos b (by
      rw [Heap.blockNo, ← Nat.add_sub_assoc hpos]
      exact hb))
  obtain ⟨r, hr, hbr⟩ := List.mem_flatMap.mp (hwin.cover hsum hb)
  exact ⟨r, hr, hbr⟩

/-- Where a second span is, patrols of one block leave it alone. -/
theorem not_sees (hT : h.Thriving P L) (htwo : h.spans.length ≠ 1) (n : Nat) :
    ¬ h.Sees P (List.replicate n 1) := by
  intro hsees
  obtain ⟨s, hs, hor⟩ := hT.lap_span
  obtain ⟨t, ht, hne⟩ : ∃ t ∈ h.spans, t ≠ s := by
    by_contra hall
    push Not at hall
    have hone : h.spans = List.replicate h.spans.length s := List.eq_replicate_length.mpr hall
    have hd := hT.distinct
    rw [hone, List.nodup_replicate] at hd
    have := List.length_pos_of_mem hs
    omega
  obtain ⟨c, hc⟩ := hT.sound.tiled.plan.first ht
  have hct : h.CellIn L t t.lo c := ⟨ht, hc⟩
  obtain ⟨r, hr, hb⟩ := hsees t.lo (hT.sound.mem_tiling.mpr ⟨t, c, hct⟩)
  obtain ⟨d, hd⟩ := hT.patrols_held hor n r hr t.lo hb
  exact hne (hT.sound.tiled.plan.cell_unique hd hct).1.symm

end Heap.Thriving

/-- The patrol stands nowhere, or at a block or the end of a span that is listed. -/
def Heap.CursorListed (P : Profile) (h : Heap) : Prop :=
  (h.scrubSpan = none → h.scrubAt = 0) ∧
    ∀ s, h.scrubSpan = some s → s ∈ h.spans ∧ (h.scrubAt = s.hi ∨ h.scrubAt ∈ h.tilingOf P s)

/-- Every payload checksum that a block in use keeps is the one of its payload. -/
def Heap.Checked (P : Profile) (h : Heap) : Prop :=
  ∀ b ∈ h.tiling P, wordUsed (h.word b) = true → (payloadOk P b h).1 = true

/-- One of the calls has a budget for all the blocks, or none of them but the last stops at the end
of a span. -/
def Heap.Unbroken (P : Profile) (h : Heap) (budgets : List Nat) : Prop :=
  (∃ k ∈ budgets, (h.tiling P).length ≤ k) ∨ ∀ i < budgets.length, 0 < (budgets.take i).sum →
    ∀ b ∈ h.blockNo P ((budgets.take i).sum - 1), ¬ h.EndsSpan b

instance (h : Heap) (b : Nat) : Decidable (h.EndsSpan b) :=
  inferInstanceAs (Decidable (∃ s ∈ h.spans, b + h.extent b = s.hi))

theorem Heap.Sound.matching_of_checked (hS : h.Sound P L) (hch : h.Checked P) : h.Matching P L := by
  intro s b c hc hu
  obtain ⟨u, -, hh⟩ := hS.tiled.cell hc
  exact hch b (hS.mem_tiling.mpr ⟨s, c, hc⟩) (by rw [hh.word_eq, Cell.wordUsed_word, hu])

theorem Heap.Sound.cursorListed (hS : h.Sound P L) : h.CursorListed P := by
  refine ⟨hS.cursor.idle, fun s hs => ?_⟩
  obtain ⟨hmem, hat⟩ := hS.cursor.at_block s hs
  refine ⟨hmem, hat.imp_right fun hc => ?_⟩
  rw [hS.tilingOf hmem]
  exact mem_starts.mpr hc

/-- Patrols with budgets for all the blocks look at each of them, whatever the budgets, exactly
where there is one span. Where there are more, they do so if no call but the last stops at the end
of a span, where the next one would start that span again; they never change anything but the
patrol's own state, and find nothing where all checksums match. -/
theorem patrols_complete_iff (hr : Arrived P Action.any σ) (hw : σ.heap.lostBytes = 0) :
    σ.heap.CursorListed P ∧
    (∀ budgets, σ.heap.Swept (patrols P budgets σ.heap).2 ∧
      (σ.heap.Checked P → ∀ r ∈ (patrols P budgets σ.heap).1, r.1 = .ok)) ∧
    (∀ budgets, (σ.heap.tiling P).length ≤ budgets.sum → σ.heap.Unbroken P budgets →
      σ.heap.Sees P budgets) ∧
    ((∀ budgets, (σ.heap.tiling P).length ≤ budgets.sum → σ.heap.Sees P budgets) ↔
      σ.heap.spans.length = 1) := by
  obtain ⟨L, hK⟩ := hr.kempt hw
  have hT := hK.thriving
  refine ⟨hT.sound.cursorListed, fun budgets => ?_, fun budgets hsum hgo => ?_, fun hall => ?_,
    fun hone budgets hsum => ?_⟩
  · obtain ⟨hsw, hok⟩ := hT.patrols_sweep budgets
    exact ⟨hsw, fun hch => hok (hT.sound.matching_of_checked hch)⟩
  · by_cases hbig : ∃ k ∈ budgets, (σ.heap.tiling P).length ≤ k
    · obtain ⟨k, hk, hlen⟩ := hbig
      exact hT.sees_of_budget hk hlen
    · exact hT.sees_of_window hsum (fun k hk => Nat.not_le.mp fun hle => hbig ⟨k, hk, hle⟩)
        (.inr (hgo.resolve_left hbig))
  · by_contra htwo
    refine hT.not_sees htwo (σ.heap.tiling P).length (hall _ ?_)
    rw [List.sum_replicate_nat, Nat.mul_one]
  · by_cases hbig : ∃ k ∈ budgets, (σ.heap.tiling P).length ≤ k
    · obtain ⟨k, hk, hlen⟩ := hbig
      exact hT.sees_of_budget hk hlen
    · exact hT.sees_of_window hsum (fun k hk => Nat.not_le.mp fun hle => hbig ⟨k, hk, hle⟩) (.inl hone)

/-- An arena that grows, with a block too large for its first span. -/
def spreadSession : Session :=
  (Session.offered ⟨grownHeap, []⟩ [some 4194304]).next .fast (.call (.malloc 1100000))

theorem spread_facts :
    (arenaInitGrowable .fast (1 : UInt64).toNat ((Heap.blank ⟨0⟩).supplied [some 4096])).1 = true ∧
    spreadSession.heap.lostBytes = 0 ∧
    spreadSession.heap.tiling .fast = [4194312, 5294328, 2097160] ∧
    (patrols .fast [1, 1, 1] spreadSession.heap).1.map Prod.snd = [[2097160], [2097160], [2097160]] ∧
    spreadSession.heap.blockNo .fast 1 = some 4194312 ∧ ¬ spreadSession.heap.EndsSpan 4194312 := by
  decide +kernel

theorem spread_opens : arenaInitGrowable .fast (1 : UInt64).toNat
    ((Heap.blank ⟨0⟩).supplied [some 4096]) = (true, grownHeap) := by
  rw [grownHeap, ← spread_facts.1]

theorem Heap.offers_one {raw bytes : Nat} (h0 : 0 < raw ∧ raw + bytes ≤ 2 ^ 56)
    (hclear : ∀ t ∈ h.spans, raw + bytes ≤ t.lo ∨ t.hi ≤ raw) :
    (h.supplied [some raw]).Offers bytes := fun raw' hraw => by
  obtain rfl : raw = raw' := Option.some.inj (Option.some.inj hraw)
  exact ⟨h0.1, h0.2, hclear⟩

theorem spread_arrived : Arrived .fast Action.any spreadSession :=
  .step [some 4194304] (.mapped ⟨0⟩ 1 [some 4096]
    (Heap.offers_one ⟨stormy_facts.1, stormy_facts.2.1⟩ fun _ ht => absurd ht List.not_mem_nil) spread_opens) rfl rfl
    (Heap.offers_one stormy_low fun t ht => .inr (grown_clear t ht))

/-- Budgets that keep clear of the ends of the spans. -/
theorem patrols_complete_spread : spreadSession.heap.Sees .fast [2, 1] := by
  obtain ⟨-, hlost, htiling, -, hno, hends⟩ := spread_facts
  refine (patrols_complete_iff spread_arrived hlost).2.2.1 [2, 1] ?_ (.inr fun i hi hpos b hb => ?_)
  · rw [htiling]
    decide
  · rcases i with _ | _ | i
    · exact absurd hpos (Nat.lt_irrefl 0)
    · obtain rfl : 4194312 = b := Option.some.inj (hno.symm.trans hb)
      exact hends
    · exact absurd hi (by rw [List.length_cons, List.length_singleton]; omega)

/-- Three patrols of one block each, in an arena of three, look at one block three times. -/
theorem patrols_miss_a_span : ¬ ∀ (P : Profile) (σ : Session), Arrived P Action.any σ →
    σ.heap.lostBytes = 0 → ∀ budgets : List Nat, (σ.heap.tiling P).length ≤ budgets.sum →
      σ.heap.Sees P budgets := by
  intro hall
  obtain ⟨-, hlost, htiling, hseen, -⟩ := spread_facts
  have hsees := hall .fast spreadSession spread_arrived hlost [1, 1, 1] (by rw [htiling]; decide)
  obtain ⟨r, hr, hb⟩ := hsees 4194312 (by rw [htiling]; decide)
  have hmem : r.2 ∈ (patrols .fast [1, 1, 1] spreadSession.heap).1.map Prod.snd := List.mem_map_of_mem hr
  rw [hseen] at hmem
  have hr2 : r.2 = [2097160] := by simpa using hmem
  rw [hr2] at hb
  exact absurd hb (by decide)

end Mars
