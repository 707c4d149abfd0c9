import MarsAllocator.Invariant.Effects
import MarsAllocator.Properties.Reports

namespace Mars

open ByteMemory StateProgram

set_option synthInstance.maxSize 100000

variable (P : Profile)

/-- No corruption status is raised between `h` and `h'`. -/
def Mild (h h' : Heap) : Prop :=
  ∃ raised, h'.raised = raised ++ h.raised ∧ ∀ status ∈ raised, status.isCorruption = false

theorem Mild.of_eq {h h' : Heap} (hr : h'.raised = h.raised) : Mild h h' :=
  ⟨[], hr, fun _ hs => absurd hs List.not_mem_nil⟩

theorem Mild.fail (h : Heap) {status : Status} (hs : status.isCorruption = false) :
    Mild h (fail status h).2 :=
  ⟨[status], rfl, fun _ hm => List.mem_singleton.mp hm ▸ hs⟩

instance : StoreClosed Mild where
  refl _ := .of_eq rfl
  trans _ _ _ := by
    rintro ⟨r, hr, hs⟩ ⟨r', hr', hs'⟩
    refine ⟨r' ++ r, by rw [hr', hr, List.append_assoc], fun status hm => ?_⟩
    exact (List.mem_append.mp hm).elim (hs' status) (hs status)
  touch _ _ _ := .of_eq rfl
  store _ _ := .of_eq rfl
  tally _ _ := .of_eq rfl

instance : Respects Mild clearError := ⟨fun _ => .of_eq rfl⟩

instance (ptr : Nat) : Respects Mild (blockOf P ptr) := by
  have : Respects Mild (fail .notInitialized) := ⟨fun h => .fail h rfl⟩
  have : Respects Mild (fail .invalidPtr) := ⟨fun h => .fail h rfl⟩
  unfold blockOf arenaLive
  infer_instance

theorem Mild.kept {h₁ h₂ h₃ : Heap} (h : Mild h₁ h₂) (h' : Heard h₂ h₃) : ReportKept h₁ h₃ := by
  obtain ⟨r, hr, hmild⟩ := h
  obtain ⟨r', hr', he, ho⟩ := h'
  rintro ⟨r₁, hr₁, status, hs, hc⟩
  have hall : r₁ = r' ++ r := raised_unique hr₁ (by rw [hr', hr, List.append_assoc])
  rw [he]
  refine ne_ok_of_headD ho fun hn => ?_
  rw [hall, hn, List.nil_append] at hs
  exact Bool.false_ne_true ((hmild status hs).symm.trans hc)

/-- The word of the header that a resize of the block at `b` goes by: its own where it checks out,
else the one in the mirror that `mm_rescue` accepts. -/
def Heap.resizedBy (s : Span) (b : Nat) (h : Heap) : Option Nat :=
  if (headerOk P b h).1 then some (h.word b) else (h.mirrorOf P s b).map Mirror.word

/-- The block at `n` is free, and makes up what `own` bytes in front of it lack of `need`. -/
def Heap.RoomAt (s : Span) (n own need : Nat) (h : Heap) : Prop :=
  n < s.hi ∧ (headerOk P n h).1 = true ∧ wordUsed (h.word n) = false ∧
    need ≤ own + wordSize (h.word n)

/-- The block at `ptr` is in use, and neither it nor a free block after it has room for `newSize`
bytes. -/
def Heap.Displaces (ptr newSize : Nat) (h : Heap) : Prop :=
  newSize ≠ 0 ∧ ∃ s b w, (blockOf P ptr h).1 = b ∧ b ≠ 0 ∧ h.spanOf b = some s ∧
    h.resizedBy P s b = some w ∧ wordUsed w = true ∧ wordQuarantined w = false ∧
      ((headerOk P b h).1 = true → (canaryOk P b h).1 = true) ∧ wordSize w < sizeFor P newSize ∧
        ¬ h.RoomAt P s (b + wordSize w) (wordSize w) (sizeFor P newSize)

variable {P}

/-- What a resize finds at `b` agrees with the header word `w`, and nothing has been raised where
it is the block's own. -/
structure Resumed (P : Profile) (b w : Nat) (h h' : Heap) : Prop where
  span : h'.spanOf b = h.spanOf b
  used : wordUsed (h'.word b) = wordUsed w
  size : wordSize (h'.word b) = wordSize w
  next : StillOk P (b + wordSize w) h h'
  sound : (headerOk P b h).1 = true → Alike h h' ∧ Mild h h'

theorem Resumed.alike {b w : Nat} {h h₁ h₂ : Heap} (hr : Resumed P b w h h₁) (ha : Alike h₁ h₂)
    (hm : Mild h₁ h₂) : Resumed P b w h h₂ := by
  have hs := ha.sameHeader P b
  exact ⟨(ha.spanOf b).trans hr.span, by rw [hs.word, hr.used], by rw [hs.word, hr.size],
    hr.next.trans (ha.sameHeader P _).stillOk,
    fun hk => ⟨trans_of Alike (hr.sound hk).1 ha, trans_of Mild (hr.sound hk).2 hm⟩⟩

theorem wp_look {α β : Type} {x : HeapM α} [hx : Observes x] [hq : Respects Mild x] {a : α}
    {h h' : Heap} {f : α → HeapM β} {Q : β → Heap → Prop} (ha : Alike h h') (hm : Mild h h')
    (hv : (x h).1 = a) (hf : ∀ h'', Alike h h'' → Mild h h'' → wp (f a) Q h'') :
    wp (x >>= f) Q h' := by
  have hr := hf (x h').2 (trans_of Alike ha (hx.step h')) (trans_of Mild hm (hq.step h'))
  rw [← hv, ← hx.value ha] at hr
  exact hr

theorem Heap.resizedBy_of_headerOk {s : Span} {b : Nat} {h : Heap} (hk : (headerOk P b h).1 = true) :
    h.resizedBy P s b = some (h.word b) := by
  rw [Heap.resizedBy, if_pos hk]

theorem Heap.resizedBy_of_mirror {s : Span} {b : Nat} {h : Heap} {m : Mirror}
    (hk : (headerOk P b h).1 = false) (hm : h.mirrorOf P s b = some m) :
    h.resizedBy P s b = some m.word := by
  rw [Heap.resizedBy, if_neg (by rw [hk]; decide), hm]
  rfl

theorem mirrorOf_used {s : Span} {b : Nat} {h : Heap} {m : Mirror} (hm : h.mirrorOf P s b = some m) :
    wordUsed m.word = true :=
  (mirrorSays_some (Option.filter_eq_some_iff.mp hm).1).2.2.2.2.1

theorem liveBlock_resumes (ptr : Nat) {h h₀ : Heap} (ha : Alike h h₀) (hm : Mild h h₀) :
    wp (liveBlock P ptr) (fun b h' => b ≠ 0 → (blockOf P ptr h).1 = b ∧ ∃ s w,
      h.spanOf b = some s ∧ h.resizedBy P s b = some w ∧ wordQuarantined w = false ∧
        Resumed P b w h h') h₀ := by
  refine wp_look ha hm rfl fun h₁ h₁a h₁m => ?_
  have hlegible : (blockOf P ptr h).1 ≠ 0 → ∃ s, h.Legible P s (blockOf P ptr h).1 := fun hb =>
    ((blockOf_fst ptr h).resolve_left fun h0 => hb h0.1).2
  generalize (blockOf P ptr h).1 = b at hlegible
  rw [wp_ite]
  split
  · exact fun hb => absurd rfl hb
  rename_i hb
  obtain ⟨s, hl⟩ := hlegible hb
  rw [wp_bind_assoc]
  cases hk : (headerOk P b h).1 with
  | true =>
    refine wp_look h₁a h₁m hk fun h₂ h₂a h₂m => ?_
    rw [if_pos rfl, wp_bind, wp_pure, wp_ite, if_neg (by decide)]
    refine wp_look h₂a h₂m rfl fun h₃ h₃a h₃m => ?_
    rw [wp_ite]
    split
    · exact fun hb => absurd rfl hb
    rename_i hq
    have hs₃ := h₃a.sameHeader P b
    have hres : Resumed P b (h.word b) h h₃ := ⟨h₃a.spanOf b, congrArg wordUsed hs₃.word,
      congrArg wordSize hs₃.word, (h₃a.sameHeader P _).stillOk, fun _ => ⟨h₃a, h₃m⟩⟩
    exact fun _ => ⟨rfl, s, h.word b, hl.span, Heap.resizedBy_of_headerOk hk,
      Bool.eq_false_iff.mpr hq, hres⟩
  | false =>
    refine wp_look h₁a h₁m hk fun h₂ h₂a _ => ?_
    rw [if_neg (by decide)]
    have hs₂ := h₂a.sameHeader P b
    refine wp_seq (wp_rescue (hs₂.legible hl) ((Observes.value h₂a).trans hk)) fun ok h₃ hr => ?_
    rcases hr with ⟨rfl, -⟩ | ⟨rfl, -, -, m, hmir, hback⟩
    · exact fun hb => absurd rfl hb
    rw [wp_ite, if_neg (by decide)]
    refine wp_look (refl_of Alike h₃) (refl_of Mild h₃) rfl fun h₄ h₄a _ => ?_
    rw [wp_ite]
    split
    · exact fun hb => absurd rfl hb
    rename_i hq
    have hq₃ : wordQuarantined (h₃.word b) = false := Bool.eq_false_iff.mpr hq
    have hs₄ := h₄a.sameHeader P b
    have hres : Resumed P b m.word h h₄ := by
      refine ⟨?_, ?_, ?_, ?_, fun hk' => absurd (hk.symm.trans hk') (by decide)⟩
      · rw [h₄a.spanOf, hback.headerOk.span, hl.span]
      · rw [hs₄.word, hback.used, mirrorOf_used hmir]
      · rw [hs₄.word, hback.size]
      · exact (h₂a.sameHeader P _).stillOk.trans (hback.next.trans (h₄a.sameHeader P _).stillOk)
    exact fun _ => ⟨rfl, s, m.word, hl.span, Heap.resizedBy_of_mirror hk (h₂a.mirrorOf ▸ hmir),
      hback.quarantined ▸ hq₃, hres⟩

instance growNeighbour_observes (s : Span) (n own need : Nat) :
    Observes (growNeighbour P s n own need) := by
  unfold growNeighbour
  infer_instance

instance (s : Span) (n own need : Nat) : Respects Mild (growNeighbour P s n own need) := by
  unfold growNeighbour
  infer_instance

theorem growNeighbour_room {s : Span} {n own need : Nat} {h : Heap} (hr : h.RoomAt P s n own need) :
    (growNeighbour P s n own need h).1 ≠ none := by
  obtain ⟨hn, hk, hu, hneed⟩ := hr
  suffices hs : wp (growNeighbour P s n own need) (fun r _ => r ≠ none) h from hs
  rw [growNeighbour, wp_ite, if_neg (by omega)]
  have hfree : (Prog.and (headerOk P n) (do
      let used ← isUsed n
      return !used) h).1 = true := by
    rw [Prog.and_run, if_pos hk]
    have hused : (isUsed n (headerOk P n h).2).1 = wordUsed (h.word n) :=
      Observes.value (Respects.step (R := Alike) (x := headerOk P n) h)
    rw [Prog.bind_run, hused, hu]
    rfl
  refine wp_observe (refl_of Alike h) hfree fun h₁ h₁a => ?_
  rw [wp_ite, if_pos rfl]
  refine wp_observe h₁a (a := wordSize (h.word n)) rfl fun h₂ _ => ?_
  rw [if_pos hneed]
  exact Option.some_ne_none _

theorem Resumed.room {s : Span} {b w need : Nat} {h h' : Heap} (hr : Resumed P b w h h')
    (hroom : h.RoomAt P s (b + wordSize w) (wordSize w) need) :
    h'.RoomAt P s (b + wordSize w) (wordSize w) need := by
  obtain ⟨hn, hk, hu, hneed⟩ := hroom
  obtain ⟨s', hk⟩ := (headerOk_fst h _).mp hk
  obtain ⟨hk', hn', hu'⟩ := hr.next s' hk
  exact ⟨hn, (headerOk_fst h' _).mpr ⟨s', hk'⟩, hu'.trans hu, hn' ▸ hneed⟩

theorem resizeLive_moves {s : Span} {b w newSize : Nat} {h h₀ : Heap} (hr : Resumed P b w h h₀)
    (hs : h.spanOf b = some s) :
    wp (resizeLive P b newSize) (fun r h' => ∀ oldSize oldSum, r = .move oldSize oldSum →
      Resumed P b w h h' ∧ wordSize w < sizeFor P newSize ∧
        ¬ h.RoomAt P s (b + wordSize w) (wordSize w) (sizeFor P newSize)) h₀ := by
  have hstart := refl_of Alike h₀
  have hmild := refl_of Mild h₀
  refine wp_look hstart hmild rfl fun h₁ h₁a h₁m => ?_
  refine wp_look h₁a h₁m rfl fun h₂ h₂a h₂m => ?_
  refine wp_look h₂a h₂m rfl fun h₃ h₃a h₃m => ?_
  refine wp_look h₃a h₃m (show (blockSize b h₀).1 = wordSize w from hr.size) fun h₄ h₄a h₄m => ?_
  rw [wp_ite]
  split
  · exact wp_any fun _ _ => wp_any fun _ _ => fun _ _ hm => Resize.noConfusion hm
  rename_i hlt
  have hspan : (Prog.read (fun h => h.spanOf b) h₄).1 = some s :=
    (h₄a.spanOf b).trans (hr.span.trans hs)
  rw [wp_bind, wp_read]
  rw [show h₄.spanOf b = some s from hspan, Prog.elim_some]
  refine wp_look h₄a h₄m rfl fun h₅ h₅a h₅m => ?_
  cases hg : (growNeighbour P s (b + wordSize w) (wordSize w) (sizeFor P newSize) h₀).1 with
  | none =>
    rw [Prog.elim_none]
    exact fun _ _ _ => ⟨hr.alike h₅a h₅m, Nat.lt_of_not_le hlt,
      fun hroom => growNeighbour_room (hr.room hroom) hg⟩
  | some theirs =>
    rw [Prog.elim_some]
    exact wp_any fun _ _ => fun _ _ hm => Resize.noConfusion hm

theorem reallocInPlace_moves {ptr newSize : Nat} (hn : newSize ≠ 0) {h h₀ : Heap} (ha : Alike h h₀)
    (hm : Mild h h₀) :
    wp (reallocInPlace P ptr newSize) (fun r h' => ∀ oldSize oldSum, r = .move oldSize oldSum →
      h.Displaces P ptr newSize ∧
        ((headerOk P (blockOf P ptr h).1 h).1 = true → Alike h h' ∧ Mild h h')) h₀ := by
  refine wp_seq (liveBlock_resumes ptr ha hm) fun b h₁ hlive => ?_
  rw [wp_ite]
  split
  · exact fun _ _ hm => Resize.noConfusion hm
  rename_i hb
  obtain ⟨hp, s, w, hs, hby, hq, hr⟩ := hlive hb
  have hstart := refl_of Alike h₁
  have hmild := refl_of Mild h₁
  refine wp_look hstart hmild (show (isUsed b h₁).1 = wordUsed w from hr.used) fun h₂ h₂a h₂m => ?_
  rw [wp_ite]
  split
  · exact wp_any fun _ _ => fun _ _ hm => Resize.noConfusion hm
  rename_i hu
  refine wp_look h₂a h₂m rfl fun h₃ h₃a h₃m => ?_
  rw [wp_ite]
  split
  · exact wp_any fun _ _ => fun _ _ hm => Resize.noConfusion hm
  rename_i hcan
  rw [wp_ite]
  split
  · exact wp_any fun _ _ => fun _ _ hm => Resize.noConfusion hm
  refine wp_mono (resizeLive_moves (hr.alike h₃a h₃m) hs) fun r h' hmoves oldSize oldSum hm => ?_
  obtain ⟨hr', hlt, hroom⟩ := hmoves oldSize oldSum hm
  rw [hp]
  refine ⟨⟨hn, s, b, w, hp, hb, hs, hby, by simpa using hu, hq, fun hk => ?_, hlt, hroom⟩, hr'.sound⟩
  have hsame : (canaryOk P b h₁).1 = (canaryOk P b h).1 := Observes.value (hr.sound hk).1
  rw [← hsame]
  simpa using hcan

/-- The arena tiles, nothing of it has been given up, every established payload checksum matches,
and a request of the platform for `need` bytes is answered as it should be. -/
structure Heap.Untroubled (P : Profile) (need : Nat) (h : Heap) (L : Span → List Cell) : Prop where
  thriving : h.Thriving P L
  busy : h.Busy L fun _ => False
  faultless : h.Faultless P L
  offers : h.Offers (mappingFor P need)

theorem Heap.Untroubled.alike {need : Nat} {h h' : Heap} {L : Span → List Cell}
    (ho : h.Untroubled P need L) (ha : Alike h h') : h'.Untroubled P need L := by
  have hT := ho.thriving.alike ha
  obtain ⟨e, r, c, w⟩ := ha
  exact ⟨hT, ho.busy, ho.faultless.congr rfl rfl, ho.offers⟩

instance (b oldSize oldSum newSize : Nat) :
    Respects Mild (carryPayloadCrc P b oldSize oldSum newSize) := by
  unfold carryPayloadCrc payloadCrcLive
  infer_instance

theorem reallocCopy_mild (ptr oldSize oldSum : Nat) {newSize : Nat} {h : Heap}
    {L : Span → List Cell} (ho : h.Untroubled P (sizeFor P newSize) L) :
    wp (reallocCopy P ptr oldSize oldSum newSize) (fun fresh h' => fresh ≠ 0 → Mild h h') h := by
  obtain ⟨r, h₁, L₁, hrun, hres⟩ := ho.thriving.run_mallocUnlocked ho.busy ho.offers
  rw [reallocCopy, wp_bind]
  refine wp_of_run hrun ?_
  rw [wp_ite]
  split
  · exact fun hf => absurd rfl hf
  rename_i hne
  obtain ⟨s, b, c, -, -, hquiet⟩ := hres.resolve_left fun hn => hne hn.1
  intro _
  exact trans_of Mild (.of_eq (hquiet ho.faultless)) (Respects.step (R := Mild) h₁)

variable (P)

/-- What the closing free of a move clears is nothing: no block has to be moved, or its header
checks out and the arena is in order. -/
def Call.Unclearing (h : Heap) : Call → Prop
  | .realloc ptr newSize => h.Displaces P ptr.toNat newSize.toNat →
      (headerOk P (blockOf P ptr.toNat h).1 h).1 = true ∧
        ∃ L, h.Untroubled P (sizeFor P newSize.toNat) L
  | _ => True

variable {P}

theorem realloc_kept {ptr newSize : Nat} {h : Heap} (hc : h.Displaces P ptr newSize →
    (headerOk P (blockOf P ptr h).1 h).1 = true ∧ ∃ L, h.Untroubled P (sizeFor P newSize) L) :
    ReportKept h (reallocUnlocked P ptr newSize h).2 := by
  unfold reallocUnlocked
  rw [Prog.bind_run, Prog.ite_run]
  by_cases hp : ptr = 0
  · rw [if_pos hp]
    exact (heard_mallocUnlocked P newSize h).kept
  rw [if_neg hp, Prog.ite_run]
  by_cases hz : newSize = 0
  · rw [if_pos hz]
    exact (heard_freeUnlocked P ptr h).kept
  rw [if_neg hz, Prog.bind_run]
  have hi : Heard h (reallocInPlace P ptr newSize (clearError h).2).2 :=
    heard_of_cleared (reallocInPlace P ptr newSize) h
  have hmoves : wp (reallocInPlace P ptr newSize) _ (clearError h).2 := reallocInPlace_moves hz
    (Respects.step (R := Alike) (x := clearError) h) (Respects.step (R := Mild) (x := clearError) h)
  rw [wp] at hmoves
  rcases hr : reallocInPlace P ptr newSize (clearError h).2 with ⟨p | ⟨oldSize, oldSum⟩, h₁⟩
  · rw [hr] at hi
    exact hi.kept
  rw [hr] at hmoves
  obtain ⟨hd, hsound⟩ := hmoves oldSize oldSum rfl
  obtain ⟨hk, L, ho⟩ := hc hd
  obtain ⟨h₁a, h₁m⟩ := hsound hk
  have hcopy := reallocCopy_reports P ptr oldSize oldSum newSize h₁
  have hmild := reallocCopy_mild ptr oldSize oldSum (ho.alike h₁a)
  rw [wp] at hcopy hmild
  rcases hrun : reallocCopy P ptr oldSize oldSum newSize h₁ with ⟨fresh, h₂⟩
  rw [hrun] at hcopy hmild
  change ReportKept h (reallocMove P ptr oldSize oldSum newSize h₁).2
  rw [reallocMove, Prog.bind_run_of_eq hrun, Prog.bind_run, Prog.when_run, Prog.pure_run]
  by_cases hf : fresh = 0
  · rw [if_neg (by simpa using hf)]
    exact fun _ => hcopy.2 hf
  · rw [if_pos hf]
    exact (trans_of Mild h₁m (hmild hf)).kept (heard_freeUnlocked P ptr h₂)

/-- Two live blocks, and the back link of the one free block overwritten. -/
def brokenLink : Heap :=
  let h := runCalls .hardened [.malloc 16, .malloc 16] (installed .hardened ⟨0⟩ 4096 1024 1)
  { h with mem := h.mem.store 4216 8 0 }

theorem brokenLink_grows : ¬ brokenLink.Displaces .hardened 4160 100 := by
  rintro ⟨-, s, b, w, hb, -, hs, hw, -, -, -, -, hroom⟩
  obtain rfl : 4144 = b := by
    rw [← hb]
    decide +kernel
  obtain rfl : (⟨4096, 5120, 0, 0, 0, 0, .user⟩ : Span) = s := by
    refine Option.some.inj (Eq.trans ?_ hs)
    decide +kernel
  rw [Heap.resizedBy_of_headerOk (by decide +kernel)] at hw
  obtain rfl := Option.some.inj hw
  refine hroom ⟨?_, ?_, ?_, ?_⟩
  all_goals decide +kernel

end Mars
