import MarsAllocator.Invariant.Booked
import MarsAllocator.Properties.Simulation

namespace Mars

open ByteMemory ByteStore StateProgram

variable {P : Profile} {h h' : Heap} {n p q bytes : Nat} {A : Nat → Prop} {L L' : Span → List Cell}
  {live : List Nat} {c : Call} {r : Reply} {S : Blocks UInt8} {e : Blocks.Event UInt8}

/-- The arena once it has been brought up for raw pointers. -/
structure Heap.Afloat (P : Profile) (h : Heap) (L : Span → List Cell) (live : List Nat) : Prop where
  kempt : h.Kempt P L live
  kept : h.lostBytes = 0
  mode : h.mode = .libc
  pageSize : h.pageSize = 4096

/-- The calls that the malloc family is made of. -/
def Call.plain : Call → Bool
  | .malloc _ | .free _ | .realloc _ _ | .memalign _ _ => true
  | _ => false

theorem Heap.Effect.kept (he : h.Effect P L c r h' L')
    (hc : ∀ ptr off bufNull len, c ≠ .read ptr off bufNull len) :
    h'.lostBytes = h.lostBytes ∧ h'.pageSize = h.pageSize := by
  have htended : ∀ {h h' : Heap}, h.Tended h' → h'.lostBytes = h.lostBytes ∧ h'.pageSize = h.pageSize :=
    fun ht => ⟨ht.lostBytes, ht.pageSize⟩
  cases he with
  | stayed _ _ hs => exact htended hs.tended
  | alike _ _ ha _ =>
    obtain ⟨_, _, _, _⟩ := ha
    exact ⟨rfl, rfl⟩
  | tuned => exact ⟨rfl, rfl⟩
  | remoded => exact ⟨rfl, rfl⟩
  | @forgot mode _ _ hf => exact htended (h := { h with mode := mode }) hf.work.served.tended
  | issued _ hi _ _ => exact htended hi.tended
  | freed _ _ _ hr | emptied _ _ _ _ hr => exact htended hr.tended
  | resized _ _ _ _ hcourse _ => exact htended hcourse.tended
  | shifted _ _ _ _ hm => exact htended hm.tended
  | surrendered _ _ _ _ _ => exact absurd rfl (hc _ _ _ _)
  | written _ _ _ _ _ hw => exact htended hw.served.tended

theorem Call.plain_ne (hc : c.plain = true) :
    (∀ ptr off bufNull len, c ≠ .read ptr off bufNull len) ∧ c ≠ .checkHeap ∧
      ∀ mode, (Action.call c).modeAfter mode = mode := by
  cases c with
  | malloc _ | free _ | realloc _ _ | memalign _ _ => simp [Action.modeAfter]
  | _ => exact absurd hc Bool.false_ne_true

theorem Heap.Afloat.call (ha : h.Afloat P L live) (hc : c.plain = true) (hv : c.okFor live = true)
    (ho : h.Offers ((Action.call c).mapping P)) :
    ∃ L', (c.run P h).2.Afloat P L' (c.liveAfter live (c.run P h).1) ∧
      Store.Serves ⟨.libc, h.blocks P live⟩ (.call c) (c.run P h).1
        ⟨.libc, (c.run P h).2.blocks P (c.liveAfter live (c.run P h).1)⟩ := by
  obtain ⟨hread, hcheck, hmode⟩ := Call.plain_ne hc
  obtain ⟨L', he, hK'⟩ := ha.kempt.comes c hv ho
  obtain ⟨hkept, hpage⟩ := he.kept hread
  have hs := he.serves ha.kempt ha.kept (hkept.trans ha.kept) hK' hv fun hck => absurd hck hcheck
  have hmode' := (hs.mode.trans (hmode _)).trans ha.mode
  dsimp only at hmode'
  rw [hmode', ha.mode] at hs
  exact ⟨L', ⟨hK', hkept.trans ha.kept, hmode', hpage.trans ha.pageSize⟩, hs⟩

theorem Heap.Opened.mmSetMode (ho : h.Opened P L) (hs : h.Offers ((Action.call (.setMode .libc)).mapping P)) :
    ∃ L', (mmSetMode P .libc h).2.Afloat P L' [] := by
  obtain ⟨L', he, hK'⟩ := ho.kempt.comes (.setMode .libc) rfl hs
  obtain ⟨hkept, hpage⟩ := he.kept fun _ _ _ _ => Call.noConfusion
  have hserves := he.serves ho.kempt ho.kept (hkept.trans ho.kept) hK' rfl Call.noConfusion
  exact ⟨L', hK', hkept.trans ho.kept, hserves.mode, hpage.trans ho.pageSize⟩

theorem Heap.Afloat.poke {off : Nat} {bs : List UInt8} (ha : h.Afloat P L live) (hp : p ∈ live)
    (hin : off + bs.length ≤ (sizeOfLive P p h).1) :
    (h.withMem (h.mem.storeBytes (p + off) bs)).Afloat P L live :=
  ⟨ha.kempt.poke hp hin, ha.kept, ha.mode, ha.pageSize⟩

theorem Heap.Afloat.alike (ha : h.Afloat P L live) (hal : Alike h h') :
    h'.Afloat P L live ∧ h'.blocks P live = h.blocks P live := by
  have hK := ha.kempt.alike hal
  obtain ⟨_, _, _, _⟩ := hal
  refine ⟨⟨hK, ha.kept, ha.mode, ha.pageSize⟩, Heap.blocks_congr fun q hq => ?_⟩
  exact ha.kempt.held_spares hK ha.kept (X := fun _ => False) ⟨fun _ _ _ _ _ => Iff.rfl, fun _ _ => rfl⟩ hq
    fun _ _ _ _ _ _ hx => hx

theorem Heap.Stocked.offers (hs : h.Stocked bytes A) (hle : n ≤ bytes) : h.Offers n := by
  intro raw hraw
  have hin : some raw ∈ h.supply := List.mem_of_mem_head? hraw
  obtain ⟨h₁, h₂⟩ := hs.low raw hin
  refine ⟨h₁, by omega, fun t ht => ?_⟩
  have := hs.clear raw hin t ht
  omega

/-- A block for `n` bytes has come out at `p`, the first `zeros` of them zero, or none has. -/
inductive Grants (align n zeros : Nat) : Nat → Blocks.Event UInt8 → Prop
  | granted {p : Nat} {bs : List UInt8} (hp : p ≠ 0) (hal : p % 16 = 0) (hal' : p % align = 0)
      (hlen : n ≤ bs.length) (hz : bs.take zeros = List.replicate zeros 0) :
      Grants align n zeros p (.allocated p bs)
  | refused : Grants align n zeros 0 .idle

/-- The block at `ptr` has been resized to `n` bytes and is at `q`, or it has not, or it is gone. -/
inductive Resizes (ptr n : Nat) : Nat → Blocks.Event UInt8 → Prop
  | resized {q : Nat} {bs : List UInt8} (hq : q ≠ 0) (hal : q % 16 = 0) (hlen : n ≤ bs.length) :
      Resizes ptr n q (.resized ptr q n bs)
  | emptied (hz : n = 0) : Resizes ptr n 0 (.freed ptr)
  | unmoved (hz : n ≠ 0) : Resizes ptr n 0 .idle

variable {align m zeros : Nat}

theorem Grants.mono (hg : Grants align n zeros p e) (hle : m ≤ n) : Grants align m 0 p e := by
  cases hg with
  | granted hp hal hal' hlen _ => exact .granted hp hal hal' (hle.trans hlen) rfl
  | refused => exact .refused

theorem Store.Tells.grants (ht : Store.Tells ⟨.libc, S⟩ (.call c) r e) (hn : c.asks = some n) :
    ∃ p, r = .pointer p ∧ Grants c.aligns n 0 p e := by
  have hnone : c.asks = none → ∃ p, r = .pointer p ∧ Grants c.aligns n 0 p e := fun hc =>
    absurd (hc.symm.trans hn) (Option.some_ne_none n).symm
  cases ht with
  | @granted _ m p bs hm hp hal hal' hlen =>
    obtain rfl := Option.some.inj (hm.symm.trans hn)
    exact ⟨p, rfl, .granted hp hal hal' hlen rfl⟩
  | denied _ => exact ⟨0, rfl, .refused⟩
  | resized h0 _ _ _ | emptied h0 _ | unmoved h0 _ => exact hnone (if_neg h0)
  | looked hl _ =>
    cases c with
    | verify _ | checkHeap | scrub _ => exact hnone rfl
    | _ => exact absurd hl Bool.false_ne_true
  | _ => exact hnone rfl

theorem Store.Tells.resizes {ptr size : UInt64} (h0 : ptr.toNat ≠ 0)
    (ht : Store.Tells ⟨.libc, S⟩ (.call (.realloc ptr size)) r e) :
    ∃ q, r = .pointer q ∧ Resizes ptr.toNat size.toNat q e := by
  cases ht with
  | @resized _ _ q _ _ hq hal hlen => exact ⟨q, rfl, .resized hq hal hlen⟩
  | emptied _ hz => exact ⟨0, rfl, .emptied hz⟩
  | unmoved _ hz => exact ⟨0, rfl, .unmoved hz⟩
  | granted hn _ _ _ _ | denied hn =>
    rw [Call.asks, if_neg h0] at hn
    exact absurd hn.symm (Option.some_ne_none _)
  | looked hl _ => exact absurd hl Bool.false_ne_true

end Mars
