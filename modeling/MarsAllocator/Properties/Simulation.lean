import MarsAllocator.Invariant.Held
import MarsAllocator.Properties.Binning
import MarsAllocator.Properties.Requests

namespace Mars

open ByteMemory ByteStore StateProgram

/-- The arena as a program has it: the mode, and the bytes of each block that is out. -/
structure Store where
  mode : Mode
  blocks : Blocks UInt8

def Session.store (P : Profile) (σ : Session) : Store := ⟨σ.heap.mode, σ.heap.blocks P σ.live⟩

/-- The lengths of a block handed out for `n` bytes. -/
def Mode.Sized : Mode → (n : Nat) → (len : Nat) → Prop
  | .managed, n, len => len = n
  | .libc, n, len => n ≤ len

def Action.modeAfter (mode : Mode) : Action → Mode
  | .call (.setMode m) => m
  | _ => mode

def Action.reply (P : Profile) (σ : Session) : Action → Reply
  | .call c => (c.run P σ.heap).1
  | .poke _ _ _ => .void

namespace Store

variable (A : Store)

/-- What an action and the reply to it may come to on the store `A`. -/
inductive Tells : Action → Reply → Blocks.Event UInt8 → Prop
  | granted {c : Call} {n p : Nat} {bs : List UInt8} (hn : c.asks = some n) (hp : p ≠ 0)
      (hal : p % 16 = 0) (hal' : p % c.aligns = 0) (hlen : A.mode.Sized n bs.length) :
      Tells (.call c) (.pointer p) (.allocated p bs)
  | denied {c : Call} {n : Nat} (hn : c.asks = some n) : Tells (.call c) (.pointer 0) .idle
  | freed {ptr : UInt64} (h0 : ptr.toNat ≠ 0) : Tells (.call (.free ptr)) .void (.freed ptr.toNat)
  | nothing {ptr : UInt64} (h0 : ptr.toNat = 0) : Tells (.call (.free ptr)) .void .idle
  | resized {ptr size : UInt64} {q : Nat} {bs : List UInt8} (h0 : ptr.toNat ≠ 0) (hq : q ≠ 0)
      (hal : q % 16 = 0) (hlen : A.mode.Sized size.toNat bs.length) :
      Tells (.call (.realloc ptr size)) (.pointer q) (.resized ptr.toNat q size.toNat bs)
  | emptied {ptr size : UInt64} (h0 : ptr.toNat ≠ 0) (hz : size.toNat = 0) :
      Tells (.call (.realloc ptr size)) (.pointer 0) (.freed ptr.toNat)
  | unmoved {ptr size : UInt64} (h0 : ptr.toNat ≠ 0) (hz : size.toNat ≠ 0) :
      Tells (.call (.realloc ptr size)) (.pointer 0) .idle
  | got {ptr off : UInt64} {bufNull : Bool} {len : UInt64} {bs : List UInt8}
      (hlen : bs.length = len.toNat) :
      Tells (.call (.read ptr off bufNull len)) (.copied (some bs)) (.got ptr.toNat off.toNat bs)
  | unread {ptr off : UInt64} {bufNull : Bool} {len : UInt64} {old : List UInt8}
      (hp : A.blocks ptr.toNat = some old)
      (hwhy : bufNull = true ∧ len.toNat ≠ 0 ∨ old.length < off.toNat + len.toNat) :
      Tells (.call (.read ptr off bufNull len)) (.copied none) .idle
  | wrote {ptr off : UInt64} {src : Source} {bs : List UInt8} (hsrc : src.bytes = some bs) :
      Tells (.call (.write ptr off src)) (.written (some bs.length)) (.wrote ptr.toNat off.toNat bs)
  | unwritten {ptr off : UInt64} {src : Source} {old : List UInt8}
      (hp : A.blocks ptr.toNat = some old)
      (hwhy : ∀ bs, src.bytes = some bs → old.length < off.toNat + bs.length) :
      Tells (.call (.write ptr off src)) (.written none) .idle
  | poked {ptr off : Nat} {bs : List UInt8} : Tells (.poke ptr off bs) .void (.wrote ptr off bs)
  | looked {c : Call} {st : Status} (hl : c.looks = true) (hok : c = .checkHeap → st = .ok) :
      Tells (.call c) (.status st) .idle
  | remoded {mode : Mode} : Tells (.call (.setMode mode)) .void .idle
  | tuned {ops budget : UInt64} : Tells (.call (.setScrubInterval ops budget)) .void .idle

/-- The action `a` on the store `A`, replied to with `r`, leaves `B`. -/
structure Serves (a : Action) (r : Reply) (B : Store) : Prop where
  takes : ∃ e, A.Tells a r e ∧ Blocks.Takes A.blocks e B.blocks
  mode : B.mode = a.modeAfter A.mode

/-- Some actions, with the replies to them. -/
inductive Trace : Store → List (Action × Reply) → Store → Prop
  | done {A : Store} : Trace A [] A
  | next {A B C : Store} {a : Action} {r : Reply} {tr : List (Action × Reply)} (hs : A.Serves a r B)
      (ht : Trace B tr C) : Trace A ((a, r) :: tr) C

end Store

/-- Some valid actions on a session, the platform answering each as it likes. -/
inductive Session.Runs (P : Profile) : Session → List (Action × Reply) → Session → Prop
  | done {σ : Session} : Runs P σ [] σ
  | next {σ σ' : Session} {a : Action} {tr : List (Action × Reply)} (supply : List (Option Nat))
      (hv : a.okFor P (σ.offered supply) = true) (ho : (σ.offered supply).heap.Offers (a.mapping P))
      (hr : Runs P ((σ.offered supply).next P a) tr σ') :
      Runs P σ ((a, a.reply P (σ.offered supply)) :: tr) σ'

variable {P : Profile} {h h' : Heap} {s s' : Span} {b b' n off p q : Nat} {c d : Cell} {call : Call}
  {r : Reply} {L L' : Span → List Cell} {live : List Nat} {bs : List UInt8} {σ σ' : Session} {tr : List (Action × Reply)}

theorem Call.asked (hn : call.asks = some n) (h0 : live.erase 0 = live) :
    call.liveAfter live (.pointer p) = (if p = 0 then live else p :: live) ∧
      ∀ mode, (Action.call call).modeAfter mode = mode := by
  cases call with
  | malloc size => exact ⟨rfl, fun _ => rfl⟩
  | memalign align size => exact ⟨rfl, fun _ => rfl⟩
  | realloc ptr size =>
    have hptr : ptr.toNat = 0 := by
      by_contra hptr
      rw [Call.asks, if_neg hptr] at hn
      exact Option.some_ne_none n hn.symm
    refine ⟨?_, fun _ => rfl⟩
    rw [Call.liveAfter, hptr, h0, ite_self]
    by_cases hp : p = 0
    · rw [if_neg (not_not.mpr hp), if_pos hp]
    · rw [if_pos hp, if_neg hp]
  | _ => exact absurd hn.symm (Option.some_ne_none n)

theorem Heap.Rests.tells (hq : h.Rests P L call r) (hK : h.Kempt P L live) (hw : h.lostBytes = 0)
    (hv : call.okFor live = true) (hok : call = .checkHeap → r = .status .ok) :
    call.liveAfter live r = live ∧ (Action.call call).modeAfter h.mode = h.mode ∧ ∃ e, Store.Tells ⟨h.mode, h.blocks P live⟩ (.call call) r e ∧
      Blocks.Takes (h.blocks P live) e (h.blocks P live) := by
  have hS := hK.thriving.sound
  have hzero : live.erase 0 = live := List.erase_of_not_mem fun h' => hK.backing.ne_zero h' rfl
  cases hq with
  | ungranted hn =>
    obtain ⟨hlive, hmode⟩ := Call.asked (p := 0) hn hzero
    exact ⟨hlive, hmode _, .idle, .denied hn, .idle⟩
  | @null ptr h0 =>
    refine ⟨?_, rfl, .idle, .nothing h0, .idle⟩
    rw [Call.liveAfter, h0, hzero]
  | unmoved h0 hz =>
    refine ⟨?_, rfl, .idle, .unmoved h0 hz, .idle⟩
    rw [Call.liveAfter, if_neg (not_not.mpr rfl), if_neg hz]
  | @copied ptr off bufNull len t b d hp hd hk hin =>
    have hheld : h.blocks P live ptr.toNat = some (h.mem.bytes (b + P.hdrSize) (d.requested P)) := by
      rw [Heap.blocks_of_mem (List.contains_iff_mem.mp hv), hp, hS.held_eq hd hk]
    refine ⟨rfl, rfl, .got ptr.toNat off.toNat _, .got (Memory.length_bytes ..), .got hheld ?_ ?_⟩
    · rw [Memory.length_bytes, Memory.length_bytes]
      exact hin
    · rw [Memory.length_bytes, Memory.drop_bytes, Memory.take_bytes _ (by omega)]
  | @uncopied ptr off bufNull len t b d hp hd hk hwhy =>
    refine ⟨rfl, rfl, .idle, .unread (Heap.blocks_of_mem (List.contains_iff_mem.mp hv)) ?_, .idle⟩
    rw [hp, hS.held_eq hd hk, Memory.length_bytes]
    exact hwhy
  | @unwritten ptr off src t b d hp hd hk hwhy =>
    refine ⟨rfl, rfl, .idle, .unwritten (Heap.blocks_of_mem (List.contains_iff_mem.mp hv)) ?_, .idle⟩
    rw [hp, hS.held_eq hd hk, Memory.length_bytes]
    exact hwhy
  | looked hl =>
    have hst : call = .checkHeap → _ := fun hc => Reply.status.inj (hok hc)
    cases call with
    | verify _ | checkHeap | scrub _ => exact ⟨rfl, rfl, .idle, .looked hl hst, .idle⟩
    | _ => exact absurd hl Bool.false_ne_true
  | lost hd hk => exact absurd hk (hK.thriving.not_lost hw hd)

theorem take_held {old now : List UInt8} {m a a' k k' : Nat} {μ μ' : Memory} (ho : old = μ.bytes a k)
    (hn : now = μ'.bytes a' k') (hk : m ≤ k) (hk' : m ≤ k')
    (hb : ∀ i < m, μ'.byte (a' + i) = μ.byte (a + i)) : now.take m = old.take m := by
  rw [ho, hn, Memory.take_bytes _ hk, Memory.take_bytes _ hk']
  refine List.ext_getElem (by rw [Memory.length_bytes, Memory.length_bytes]) fun i hi _ => ?_
  rw [Memory.length_bytes] at hi
  rw [Memory.getElem_bytes, Memory.getElem_bytes, hb i hi]

theorem Cell.sized {mode : Mode} (hg : c.requested P = c.grant P mode n) (hs : c.Suits P n)
    (bs : List UInt8) (hb : bs.length = c.requested P) : mode.Sized n bs.length := by
  have hle := hs.le
  cases mode with
  | managed => exact hb.trans hg
  | libc =>
    rw [Cell.grant, if_pos rfl] at hg
    rw [Mode.Sized, hb, hg]
    omega

theorem Heap.Kempt.takes_put {S : Blocks UInt8} (hK' : h'.Kempt P L' (p :: live)) (hw' : h'.lostBytes = 0)
    (hS : h'.blocks P live = S) :
    h'.blocks P (p :: live) = S.put p (h'.held P p) ∧ S.Clear p (h'.held P p).length := by
  have hput : h'.blocks P (p :: live) = S.put p (h'.held P p) := hS ▸ Heap.blocks_cons
  have hout : S p = none := by
    rw [← hS, Heap.blocks_of_notMem (List.nodup_cons.mp hK'.backing.nodup).1]
  exact ⟨hput, (hput ▸ hK'.blocks_apart hw').clear hout⟩

theorem Heap.Kempt.takes_resized (hK : h.Kempt P L live) (hw' : h'.lostBytes = 0) (hp : p = b + P.hdrSize)
    (hmem : p ∈ live) (hc : h.CellIn L s b c) (hk : c.kind = .live) (hq : q = b' + P.hdrSize)
    (hK' : h'.Kempt P L' (q :: live.erase p)) (hd : h'.CellIn L' s' b' d) (hk' : d.kind = .live)
    (hrest : ∀ x ∈ live.erase p, h'.held P x = h.held P x) (hn : n ≤ d.requested P)
    (hb : ∀ i < min (c.requested P) n, h'.mem.byte (q + i) = h.mem.byte (p + i)) :
    Blocks.Takes (h.blocks P live) (.resized p q n (h'.held P q)) (h'.blocks P (q :: live.erase p)) := by
  have hsame : h'.blocks P (live.erase p) = (h.blocks P live).drop p := by
    rw [← Heap.blocks_erase hK.backing.nodup]
    exact Heap.blocks_congr hrest
  obtain ⟨hput, hclear⟩ := hK'.takes_put hw' hsame
  have hold : h.held P p = h.mem.bytes p (c.requested P) := hp ▸ hK.thriving.sound.held_eq hc hk
  have hnow : h'.held P q = h'.mem.bytes q (d.requested P) := hq ▸ hK'.thriving.sound.held_eq hd hk'
  rw [hput]
  refine .resized (Heap.blocks_of_mem hmem) hclear ?_
  rw [hold, Memory.length_bytes]
  exact take_held rfl hnow (by omega) (by omega) hb

theorem Heap.Written.held (hwr : h.Written P s b c off bs L h' L') (hS : h.Sound P L)
    (hc : h.CellIn L s b c) (hk : c.kind = .live) (hin : off + bs.length ≤ c.requested P) :
    h'.held P (b + P.hdrSize) = splice (h.held P (b + P.hdrSize)) off bs := by
  obtain ⟨v, hv⟩ := hwr.cell
  have hkv : (c.summed v).kind = .live := hk
  have hreq : (c.summed v).requested P = c.requested P := rfl
  rw [hwr.sound.held_eq hv hkv, hS.held_eq hc hk, hreq, splice, ← Memory.bytes_storeBytes_within _ hin]
  exact Memory.bytes_eq_iff.mpr (Memory.load_congr fun a h₁ h₂ => hwr.bytes a h₁ h₂)

namespace Heap.Effect

variable (hK : h.Kempt P L live) (hw : h.lostBytes = 0) (hw' : h'.lostBytes = 0)
include hK hw hw'

theorem serves (he : h.Effect P L call r h' L') (hK' : h'.Kempt P L' (call.liveAfter live r))
    (hv : call.okFor live = true) (hok : call = .checkHeap → r = .status .ok) :
    Store.Serves ⟨h.mode, h.blocks P live⟩ (.call call) r
      ⟨h'.mode, h'.blocks P (call.liveAfter live r)⟩ := by
  have hS := hK.thriving.sound
  have hS' := hK'.thriving.sound
  have hp := P.sizes
  have hnodup := hK.backing.nodup
  have hframe : ∀ {X : Nat → Prop} {l : List Nat}, h.Spares P X L h' L' → (∀ q ∈ l, q ∈ live) →
      (∀ q ∈ l, ∀ t x d, q = x + P.hdrSize → h.CellIn L t x d → d.kind = .live → ¬ X x) →
        h'.blocks P l = h.blocks P l := fun hs hl hX =>
    Heap.blocks_congr fun q hq => hK.held_spares hK' hw hs (hl q hq) (hX q hq)
  have hall : h.Spares P (fun _ => False) L h' L' → h'.blocks P live = h.blocks P live := fun hs =>
    hframe hs (fun _ hq => hq) fun _ _ _ _ _ _ _ _ hx => hx
  -- the blocks but the one at `p`
  have hrest : ∀ {p x : Nat}, p = x + P.hdrSize → h.Spares P (· = x) L h' L' →
      h'.blocks P (live.erase p) = (h.blocks P live).drop p := by
    intro p x hpx hs
    rw [← Heap.blocks_erase hnodup]
    refine hframe hs (fun _ hq => List.mem_of_mem_erase hq) fun q hq t y d hy _ _ hxy => ?_
    rw [hy, hxy, ← hpx] at hq
    exact hnodup.not_mem_erase hq
  have hout : ∀ {ptr : UInt64} {x : Nat}, ptr.toNat = x + P.hdrSize →
      ptr.toNat = 0 ∨ ptr.toNat ∈ live → h.blocks P live ptr.toNat = some (h.held P ptr.toNat) :=
    fun hpx hv => Heap.blocks_of_mem (hv.resolve_left (by omega))
  cases he with
  | stayed _ hq hs =>
    obtain ⟨hlive, hmode, e, ht, hts⟩ := hq.tells hK hw hv hok
    rw [hlive]
    exact ⟨⟨e, ht, (hall hs.spares).symm ▸ hts⟩, hs.tended.mode.trans hmode.symm⟩
  | alike _ hq ha _ =>
    obtain ⟨hlive, hmode, e, ht, hts⟩ := hq.tells hK hw hv hok
    obtain ⟨_, _, _, _⟩ := ha
    rw [hlive]
    exact ⟨⟨e, ht, (hall ⟨fun _ _ _ _ _ => Iff.rfl, fun _ _ => rfl⟩).symm ▸ hts⟩, hmode.symm⟩
  | tuned =>
    exact ⟨⟨.idle, .tuned, (hall ⟨fun _ _ _ _ _ => Iff.rfl, fun _ _ => rfl⟩).symm ▸ .idle⟩, rfl⟩
  | remoded =>
    exact ⟨⟨.idle, .remoded, (hall ⟨fun _ _ _ _ _ => Iff.rfl, fun _ _ => rfl⟩).symm ▸ .idle⟩, rfl⟩
  | @forgot mode _ _ hf =>
    have hsame : h'.blocks P live = h.blocks P live := Heap.blocks_congr fun q hq => by
      obtain ⟨t, x, d, rfl, hd, hkd⟩ := hK.live_cell hw hq
      have hd' : h'.CellIn L' t x d.unsummed := Heap.Forgot.cell (h := { h with mode := mode }) hf hd
      rw [hS'.held_eq hd' hkd, hS.held_eq hd hkd]
      refine Memory.bytes_eq_iff.mpr (Memory.load_congr fun a h₁ h₂ => ?_)
      obtain ⟨i, rfl⟩ := Nat.exists_eq_add_of_le h₁
      have hreq : d.unsummed.requested P = d.requested P := rfl
      exact hf.bytes _ (hd.kept hkd (hS.tiled.plan.cell_fits hd) id (by omega))
    exact ⟨⟨.idle, .remoded, hsame.symm ▸ .idle⟩, hf.work.served.mode⟩
  | @issued _ t x n d _ _ hn hi hal hz =>
    obtain ⟨hlive, hmode⟩ := Call.asked (p := x + P.hdrSize) hn
      (List.erase_of_not_mem fun h' => hK.backing.ne_zero h' rfl)
    rw [if_neg (by omega)] at hlive
    rw [hlive] at hK' ⊢
    have hsame : h'.blocks P live = h.blocks P live :=
      hframe hi.spares (fun _ hq => hq) fun q _ u y e _ he hk hyx => by
        have hfree := hi.vacant u e (hyx ▸ he)
        rw [hk] at hfree
        exact absurd hfree (by decide)
    obtain ⟨hput, hclear⟩ := hK'.takes_put hw' hsame
    have hlen : (h'.held P (x + P.hdrSize)).length = d.requested P := by
      rw [hS'.held_eq hi.cell hi.live, Memory.length_bytes]
    refine ⟨⟨_, .granted hn (by omega) (hi.thriving.payload_aligned hi.cell) hal
      (Cell.sized hi.granted hi.suits _ hlen), hput.symm ▸ .allocated hclear⟩,
      hi.tended.mode.trans (hmode h.mode).symm⟩
  | @freed ptr t x d _ _ hpx hd hk hr =>
    rw [Call.liveAfter]
    exact ⟨⟨_, .freed (by omega), (hrest hpx hr.spares).symm ▸ .freed (hout hpx (toNat_of_okFor hv))⟩,
      hr.tended.mode⟩
  | @emptied ptr size t x d _ _ hpx hz hd hk hr =>
    rw [Call.liveAfter, if_neg (not_not.mpr rfl), if_pos hz]
    exact ⟨⟨_, .emptied (by omega) hz,
      (hrest hpx hr.spares).symm ▸ .freed (hout hpx (toNat_of_okFor hv))⟩, hr.tended.mode⟩
  | @resized ptr size t x d d' _ _ hpx hz hd hk hcourse hr =>
    have hlive : (Call.realloc ptr size).liveAfter live (.pointer (x + P.hdrSize)) =
        (x + P.hdrSize) :: live.erase ptr.toNat := if_pos (by omega)
    rw [hlive] at hK' ⊢
    have hlen : (h'.held P (x + P.hdrSize)).length = d'.requested P := by
      rw [hS'.held_eq hr.cell hr.live, Memory.length_bytes]
    have hkeep : ∀ q ∈ live.erase ptr.toNat, h'.held P q = h.held P q := fun q hq =>
      hK.held_spares hK' hw hr.spares (List.mem_of_mem_erase hq) fun v z e hz _ _ hx => by
        rw [hz, hx, ← hpx] at hq
        exact hnodup.not_mem_erase hq
    exact ⟨⟨_, .resized (by omega) (by omega) (hcourse.thriving.payload_aligned hr.cell)
      (Cell.sized hr.granted hr.suits _ hlen), hK.takes_resized hw' hpx
        ((toNat_of_okFor hv).resolve_left (by omega)) hd hk rfl hK' hr.cell hr.live hkeep
        (hr.granted ▸ (hr.suits.grant h.mode).2.2)
        fun i hi => hpx ▸ hr.bytes _ (by omega) (by omega) (by omega)⟩, hcourse.tended.mode⟩
  | @shifted ptr size t u x y d d' _ _ hpx hz hd hk hm =>
    have hlive : (Call.realloc ptr size).liveAfter live (.pointer (y + P.hdrSize)) =
        (y + P.hdrSize) :: live.erase ptr.toNat := if_pos (by omega)
    rw [hlive] at hK' ⊢
    have hlen : (h'.held P (y + P.hdrSize)).length = d'.requested P := by
      rw [hS'.held_eq hm.cell hm.live, Memory.length_bytes]
    have hkeep : ∀ q ∈ live.erase ptr.toNat, h'.held P q = h.held P q := fun q hq =>
      hK.held_spares hK' hw hm.spares (List.mem_of_mem_erase hq) fun v z e hz he hke hx =>
        hx.elim (fun hx => by
          rw [hz, hx, ← hpx] at hq
          exact hnodup.not_mem_erase hq) fun hx => by
          have hfree := hm.vacant v e (hx ▸ he)
          rw [hke] at hfree
          exact absurd hfree (by decide)
    exact ⟨⟨_, .resized (by omega) (by omega) (hm.thriving.payload_aligned hm.cell)
      (Cell.sized hm.granted hm.suits _ hlen), hK.takes_resized hw' hpx
        ((toNat_of_okFor hv).resolve_left (by omega)) hd hk rfl hK' hm.cell hm.live hkeep
        (hm.granted ▸ (hm.suits.grant h.mode).2.2) fun i hi => hpx ▸ hm.bytes i hi⟩, hm.tended.mode⟩
  | @surrendered _ _ _ _ t x d _ _ hpx hd hk hbad hs =>
    have hlost := hs.served.lostBytes
    change _ = h.lostBytes + d.size at hlost
    have := (hS.tiled.plan.cell_fits hd).pos
    omega
  | @written ptr off src bs t x d _ _ hpx hd hk hsrc hin hwr =>
    have hpl : ptr.toNat ∈ live := List.contains_iff_mem.mp hv
    have hput : h'.blocks P live = (h.blocks P live).put ptr.toNat (h'.held P ptr.toNat) :=
      Heap.blocks_put hpl fun q hq hne => hK.held_spares hK' hw hwr.spares hq fun u y e hy _ _ hxy => by
        rw [hy, hxy, ← hpx] at hne
        exact hne rfl
    have hnow := hwr.held hS hd hk hin
    rw [← hpx] at hnow
    refine ⟨⟨_, .wrote hsrc, ?_⟩, hwr.served.mode⟩
    change Blocks.Takes _ _ (h'.blocks P live)
    rw [hput, hnow]
    refine .wrote (Heap.blocks_of_mem hpl) ?_
    rw [hpx, hS.held_eq hd hk, Memory.length_bytes]
    exact hin

end Heap.Effect

theorem Heap.Kempt.blocks_asked (hK : h.Kempt P L live) (hw : h.lostBytes = 0)
    (supply : List (Option Nat)) : { h with supply := supply }.blocks P live = h.blocks P live :=
  Heap.blocks_congr fun _ hq => hK.held_spares (X := fun _ => False) (hK.asked supply) hw
    ⟨fun _ _ _ _ _ => Iff.rfl, fun _ _ => rfl⟩ hq fun _ _ _ _ _ _ hx => hx

theorem Heap.Kempt.takes_poke (hK : h.Kempt P L live) (hw : h.lostBytes = 0) (hp : p ∈ live)
    (hin : off + bs.length ≤ (sizeOfLive P p h).1) :
    Blocks.Takes (h.blocks P live) (.wrote p off bs)
      ((h.withMem (h.mem.storeBytes (p + off) bs)).blocks P live) := by
  obtain ⟨m, hm⟩ : ∃ m, m = h.mem.storeBytes (p + off) bs := ⟨_, rfl⟩
  have hK' : (h.withMem m).Kempt P L live := hm ▸ hK.poke hp hin
  have hS := hK.thriving.sound
  obtain ⟨s, b, c, hpb, hc, hk⟩ := hK.live_cell hw hp
  have hfit := (hS.tiled.plan.cell_fits hc).slack_le hk
  have hreq : c.requested P = c.size - P.hdrSize - c.slack := rfl
  have hold : h.held P p = h.mem.bytes p (c.requested P) := hpb ▸ hS.held_eq hc hk
  have hnow : (h.withMem m).held P p = m.bytes p (c.requested P) :=
    hpb ▸ hK'.thriving.sound.held_eq (h := h.withMem m) hc hk
  have hlen : (sizeOfLive P p h).1 = c.requested P := by
    rw [hpb, hS.sizeOfLive hc (.inl hk), if_pos hk]
  rw [hlen] at hin
  rw [← hm]
  have hput : (h.withMem m).blocks P live = (h.blocks P live).put p ((h.withMem m).held P p) := by
    refine Heap.blocks_put hp fun q hq hne => ?_
    obtain ⟨t, x, d, hqx, hd, hkd⟩ := hK.live_cell hw hq
    have hfit' := (hS.tiled.plan.cell_fits hd).slack_le hkd
    have hreq' : d.requested P = d.size - P.hdrSize - d.slack := rfl
    have hold' : h.held P q = h.mem.bytes q (d.requested P) := hqx ▸ hS.held_eq hd hkd
    have hnow' : (h.withMem m).held P q = m.bytes q (d.requested P) :=
      hqx ▸ hK'.thriving.sound.held_eq (h := h.withMem m) hd hkd
    rw [hold', hnow', hm]
    refine Memory.bytes_eq_iff.mpr (Memory.load_store_of_disjoint ?_)
    rcases hS.tiled.plan.apart hd hc with ⟨-, hx, -⟩ | hap
    · exact absurd (hqx.trans (hx ▸ hpb.symm)) hne
    · omega
  rw [hput, hnow, hm, Memory.bytes_storeBytes_within _ hin, ← hold]
  refine .wrote (Heap.blocks_of_mem hp) ?_
  rw [hold, Memory.length_bytes]
  exact hin

theorem Arrived.serves {a : Action} (hr : Arrived P Action.any σ) (supply : List (Option Nat))
    (hv : a.okFor P (σ.offered supply) = true) (ho : (σ.offered supply).heap.Offers (a.mapping P))
    (hw : ((σ.offered supply).next P a).heap.lostBytes = 0) :
    (σ.store P).Serves a (a.reply P (σ.offered supply)) (((σ.offered supply).next P a).store P) := by
  have hle := (σ.offered supply).lost_next (P := P) a
  have hw₀ : σ.heap.lostBytes = 0 := by
    change σ.heap.lostBytes ≤ _ at hle
    omega
  obtain ⟨L, hK⟩ := hr.kempt hw₀
  have hK₁ : (σ.offered supply).heap.Kempt P L σ.live := hK.asked supply
  have hstore : σ.store P = ⟨(σ.offered supply).heap.mode, (σ.offered supply).heap.blocks P σ.live⟩ :=
    congrArg (Store.mk σ.heap.mode) (hK.blocks_asked hw₀ supply).symm
  rw [hstore]
  cases a with
  | call c =>
    obtain ⟨L', he, hK'⟩ := hK₁.comes c hv ho
    refine he.serves hK₁ hw₀ hw hK' hv fun hc => ?_
    rw [hc]
    exact congrArg Reply.status hK₁.mmCheckHeap
  | poke ptr off bs =>
    rw [Action.okFor, Bool.and_eq_true, decide_eq_true_eq, List.contains_iff_mem] at hv
    exact ⟨⟨_, .poked, hK₁.takes_poke hw₀ hv.1 hv.2⟩, rfl⟩

theorem Session.Runs.lost_le (hruns : σ.Runs P tr σ') : σ.heap.lostBytes ≤ σ'.heap.lostBytes := by
  induction hruns with
  | done => exact le_rfl
  | next supply _ _ _ ih => exact ((Session.offered _ supply).lost_next (P := P) _).trans ih

/-- Every run of a session that loses nothing is one of a store of bytes. -/
theorem runs_simulate_store (hr : Arrived P Action.any σ) (hruns : σ.Runs P tr σ')
    (hw : σ'.heap.lostBytes = 0) : (σ.store P).Trace tr (σ'.store P) := by
  induction hruns with
  | done => exact .done
  | next supply hv ho hruns ih =>
    have hle := hruns.lost_le
    exact .next (hr.serves supply hv ho (by omega)) (ih (hr.step supply rfl hv ho) hw)

def Session.eight : Session :=
  ((Session.start (Buffer.kilo .hardened) ⟨0⟩ 1).offered []).next .hardened (.call (.malloc 8))

def Session.eightWritten : Session :=
  (Session.eight.offered []).next .hardened (.call (.write 4112 2 (.data [1, 2, 3])))

def Session.eightAndFive : Session :=
  (Session.eightWritten.offered []).next .hardened (.call (.malloc 5))

theorem eight_arrived : Arrived .hardened Action.any Session.eight :=
  (Arrived.brought (Buffer.kilo .hardened) ⟨0⟩ 1).step [] rfl (by decide) (Heap.offers_of_none rfl)

theorem eight_wrote : (Action.call (.write 4112 2 (.data [1, 2, 3]))).reply .hardened
    (Session.eight.offered []) = .written (some 3) := by
  decide +kernel

theorem eight_runs : Session.eight.Runs .hardened
    ((.call (.write 4112 2 (.data [1, 2, 3])), .written (some 3)) ::
      ([(.call (.malloc 5), (Action.call (.malloc 5)).reply .hardened (Session.eightWritten.offered []))] ++
        [(.call (.read 4112 2 false 3),
          (Action.call (.read 4112 2 false 3)).reply .hardened (Session.eightAndFive.offered []))]))
    ((Session.eightAndFive.offered []).next .hardened (.call (.read 4112 2 false 3))) :=
  eight_wrote ▸ .next [] (by decide +kernel) (Heap.offers_of_none rfl)
    (.next [] (by decide +kernel) (Heap.offers_of_none rfl)
      (.next [] (by decide +kernel) (Heap.offers_of_none rfl) .done))

theorem runs_simulate_store_eight : (Session.eight.store .hardened).Trace
    ((.call (.write 4112 2 (.data [1, 2, 3])), .written (some 3)) ::
      ([(.call (.malloc 5), (Action.call (.malloc 5)).reply .hardened (Session.eightWritten.offered []))] ++
        [(.call (.read 4112 2 false 3),
          (Action.call (.read 4112 2 false 3)).reply .hardened (Session.eightAndFive.offered []))]))
    (((Session.eightAndFive.offered []).next .hardened (.call (.read 4112 2 false 3))).store .hardened) :=
  runs_simulate_store eight_arrived eight_runs (by decide +kernel)

def Action.touches (p : Nat) : Action → Bool
  | .call (.free ptr) | .call (.realloc ptr _) | .call (.write ptr _ _) => ptr.toNat == p
  | .poke ptr _ _ => ptr == p
  | _ => false

namespace Store

variable {A B : Store} {a : Action}

theorem Tells.touches {e : Blocks.Event UInt8} (ht : A.Tells a r e) (he : e.changes p) :
    a.touches p = true := by
  cases ht with
  | freed _ | resized _ _ _ _ | emptied _ _ | wrote _ | poked =>
    rw [show p = _ from he]
    exact beq_self_eq_true _
  | _ => exact he.elim

theorem Serves.keeps (hs : A.Serves a r B) (hp : A.blocks p = some bs) (ha : a.touches p = false) :
    B.blocks p = some bs := by
  obtain ⟨e, ht, hts⟩ := hs.takes
  exact hts.keeps hp fun he => by
    rw [ht.touches he] at ha
    exact Bool.false_ne_true ha.symm

theorem Trace.keeps (ht : A.Trace tr B) (hp : A.blocks p = some bs)
    (ha : ∀ x ∈ tr, x.1.touches p = false) : B.blocks p = some bs := by
  induction ht with
  | done => exact hp
  | next hs _ ih =>
    exact ih (hs.keeps hp (ha _ List.mem_cons_self)) fun x hx => ha x (List.mem_cons_of_mem _ hx)

end Store

theorem Store.Trace.split {A C : Store} {tr tr' : List (Action × Reply)} (ht : A.Trace (tr ++ tr') C) :
    ∃ B : Store, A.Trace tr B ∧ B.Trace tr' C := by
  induction tr generalizing A with
  | nil => exact ⟨A, .done, ht⟩
  | cons x tr ih =>
    cases ht with
    | next hs ht =>
      obtain ⟨B, h₁, h₂⟩ := ih ht
      exact ⟨B, .next hs h₁, h₂⟩

theorem Store.Serves.wrote {A B : Store} {ptr off : UInt64} {src : Source} {k : Nat}
    (hs : A.Serves (.call (.write ptr off src)) (.written (some k)) B) (hsrc : src.bytes = some bs) :
    ∃ old, off.toNat + bs.length ≤ old.length ∧
      B.blocks ptr.toNat = some (splice old off.toNat bs) := by
  obtain ⟨e, ht, hts⟩ := hs.takes
  cases ht with
  | wrote hsrc' =>
    obtain rfl := Option.some.inj (hsrc.symm.trans hsrc')
    generalize hB : B.blocks = S at hts
    cases hts with
    | @wrote _ _ old _ hp hin => exact ⟨old, hin, hB ▸ Blocks.put_self ..⟩

theorem Store.Serves.got {A B : Store} {ptr off len : UInt64} {old : List UInt8}
    (hs : A.Serves (.call (.read ptr off false len)) r B) (hp : A.blocks ptr.toNat = some old)
    (hin : off.toNat + len.toNat ≤ old.length) :
    r = .copied (some ((old.drop off.toNat).take len.toNat)) := by
  obtain ⟨e, ht, hts⟩ := hs.takes
  generalize B.blocks = S at hts
  cases ht with
  | got hcs =>
    cases hts with
    | got hp' _ hb =>
      obtain rfl := Option.some.inj (hp.symm.trans hp')
      rw [← hcs, ← hb]
  | unread hp' hwhy =>
    obtain rfl := Option.some.inj (hp.symm.trans hp')
    rcases hwhy with ⟨hnull, -⟩ | hout
    · exact absurd hnull Bool.false_ne_true
    · omega
  | granted hn | denied hn => exact absurd hn.symm (Option.some_ne_none _)
  | looked hl => exact absurd hl Bool.false_ne_true

/-- What `mm_write` has put into a block, `mm_read` gets out of it again, whatever is done in
between that does not free, resize or write to that block. -/
theorem reads_last_write {ptr off len : UInt64} {src : Source} {k : Nat}
    (hr : Arrived P Action.any σ) (hruns : σ.Runs P ((.call (.write ptr off src), .written (some k)) ::
      (tr ++ [(.call (.read ptr off false len), r)])) σ') (hw : σ'.heap.lostBytes = 0)
    (hsrc : src.bytes = some bs) (hlen : len.toNat = bs.length)
    (hkeep : ∀ x ∈ tr, x.1.touches ptr.toNat = false) : r = .copied (some bs) := by
  cases runs_simulate_store hr hruns hw with
  | next hwrite ht =>
    obtain ⟨B, hmid, hlast⟩ := ht.split
    obtain ⟨old, hin, hput⟩ := hwrite.wrote hsrc
    cases hlast with
    | next hread _ =>
      rw [hread.got (hmid.keeps hput hkeep) (by rw [length_splice hin]; omega), hlen, splice_read hin]

theorem reads_last_write_eight : (Action.call (.read 4112 2 false 3)).reply .hardened
    (Session.eightAndFive.offered []) = .copied (some [1, 2, 3]) :=
  reads_last_write eight_arrived eight_runs (by decide +kernel) rfl rfl (by decide +kernel)

end Mars
