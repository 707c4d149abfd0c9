import MarsAllocator.Steps.Sizes

namespace Mars

open ByteMemory

/-- What a block of the tiling is: free, handed out, in use with its canary still to be written, or
given up. -/
inductive Kind where
  | free | live | bare | lost
  deriving DecidableEq

structure Cell where
  size : Nat
  slack : Nat
  crc : Nat
  kind : Kind
  deriving DecidableEq

namespace Cell

variable (P : Profile) (c : Cell)

def used : Bool := c.kind != .free

def quarantined : Bool := c.kind == .lost

def word (prevUsed : Bool) : Nat := mkWord c.size c.slack c.quarantined prevUsed c.used

structure Fits : Prop where
  dvd : c.size % 16 = 0
  min_le : P.minBlock ≤ c.size
  lt : c.size < 2 ^ 58
  slack_lt : c.slack < 128
  trail_le : c.kind = .live → P.trail ≤ c.slack
  slack_le : c.kind = .live → c.slack + P.hdrSize ≤ c.size

/-- What the caller may use of a live cell. -/
def requested : Nat := c.size - P.hdrSize - c.slack

/-- Where the bytes that the allocator vouches for begin again, after the payload. -/
def bodyEnd : Nat :=
  match c.kind with
  | .free => c.size - 8
  | .live => c.size - c.slack
  | .bare | .lost => c.size - P.mirrorSize

/-- Where the mirror of a block in use stands, or the boundary tag of a free one. -/
def tailStart : Nat := if c.used then c.size - P.mirrorSize else c.size - 8

end Cell

/-- The header at `b` is the one of `c`, sealed. -/
structure HeadAt (P : Profile) (κ : Nat) (s : Span) (m : Memory) (b : Nat) (prevUsed : Bool)
    (c : Cell) : Prop where
  word : m.load b 8 = c.word prevUsed
  crc : P.hasCrc = true → m.load (b + 12) 4 = c.crc
  sealed : P.hasCrc = true →
    m.load (b + 8) 4 = hdrCrcOf (c.word prevUsed) c.crc (indexIn s b) κ

/-- The block at `b` is `c`, with all that the allocator keeps in it. -/
structure CellAt (P : Profile) (κ : Nat) (mirrors : Prop) (s : Span) (m : Memory) (b : Nat)
    (prevUsed : Bool) (c : Cell) : Prop extends HeadAt P κ s m b prevUsed c where
  canary : P.hasCanary = true → c.kind = .live →
    m.load (b + c.size - c.slack) 8 = canaryValue (indexIn s b) κ
  tag : c.kind = .free → m.load (b + c.size - 8) 8 = c.size
  mirror : mirrors → P.hasMirror = true → c.used = true →
    m.load (b + c.size - P.hdrSize) P.hdrSize = m.load b P.hdrSize

variable {P : Profile} {κ : Nat} {mirrors : Prop} {s : Span} {m m' : Memory} {b p q : Nat}
  {u u' : Bool} {c d : Cell} {cs ds : List Cell}

theorem Cell.used_iff : c.used = true ↔ c.kind ≠ .free := by
  rw [Cell.used, bne_iff_ne]

theorem Cell.used_of_ne (h : c.kind ≠ .free) : c.used = true := Cell.used_iff.mpr h

theorem Cell.not_used_iff : c.used = false ↔ c.kind = .free := by
  rw [Cell.used]
  cases c.kind <;> decide

theorem HeadAt.congr (hc : HeadAt P κ s m b u c)
    (hm : ∀ a, b ≤ a → a < b + P.hdrSize → m'.byte a = m.byte a) : HeadAt P κ s m' b u c := by
  have hp := P.sizes
  have hload : ∀ a n, b ≤ a → a + n ≤ b + P.hdrSize → m'.load a n = m.load a n := fun a n h₁ h₂ =>
    Memory.load_congr fun x _ _ => hm x (by omega) (by omega)
  refine ⟨?_, fun hcrc => ?_, fun hcrc => ?_⟩
  · rw [hload b 8 (by omega) (by omega)]
    exact hc.word
  · have := Profile.hdrSize_of_crc hcrc
    rw [hload _ _ (by omega) (by omega)]
    exact hc.crc hcrc
  · have := Profile.hdrSize_of_crc hcrc
    rw [hload _ _ (by omega) (by omega)]
    exact hc.sealed hcrc

theorem CellAt.congr (hc : CellAt P κ mirrors s m b u c) (hf : c.Fits P)
    (hm : ∀ a, b ≤ a → a < b + c.size →
      (a < b + P.hdrSize ∨ b + c.bodyEnd P ≤ a) → m'.byte a = m.byte a) :
    CellAt P κ mirrors s m' b u c := by
  have hp := P.sizes
  have hmin := hf.min_le
  have hload : ∀ a n, b ≤ a → a + n ≤ b + c.size →
      (a + n ≤ b + P.hdrSize ∨ b + c.bodyEnd P ≤ a) → m'.load a n = m.load a n := fun a n h₁ h₂ h₃ =>
    Memory.load_congr fun x _ _ => hm x (by omega) (by omega) (by omega)
  have hhead : HeadAt P κ s m' b u c :=
    hc.toHeadAt.congr fun a h₁ h₂ => hm a h₁ (by omega) (.inl h₂)
  refine ⟨hhead, fun hcan hk => ?_, fun hk => ?_, fun hmir hP hu => ?_⟩
  · have hcs : P.canarySize = 8 := by rw [Profile.canarySize, if_pos hcan]
    have ht : P.trail = P.canarySize + P.mirrorSize := rfl
    have := hf.trail_le hk
    have := hf.slack_le hk
    have hb : c.bodyEnd P = c.size - c.slack := by rw [Cell.bodyEnd, hk]
    rw [hload _ _ (by omega) (by omega) (by omega)]
    exact hc.canary hcan hk
  · have hb : c.bodyEnd P = c.size - 8 := by rw [Cell.bodyEnd, hk]
    rw [hload _ _ (by omega) (by omega) (by omega)]
    exact hc.tag hk
  · have hms := Profile.mirrorSize_of_mirror hP
    have ht : P.trail = P.canarySize + P.mirrorSize := rfl
    have hb : c.bodyEnd P ≤ c.size - P.hdrSize := by
      rw [Cell.bodyEnd]
      cases hk : c.kind with
      | free => exact absurd (Cell.used_iff.mp hu) (not_not.mpr hk)
      | live =>
        have := hf.trail_le hk
        dsimp only
        omega
      | bare | lost =>
        dsimp only
        omega
    rw [hload _ _ (by omega) (by omega) (by omega), hload b _ (by omega) (by omega) (by omega)]
    exact hc.mirror hmir hP hu

/-- The header of `c` and what stands at its end. -/
def EdgeBytes (P : Profile) (b : Nat) (c : Cell) (a : Nat) : Prop :=
  b ≤ a ∧ a < b + P.hdrSize ∨ b + c.tailStart P ≤ a ∧ a < b + c.size

def extents (cs : List Cell) : Nat := (cs.map Cell.size).sum

@[simp] theorem extents_nil : extents [] = 0 := rfl

@[simp] theorem extents_cons : extents (c :: cs) = c.size + extents cs := rfl

@[simp] theorem extents_append : extents (cs ++ ds) = extents cs + extents ds := by
  rw [extents, List.map_append, List.sum_append]
  rfl

/-- Whether what ends the cells, met after a block in use or not, is in use. -/
def lastUsed (u : Bool) : List Cell → Bool
  | [] => u
  | c :: cs => lastUsed c.used cs

@[simp] theorem lastUsed_append : lastUsed u (cs ++ ds) = lastUsed (lastUsed u cs) ds := by
  induction cs generalizing u with
  | nil => rfl
  | cons c cs ih => exact ih

/-- The cells stand one after the other from `p` on, no two free ones side by side. -/
def Laid (P : Profile) (κ : Nat) (mirrors : Prop) (s : Span) (m : Memory) :
    (p : Nat) → (prevUsed : Bool) → List Cell → Prop
  | _, _, [] => True
  | p, u, c :: cs => CellAt P κ mirrors s m p u c ∧ c.Fits P ∧ (u = true ∨ c.used = true) ∧
      Laid P κ mirrors s m (p + c.size) c.used cs

/-- Cell `c` of the list stands at `b`. -/
def At : (p : Nat) → List Cell → (b : Nat) → (c : Cell) → Prop
  | _, [], _, _ => False
  | p, d :: cs, b, c => b = p ∧ c = d ∨ At (p + d.size) cs b c

theorem at_iff : At p cs b c ↔ ∃ pre post, cs = pre ++ c :: post ∧ b = p + extents pre := by
  induction cs generalizing p with
  | nil => simp [At]
  | cons d cs ih =>
    rw [At, ih]
    constructor
    · rintro (⟨rfl, rfl⟩ | ⟨pre, post, rfl, rfl⟩)
      · exact ⟨[], cs, rfl, rfl⟩
      · exact ⟨d :: pre, post, rfl, by rw [extents_cons, Nat.add_assoc]⟩
    · rintro ⟨pre, post, he, rfl⟩
      cases pre with
      | nil =>
        obtain ⟨rfl, rfl⟩ := List.cons.inj he
        exact .inl ⟨rfl, rfl⟩
      | cons e pre =>
        obtain ⟨rfl, rfl⟩ := List.cons.inj he
        exact .inr ⟨pre, post, rfl, by rw [extents_cons, Nat.add_assoc]⟩

theorem at_append : At p (cs ++ ds) b c ↔ At p cs b c ∨ At (p + extents cs) ds b c := by
  induction cs generalizing p with
  | nil => simp [At]
  | cons d cs ih => rw [List.cons_append, At, At, ih, extents_cons, or_assoc, Nat.add_assoc]

theorem laid_append : Laid P κ mirrors s m p u (cs ++ ds) ↔
    Laid P κ mirrors s m p u cs ∧ Laid P κ mirrors s m (p + extents cs) (lastUsed u cs) ds := by
  induction cs generalizing p u with
  | nil => simp [Laid, lastUsed]
  | cons c cs ih =>
    rw [List.cons_append, Laid, Laid, ih, extents_cons, Nat.add_assoc, lastUsed]
    tauto

theorem Laid.at (hl : Laid P κ mirrors s m p u cs) (hb : At p cs b c) :
    ∃ u', CellAt P κ mirrors s m b u' c ∧ c.Fits P := by
  induction cs generalizing p u with
  | nil => exact hb.elim
  | cons d cs ih =>
    rcases hb with ⟨rfl, rfl⟩ | hb
    · exact ⟨u, hl.1, hl.2.1⟩
    · exact ih hl.2.2.2 hb

theorem At.bounds (hb : At p cs b c) : p ≤ b ∧ b + c.size ≤ p + extents cs := by
  obtain ⟨pre, post, rfl, rfl⟩ := at_iff.mp hb
  rw [extents_append, extents_cons]
  omega

theorem At.mem (hb : At p cs b c) : c ∈ cs := by
  obtain ⟨pre, post, rfl, rfl⟩ := at_iff.mp hb
  exact List.mem_append_right _ (List.mem_cons_self ..)

theorem At.apart {b' : Nat} {c' : Cell} (hb : At p cs b c) (hb' : At p cs b' c') :
    b = b' ∧ c = c' ∨ b + c.size ≤ b' ∨ b' + c'.size ≤ b := by
  induction cs generalizing p with
  | nil => exact hb.elim
  | cons d cs ih =>
    rcases hb with ⟨rfl, rfl⟩ | hb <;> rcases hb' with ⟨rfl, rfl⟩ | hb'
    · exact .inl ⟨rfl, rfl⟩
    · exact .inr (.inl hb'.bounds.1)
    · exact .inr (.inr hb.bounds.1)
    · exact ih hb hb'

/-- The bytes of the cells that the allocator vouches for. -/
def Held (P : Profile) (p : Nat) (cs : List Cell) (a : Nat) : Prop :=
  ∃ b c, At p cs b c ∧ b ≤ a ∧ a < b + c.size ∧ (a < b + P.hdrSize ∨ b + c.bodyEnd P ≤ a)

theorem Laid.congr (hl : Laid P κ mirrors s m p u cs)
    (hm : ∀ a, Held P p cs a → m'.byte a = m.byte a) : Laid P κ mirrors s m' p u cs := by
  induction cs generalizing p u with
  | nil => trivial
  | cons c cs ih =>
    refine ⟨hl.1.congr hl.2.1 fun a h₁ h₂ h₃ => hm a ⟨p, c, .inl ⟨rfl, rfl⟩, h₁, h₂, h₃⟩, hl.2.1,
      hl.2.2.1, ih hl.2.2.2 fun a => ?_⟩
    rintro ⟨b, d, hb, hd⟩
    exact hm a ⟨b, d, .inr hb, hd⟩

theorem Held.bounds {a : Nat} (ha : Held P p cs a) : p ≤ a ∧ a < p + extents cs := by
  obtain ⟨b, c, hb, h₁, h₂, -⟩ := ha
  have := hb.bounds
  omega

theorem Laid.congr_range (hl : Laid P κ mirrors s m p u cs)
    (hm : ∀ a, p ≤ a → a < p + extents cs → m'.byte a = m.byte a) :
    Laid P κ mirrors s m' p u cs :=
  hl.congr fun a ha => hm a ha.bounds.1 ha.bounds.2

theorem Laid.fits (hl : Laid P κ mirrors s m p u cs) (hc : c ∈ cs) : c.Fits P := by
  obtain ⟨pre, post, rfl⟩ := List.append_of_mem hc
  exact (laid_append.mp hl).2.2.1

end Mars
