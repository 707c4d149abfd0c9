import MarsAllocator.Steps.Index

namespace Mars

open LinearProbe

namespace Registry

variable {r r' : Registry} {u x s : Nat} {ok : Bool}

/-- The counters are right, and more than half of the slots are empty. -/
structure Kept (r : Registry) : Prop where
  good : r.index.Good
  used : r.index.filled = r.used
  live : r.index.entries = r.live
  room : 2 * r.used < r.index.cap

/-- The index and its counters apart, nothing has changed. -/
structure SameDesc (r r' : Registry) : Prop where
  user : r'.user = r.user
  desc : r'.desc = r.desc

theorem SameDesc.trans {r'' : Registry} (h : SameDesc r r') (h' : SameDesc r' r'') :
    SameDesc r r'' :=
  ⟨h'.user.trans h.user, h'.desc.trans h.desc⟩

theorem Kept.filled_lt (hk : r.Kept) : r.index.filled < r.index.cap := by
  have := hk.room
  rw [hk.used]
  omega

theorem kept_start (desc : Nat → Descriptor) (supply : List Bool) : (start desc supply).Kept :=
  ⟨Index.good_blank (k := 10) rfl, Index.count_blank _ _ _ rfl, Index.count_blank _ _ _ rfl,
    show 2 * 0 < indexStatic by decide⟩

theorem indexRehash_spec (hk : r.Kept) : ∃ r' ok, r.indexRehash = some (r', ok) ∧ r'.Kept ∧
    SameDesc r r' ∧ (∀ u x, r'.index.Files u x ↔ r.index.Files u x) ∧
    (ok = true → (r'.used + 1) * 2 < r'.index.cap) := by
  rw [indexRehash]
  rcases r.supply with _ | ⟨answer, rest⟩
  · exact ⟨r, false, rfl, hk, ⟨rfl, rfl⟩, fun _ _ => Iff.rfl, by simp⟩
  cases answer with
  | false =>
    exact ⟨_, false, rfl, ⟨hk.good, hk.used, hk.live, hk.room⟩, ⟨rfl, rfl⟩, fun _ _ => Iff.rfl,
      by simp⟩
  | true =>
    obtain ⟨⟨k, hcap⟩, hlarge⟩ := rehashCap_spec r.live
    have hstart : r.index.Copied (r.index.cap - r.index.cap) (Index.blank (rehashCap r.live)) := by
      rw [Nat.sub_self]
      refine ⟨Index.good_blank hcap, fun u x => ?_, Index.count_blank _ _ _ rfl,
        Index.count_blank _ _ _ rfl⟩
      exact iff_of_false (Index.blank_files _) (by simp)
    have hroom : r.index.entries < (Index.blank (rehashCap r.live)).cap := by
      have hlive := hk.live
      change r.index.entries < rehashCap r.live
      omega
    obtain ⟨ix, hre, hc, hcap'⟩ := rehashFrom_spec hk.good (le_refl _) hstart hroom
    have hblank : (Index.blank (rehashCap r.live)).cap = rehashCap r.live := rfl
    rw [hblank] at hcap'
    refine ⟨{ r with index := ix, used := r.live, supply := rest }, true, ?_, ⟨hc.good,
      hc.filled.trans hk.live, hc.entries.trans hk.live, ?_⟩, ⟨rfl, rfl⟩, hc.files, fun _ => ?_⟩
    · change Option.map _ (rehashFrom r.index r.index.cap (Index.blank (rehashCap r.live))) = _
      rw [hre, Option.map_some]
    · change 2 * r.live < ix.cap
      omega
    · change (r.live + 1) * 2 < ix.cap
      omega

theorem indexReserve_spec (hk : r.Kept) : ∃ r' ok, r.indexReserve = some (r', ok) ∧ r'.Kept ∧
    SameDesc r r' ∧ (∀ u x, r'.index.Files u x ↔ r.index.Files u x) ∧
    (ok = true → (r'.used + 1) * 2 < r'.index.cap) := by
  rw [indexReserve]
  split
  · exact indexRehash_spec hk
  · exact ⟨r, true, rfl, hk, ⟨rfl, rfl⟩, fun _ _ => Iff.rfl, fun _ => by omega⟩

theorem indexAdd_spec (hk : r.Kept) (hs : RealSpan s) (hno : ∀ x, ¬ r.index.Files u x) :
    ∃ r' ok, r.indexAdd u s = some (r', ok) ∧ r'.Kept ∧ SameDesc r r' ∧
      ∀ u' x, r'.index.Files u' x ↔ (ok = true ∧ u' = u ∧ x = s) ∨ r.index.Files u' x := by
  obtain ⟨r₁, ok, hres, hk₁, hd, hf, hroom⟩ := indexReserve_spec hk
  rw [indexAdd, hres, Option.bind_some]
  cases ok with
  | false => exact ⟨r₁, false, rfl, hk₁, hd, by simpa using hf⟩
  | true =>
    have hno₁ : ∀ x, ¬ r₁.index.Files u x := fun x hx => hno x ((hf u x).mp hx)
    obtain ⟨ix, hput, hp⟩ := hk₁.good.put hk₁.filled_lt hs hno₁
    refine ⟨{ r₁ with index := ix, used := r₁.used + 1, live := r₁.live + 1 }, true, ?_,
      ⟨hp.good, ?_, ?_, ?_⟩, hd.trans ⟨rfl, rfl⟩, ?_⟩
    · change Option.map _ (indexPut r₁.index u s) = _
      rw [hput, Option.map_some]
    · change ix.filled = r₁.used + 1
      rw [hp.filled, hk₁.used]
    · change ix.entries = r₁.live + 1
      rw [hp.entries, hk₁.live]
    · change 2 * (r₁.used + 1) < ix.cap
      have := hroom rfl
      rw [hp.cap]
      omega
    · intro u' x
      refine (hp.files u' x).trans ?_
      rw [hf]
      simp

theorem indexDel_spec (hk : r.Kept) (u : Nat) : (r.indexDel u).Kept ∧ SameDesc r (r.indexDel u) ∧
    ∀ u' x, (r.indexDel u).index.Files u' x ↔ u' ≠ u ∧ r.index.Files u' x := by
  have hmiss : (∀ i, r.index.probe u = some i → (r.index.slot i).span = 0) →
      ∀ u' x, r.index.Files u' x ↔ u' ≠ u ∧ r.index.Files u' x := by
    intro hm u' x
    refine ⟨fun hf => ⟨?_, hf⟩, fun hf => hf.2⟩
    rintro rfl
    exact hk.good.missing hm hf
  rcases hp : r.index.probe u with _ | i
  · have he : r.indexDel u = r := by rw [indexDel, hp]
    rw [he]
    exact ⟨hk, ⟨rfl, rfl⟩, hmiss (by simp [hp])⟩
  by_cases h0 : (r.index.slot i).span = 0
  · have he : r.indexDel u = r := by
      rw [indexDel, hp]
      exact if_pos h0
    rw [he]
    refine ⟨hk, ⟨rfl, rfl⟩, hmiss fun j hj => ?_⟩
    obtain rfl := Option.some.inj (hp.symm.trans hj)
    exact h0
  · have he : r.indexDel u = { r with
        index := r.index.set i { r.index.slot i with span := unitTomb }
        live := r.live - 1 } := by
      rw [indexDel, hp]
      exact if_neg h0
    rw [he]
    obtain ⟨hd, hcount⟩ := hk.good.del hp h0
    refine ⟨⟨hd.good, hd.filled.trans hk.used, ?_, hk.room⟩, ⟨rfl, rfl⟩, hd.files⟩
    have hl := hk.live
    change (r.index.set i { r.index.slot i with span := unitTomb }).entries = r.live - 1
    omega

theorem delUnits_spec (hk : r.Kept) (left v : Nat) :
    (delUnits left v r).Kept ∧ SameDesc r (delUnits left v r) ∧
      ∀ u x, (delUnits left v r).index.Files u x ↔ ¬ (v ≤ u ∧ u < v + left) ∧ r.index.Files u x := by
  induction left generalizing v r with
  | zero => exact ⟨hk, ⟨rfl, rfl⟩, fun u x => ⟨fun hf => ⟨by omega, hf⟩, fun hf => hf.2⟩⟩
  | succ left ih =>
    obtain ⟨hk₁, hd₁, hf₁⟩ := indexDel_spec hk v
    obtain ⟨hk₂, hd₂, hf₂⟩ := ih hk₁ (v + 1)
    refine ⟨hk₂, hd₁.trans hd₂, fun u x => (hf₂ u x).trans ?_⟩
    rw [hf₁]
    constructor
    · rintro ⟨hr, hne, hf⟩
      exact ⟨by omega, hf⟩
    · rintro ⟨hr, hf⟩
      exact ⟨by omega, by omega, hf⟩

theorem addUnits_spec (r₀ : Registry) {first left : Nat} (hs : RealSpan s)
    (hno : ∀ u', first ≤ u' → u' < u + left → ∀ x, ¬ r₀.index.Files u' x) (hu : first ≤ u)
    (hk : r.Kept) (hd : SameDesc r₀ r)
    (hf : ∀ u' x, r.index.Files u' x ↔ (first ≤ u' ∧ u' < u ∧ x = s) ∨ r₀.index.Files u' x) :
    ∃ r' ok, addUnits s first left u r = some (r', ok) ∧ r'.Kept ∧ SameDesc r₀ r' ∧
      ∀ u' x, r'.index.Files u' x ↔
        (ok = true ∧ first ≤ u' ∧ u' < u + left ∧ x = s) ∨ r₀.index.Files u' x := by
  induction left generalizing u r with
  | zero => exact ⟨r, true, rfl, hk, hd, by simpa using hf⟩
  | succ left ih =>
    have hno₁ : ∀ x, ¬ r.index.Files u x := by
      intro x hx
      rcases (hf u x).mp hx with hx | hx
      · omega
      · exact hno u hu (by omega) x hx
    obtain ⟨r₁, ok, hadd, hk₁, hd₁, hf₁⟩ := indexAdd_spec hk hs hno₁
    rw [addUnits, hadd, Option.bind_some]
    cases ok with
    | true =>
      have hshift : u + 1 + left = u + (left + 1) := by omega
      obtain ⟨r', ok, hrest, hk', hd', hf'⟩ := ih (u := u + 1) (r := r₁)
        (fun u' h₁ h₂ => hno u' h₁ (by omega)) (by omega) hk₁ (hd.trans hd₁) (by
          intro u' x
          rw [hf₁, hf]
          constructor
          · rintro (⟨-, rfl, rfl⟩ | ⟨h₁, h₂, rfl⟩ | hx)
            · exact Or.inl ⟨hu, by omega, rfl⟩
            · exact Or.inl ⟨h₁, by omega, rfl⟩
            · exact Or.inr hx
          · rintro (⟨h₁, h₂, rfl⟩ | hx)
            · by_cases he : u' = u
              · exact Or.inl ⟨rfl, he, rfl⟩
              · exact Or.inr (Or.inl ⟨h₁, by omega, rfl⟩)
            · exact Or.inr (Or.inr hx))
      rw [hshift] at hf'
      exact ⟨r', ok, hrest, hk', hd', hf'⟩
    | false =>
      obtain ⟨hk₂, hd₂, hf₂⟩ := delUnits_spec hk₁ (u - first) first
      refine ⟨_, false, rfl, hk₂, (hd.trans hd₁).trans hd₂, fun u' x => ?_⟩
      rw [hf₂, hf₁, hf]
      constructor
      · rintro ⟨hr, ⟨hb, -⟩ | ⟨h₁, h₂, -⟩ | hx⟩
        · simp at hb
        · exact absurd ⟨h₁, by omega⟩ hr
        · exact Or.inr hx
      · rintro (⟨hb, -⟩ | hx)
        · simp at hb
        · refine ⟨fun hr => ?_, Or.inr (Or.inr hx)⟩
          exact hno u' hr.1 (by omega) x hx

end Registry

/-- A chunk-aligned mapping that holds its span, described by a descriptor at `s`. -/
structure Descriptor.Mapped (d : Descriptor) (s : Nat) : Prop where
  real : RealSpan s
  magic : d.magic = spanMagicFor s
  kind : d.kind ≠ .user
  base_aligned : d.mapBase % 2 ^ chunkShift = 0
  size_aligned : d.mapSize % 2 ^ chunkShift = 0
  size_pos : 0 < d.mapSize
  fits : d.mapBase + d.mapSize ≤ 2 ^ 64
  base_le : d.mapBase ≤ d.lo
  le_end : d.hi ≤ d.mapBase + d.mapSize

instance (d : Descriptor) (s : Nat) : Decidable (d.Mapped s) :=
  decidable_of_iff (RealSpan s ∧ d.magic = spanMagicFor s ∧ d.kind ≠ .user ∧
    d.mapBase % 2 ^ chunkShift = 0 ∧ d.mapSize % 2 ^ chunkShift = 0 ∧ 0 < d.mapSize ∧
      d.mapBase + d.mapSize ≤ 2 ^ 64 ∧ d.mapBase ≤ d.lo ∧ d.hi ≤ d.mapBase + d.mapSize)
    ⟨fun ⟨h₁, h₂, h₃, h₄, h₅, h₆, h₇, h₈, h₉⟩ => ⟨h₁, h₂, h₃, h₄, h₅, h₆, h₇, h₈, h₉⟩,
      fun h => ⟨h.real, h.magic, h.kind, h.base_aligned, h.size_aligned, h.size_pos, h.fits,
        h.base_le, h.le_end⟩⟩

/-- The mappings have no byte in common. -/
def Descriptor.Apart (d d' : Descriptor) : Prop :=
  d.mapBase + d.mapSize ≤ d'.mapBase ∨ d'.mapBase + d'.mapSize ≤ d.mapBase

instance (d d' : Descriptor) : Decidable (d.Apart d') := inferInstanceAs (Decidable (_ ∨ _))

/-- The registry, and the descriptors registered with it. -/
structure RegistrySession where
  registry : Registry
  spans : List Nat

/-- Between calls, descriptors that are not registered are written to. -/
inductive RegistryCall where
  | prepare (s : Nat) (d : Descriptor)
  | register (s : Nat)
  | unregister (s : Nat)

def RegistryCall.Proper (σ : RegistrySession) : RegistryCall → Prop
  | .prepare s _ => s ∉ σ.spans
  | .register s => s ∉ σ.spans ∧ (σ.registry.desc s).Mapped s ∧
      ∀ t ∈ σ.spans, (σ.registry.desc s).Apart (σ.registry.desc t)
  | .unregister s => s ∈ σ.spans

def RegistrySession.next (σ : RegistrySession) : RegistryCall → Option RegistrySession
  | .prepare s d => some { σ with registry := { σ.registry with
      desc := Function.update σ.registry.desc s d } }
  | .register s => (σ.registry.spanRegister s).map fun (r, ok) =>
      ⟨r, if ok then s :: σ.spans else σ.spans⟩
  | .unregister s => some ⟨σ.registry.spanUnregister s, σ.spans.erase s⟩

inductive RegistryReached : RegistrySession → Prop
  | start (desc : Nat → Descriptor) (supply : List Bool) :
      RegistryReached ⟨Registry.start desc supply, []⟩
  | next {σ σ' : RegistrySession} (hr : RegistryReached σ) (c : RegistryCall) (hc : c.Proper σ)
      (hn : σ.next c = some σ') : RegistryReached σ'

section Units

variable {d d' : Descriptor} {s s' p u : Nat}

def Descriptor.HasUnit (d : Descriptor) (u : Nat) : Prop := d.firstUnit ≤ u ∧ u ≤ d.lastUnit

theorem unitOf_eq (p : Nat) : unitOf p = p / 2 ^ chunkShift := Nat.shiftRight_eq_div_pow _ _

theorem hasUnit_iff (hm : d.Mapped s) :
    d.HasUnit u ↔ d.mapBase ≤ u * 2 ^ chunkShift ∧ u * 2 ^ chunkShift < d.mapBase + d.mapSize := by
  have hb := hm.base_aligned
  have hz := hm.size_aligned
  have hpos := hm.size_pos
  have hc : (2 : Nat) ^ chunkShift = 2097152 := by decide
  rw [Descriptor.HasUnit, Descriptor.firstUnit, Descriptor.lastUnit, unitOf_eq, unitOf_eq, hc]
  rw [hc] at hb hz
  omega

theorem hasUnit_unitOf (hm : d.Mapped s) (hlo : d.lo ≤ p) (hhi : p < d.hi) :
    d.HasUnit (unitOf p) := by
  have hb := hm.base_aligned
  have hbase := hm.base_le
  have hend := hm.le_end
  have hz := hm.size_aligned
  have hc : (2 : Nat) ^ chunkShift = 2097152 := by decide
  rw [hasUnit_iff hm, unitOf_eq, hc]
  rw [hc] at hb hz
  omega

theorem Descriptor.Apart.units (ha : d.Apart d') (hm : d.Mapped s) (hm' : d'.Mapped s')
    (hu : d.HasUnit u) : ¬ d'.HasUnit u := by
  rw [hasUnit_iff hm] at hu
  rw [hasUnit_iff hm']
  rcases ha with ha | ha <;> omega

theorem unitCount_range (hm : d.Mapped s) : d.HasUnit u ↔
    d.firstUnit ≤ u ∧ u < d.firstUnit + d.unitCount := by
  have hfirst : d.HasUnit d.firstUnit := by
    rw [hasUnit_iff hm]
    have hb := hm.base_aligned
    have hpos := hm.size_pos
    have hc : (2 : Nat) ^ chunkShift = 2097152 := by decide
    rw [Descriptor.firstUnit, unitOf_eq, hc]
    rw [hc] at hb
    omega
  have hle : d.firstUnit ≤ d.lastUnit := hfirst.2
  rw [Descriptor.HasUnit, Descriptor.unitCount]
  omega

end Units

/-- The index files exactly the units of the registered spans. -/
structure RegistrySession.Faithful (σ : RegistrySession) : Prop where
  kept : σ.registry.Kept
  user : σ.registry.user = 0
  distinct : σ.spans.Nodup
  mapped : ∀ s ∈ σ.spans, (σ.registry.desc s).Mapped s
  apart : ∀ s ∈ σ.spans, ∀ t ∈ σ.spans, s ≠ t → (σ.registry.desc s).Apart (σ.registry.desc t)
  files : ∀ u s, σ.registry.index.Files u s ↔ s ∈ σ.spans ∧ (σ.registry.desc s).HasUnit u

namespace RegistrySession.Faithful

variable {σ σ' : RegistrySession} {s p : Nat}

theorem find (hf : σ.Faithful) {u : Nat} (hs : s ≠ 0) :
    σ.registry.indexFind u = s ↔ σ.registry.index.Files u s := by
  rw [Registry.indexFind]
  constructor
  · intro hfind
    by_contra hno
    rcases hp : σ.registry.index.probe u with _ | i
    · rw [hp] at hfind
      exact hs hfind.symm
    · rw [hp] at hfind
      change (σ.registry.index.slot i).span = s at hfind
      have hne : (σ.registry.index.slot i).span ≠ 0 := fun h0 => hs (hfind.symm.trans h0)
      have hempty : (σ.registry.index.view i).isEmpty = false := by
        rw [Index.view, view_isEmpty]
        simpa using hne
      rw [hf.kept.good.probe_eq] at hp
      obtain ⟨hlt, v, hl⟩ := hf.kept.good.sound.found hp hempty
      have hv : v = s := by
        have he := (view_live.mp hl).1
        rw [he] at hfind
        exact hfind
      exact hno ⟨i, hlt, hv ▸ hl⟩
  · intro hfile
    obtain ⟨i, hp, hspan, -⟩ := hf.kept.good.probe_files hfile
    rw [hp]
    exact hspan

theorem lookup (hf : σ.Faithful) (hs : s ≠ 0) : σ.registry.spanLookupUncached p = s ↔
    s ∈ σ.spans ∧ (σ.registry.desc s).lo ≤ p ∧ p < (σ.registry.desc s).hi := by
  rw [Registry.spanLookupUncached, if_neg (by simp [hf.user])]
  constructor
  · intro hl
    by_cases h0 : σ.registry.indexFind (unitOf p) = 0
    · exact absurd hl (by simp [h0, hs.symm])
    have hfile := (hf.find h0).mp rfl
    dsimp only at hl
    rw [if_neg h0] at hl
    split at hl
    · exact absurd hl.symm hs
    split at hl
    · exact absurd hl.symm hs
    · subst hl
      exact ⟨((hf.files _ _).mp hfile).1, by omega⟩
  · rintro ⟨hm, hlo, hhi⟩
    have hd := hf.mapped s hm
    have hfind := (hf.find hs).mpr ((hf.files _ _).mpr ⟨hm, hasUnit_unitOf hd hlo hhi⟩)
    rw [hfind]
    dsimp only
    rw [if_neg hs, if_neg (not_not.mpr hd.magic), if_neg (by omega)]

theorem register (hf : σ.Faithful) (hc : (RegistryCall.register s).Proper σ) :
    ∃ r ok, σ.registry.spanRegister s = some (r, ok) ∧
      (RegistrySession.mk r (if ok then s :: σ.spans else σ.spans)).Faithful ∧
      r.desc = σ.registry.desc := by
  obtain ⟨hnew, hm, hapart⟩ := hc
  have hno : ∀ u', (σ.registry.desc s).firstUnit ≤ u' →
      u' < (σ.registry.desc s).firstUnit + (σ.registry.desc s).unitCount →
      ∀ x, ¬ σ.registry.index.Files u' x := by
    intro u' h₁ h₂ x hx
    obtain ⟨hx, hu⟩ := (hf.files u' x).mp hx
    exact (hapart x hx).units hm (hf.mapped x hx) ((unitCount_range hm).mpr ⟨h₁, h₂⟩) hu
  obtain ⟨r, ok, hadd, hk, hd, hfiles⟩ := Registry.addUnits_spec σ.registry hm.real hno
    (le_refl _) hf.kept ⟨rfl, rfl⟩ fun u' x => ⟨Or.inr, fun hx => hx.resolve_left (by omega)⟩
  have hreg : σ.registry.spanRegister s = some (r, ok) := by
    rw [Registry.spanRegister, if_neg hm.kind, hadd]
  refine ⟨r, ok, hreg, ?_, hd.desc⟩
  have hfile : ∀ u x, r.index.Files u x ↔
      (ok = true ∧ x = s ∧ (σ.registry.desc s).HasUnit u) ∨
        (x ∈ σ.spans ∧ (σ.registry.desc x).HasUnit u) := by
    intro u x
    rw [hfiles, hf.files, unitCount_range hm]
    constructor
    · rintro (⟨ho, h₁, h₂, rfl⟩ | hx)
      · exact Or.inl ⟨ho, rfl, h₁, h₂⟩
      · exact Or.inr hx
    · rintro (⟨ho, rfl, h₁, h₂⟩ | hx)
      · exact Or.inl ⟨ho, h₁, h₂, rfl⟩
      · exact Or.inr hx
  cases ok with
  | false =>
    refine ⟨hk, hd.user.trans hf.user, hf.distinct, ?_, ?_, ?_⟩
    · rw [hd.desc]
      exact hf.mapped
    · rw [hd.desc]
      exact hf.apart
    · rw [hd.desc]
      simpa using hfile
  | true =>
    refine ⟨hk, hd.user.trans hf.user, List.nodup_cons.mpr ⟨hnew, hf.distinct⟩, ?_, ?_, ?_⟩
    · rw [hd.desc]
      intro t ht
      rcases List.mem_cons.mp ht with rfl | ht
      · exact hm
      · exact hf.mapped t ht
    · rw [hd.desc]
      intro t ht t' ht' hne
      rcases List.mem_cons.mp ht with rfl | hmem
      · exact hapart t' ((List.mem_cons.mp ht').resolve_left (Ne.symm hne))
      · rcases List.mem_cons.mp ht' with rfl | hmem'
        · exact (hapart t hmem).symm
        · exact hf.apart t hmem t' hmem' hne
    · intro u x
      rw [hd.desc]
      refine (hfile u x).trans ?_
      rw [if_pos rfl, List.mem_cons]
      constructor
      · rintro (⟨-, rfl, hu⟩ | ⟨hx, hu⟩)
        · exact ⟨Or.inl rfl, hu⟩
        · exact ⟨Or.inr hx, hu⟩
      · rintro ⟨rfl | hx, hu⟩
        · exact Or.inl ⟨rfl, rfl, hu⟩
        · exact Or.inr ⟨hx, hu⟩

theorem unregister (hf : σ.Faithful) (hs : s ∈ σ.spans) :
    (RegistrySession.mk (σ.registry.spanUnregister s) (σ.spans.erase s)).Faithful := by
  have hm := hf.mapped s hs
  obtain ⟨hk, hd, hfiles⟩ := Registry.delUnits_spec hf.kept (σ.registry.desc s).unitCount
    (σ.registry.desc s).firstUnit
  have hun : σ.registry.spanUnregister s = Registry.delUnits (σ.registry.desc s).unitCount
      (σ.registry.desc s).firstUnit σ.registry := by
    rw [Registry.spanUnregister, if_neg hm.kind]
  rw [hun]
  have hmem : ∀ t, t ∈ σ.spans.erase s ↔ t ≠ s ∧ t ∈ σ.spans := fun t => hf.distinct.mem_erase_iff
  refine ⟨hk, hd.user.trans hf.user, hf.distinct.erase s, ?_, ?_, fun u x => ?_⟩
  · rw [hd.desc]
    exact fun t ht => hf.mapped t ((hmem t).mp ht).2
  · rw [hd.desc]
    exact fun t ht t' ht' => hf.apart t ((hmem t).mp ht).2 t' ((hmem t').mp ht').2
  · rw [hd.desc]
    refine (hfiles u x).trans ?_
    rw [← unitCount_range hm, hf.files, hmem]
    constructor
    · rintro ⟨hno, hx, hu⟩
      exact ⟨⟨fun he => hno (he ▸ hu), hx⟩, hu⟩
    · rintro ⟨⟨hne, hx⟩, hu⟩
      exact ⟨(hf.apart x hx s hs hne).units (hf.mapped x hx) hm hu, hx, hu⟩

theorem prepare (hf : σ.Faithful) (hs : s ∉ σ.spans) (d : Descriptor) :
    (RegistrySession.mk { σ.registry with desc := Function.update σ.registry.desc s d }
      σ.spans).Faithful := by
  have hd : ∀ t ∈ σ.spans, Function.update σ.registry.desc s d t = σ.registry.desc t := by
    intro t ht
    refine Function.update_of_ne ?_ _ _
    rintro rfl
    exact hs ht
  refine ⟨⟨hf.kept.good, hf.kept.used, hf.kept.live, hf.kept.room⟩, hf.user, hf.distinct,
    fun t ht => ?_, fun t ht t' ht' => ?_, fun u x => ?_⟩
  · change (Function.update σ.registry.desc s d t).Mapped t
    rw [hd t ht]
    exact hf.mapped t ht
  · change t ≠ t' → (Function.update σ.registry.desc s d t).Apart
      (Function.update σ.registry.desc s d t')
    rw [hd t ht, hd t' ht']
    exact hf.apart t ht t' ht'
  · refine (hf.files u x).trans (and_congr_right fun hx => ?_)
    change _ ↔ (Function.update σ.registry.desc s d x).HasUnit u
    rw [hd x hx]

theorem next (hf : σ.Faithful) {c : RegistryCall} (hc : c.Proper σ) :
    ∃ σ', σ.next c = some σ' ∧ σ'.Faithful := by
  cases c with
  | prepare s d => exact ⟨_, rfl, hf.prepare hc d⟩
  | register s =>
    obtain ⟨r, ok, hreg, hf', -⟩ := hf.register hc
    exact ⟨_, by rw [RegistrySession.next, hreg, Option.map_some], hf'⟩
  | unregister s => exact ⟨_, rfl, hf.unregister hc⟩

end RegistrySession.Faithful

theorem RegistryReached.faithful {σ : RegistrySession} (hr : RegistryReached σ) : σ.Faithful := by
  induction hr with
  | start desc supply =>
    refine ⟨Registry.kept_start desc supply, rfl, List.nodup_nil, by simp, by simp, fun u s => ?_⟩
    exact iff_of_false (Index.blank_files _) (by simp)
  | next _ c hc hn ih =>
    obtain ⟨σ', hn', hf⟩ := ih.next hc
    obtain rfl := Option.some.inj (hn.symm.trans hn')
    exact hf

/-- The registry is a finite map from addresses to spans, whatever has been registered and
unregistered before, and whichever of its tables the platform refused. -/
theorem registry_is_map {σ : RegistrySession} (hr : RegistryReached σ) :
    (∀ p s, s ≠ 0 → (σ.registry.spanLookupUncached p = s ↔
      s ∈ σ.spans ∧ (σ.registry.desc s).lo ≤ p ∧ p < (σ.registry.desc s).hi)) ∧
    (∀ s r, (RegistryCall.register s).Proper σ → σ.registry.spanRegister s = some (r, false) →
      ∀ p, r.spanLookupUncached p = σ.registry.spanLookupUncached p) ∧
    2 * σ.registry.index.filled < σ.registry.index.cap ∧
    (∀ c, c.Proper σ → (σ.next c).isSome) ∧
    ∀ unit, (σ.registry.index.probe unit).isSome := by
  have hf := hr.faithful
  refine ⟨fun p s hs => hf.lookup hs, fun s r hc hreg p => ?_, ?_, fun c hc => ?_, fun unit => ?_⟩
  · obtain ⟨r', ok, hreg', hf', hd⟩ := hf.register hc
    obtain ⟨rfl, rfl⟩ := Prod.mk.inj (Option.some.inj (hreg.symm.trans hreg'))
    by_cases h0 : σ.registry.spanLookupUncached p = 0
    · by_contra hne
      rw [h0] at hne
      have hin := (hf'.lookup hne).mp rfl
      rw [hd] at hin
      exact hne (((hf.lookup hne).mpr hin).symm.trans h0)
    · have hin := (hf.lookup h0).mp rfl
      refine (hf'.lookup h0).mpr ?_
      rw [hd]
      exact hin
  · have := hf.kept.room
    rw [hf.kept.used]
    exact this
  · obtain ⟨σ', hn, -⟩ := hf.next hc
    rw [hn]
    rfl
  · exact hf.kept.good.probe_isSome hf.kept.filled_lt unit

def oneChunk : Descriptor := ⟨spanMagicFor 4096, 10485768, 12582904, 10485760, 2097152, .chunk⟩

theorem oneChunk_mapped : oneChunk.Mapped 4096 := by decide +kernel

/-- The mapping after that of `oneChunk`, three units wide. -/
def wideNext : Descriptor := ⟨spanMagicFor 8192, 12582920, 18874360, 12582912, 6291456, .large⟩

theorem wideNext_mapped : wideNext.Mapped 8192 := by decide +kernel

/-- The mapping of `oneChunk` once more, under another descriptor. -/
def chunkAgain : Descriptor := { oneChunk with magic := spanMagicFor 12288 }

theorem chunkAgain_mapped : chunkAgain.Mapped 12288 := by decide +kernel

def churn : List RegistryCall :=
  [.register 4096, .register 8192, .unregister 4096, .register 12288]

/-- A mapping given back and mapped again, beside another one. -/
def churned : RegistrySession :=
  let σ : RegistrySession := ⟨Registry.start (fun s => if s = 8192 then wideNext
    else if s = 12288 then chunkAgain else oneChunk) [], []⟩
  (churn.foldlM RegistrySession.next σ).getD σ

theorem churned_reached : RegistryReached churned := by
  have h₁ := (RegistryReached.start (fun s => if s = 8192 then wideNext
    else if s = 12288 then chunkAgain else oneChunk) []).next (.register 4096)
    ⟨List.not_mem_nil, oneChunk_mapped, fun _ ht => absurd ht List.not_mem_nil⟩ rfl
  have h₂ := h₁.next (.register 8192) ⟨by decide +kernel, wideNext_mapped, by decide +kernel⟩ rfl
  have h₃ := h₂.next (.unregister 4096) (List.mem_of_elem_eq_true (by decide +kernel)) rfl
  exact h₃.next (.register 12288) ⟨by decide +kernel, chunkAgain_mapped, by decide +kernel⟩ rfl

theorem registry_is_map_chunk : churned.registry.spanLookupUncached 10485768 = 12288 ∧
    churned.registry.spanLookupUncached 18874352 = 8192 := by
  have hmap := (registry_is_map churned_reached).1
  refine ⟨(hmap 10485768 12288 (by decide)).mpr ?_, (hmap 18874352 8192 (by decide)).mpr ?_⟩
  all_goals exact ⟨by decide +kernel, by decide +kernel, by decide +kernel⟩

end Mars
