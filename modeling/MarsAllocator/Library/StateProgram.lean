import Mathlib.Order.Defs.Unbundled

namespace StateProgram

/-- A deterministic program over states `σ`. -/
def Prog (σ α : Type) : Type := σ → α × σ

namespace Prog

variable {σ α β : Type}

instance : Monad (Prog σ) where
  pure a := fun s => (a, s)
  bind x f := fun s => f (x s).1 (x s).2

def read (f : σ → α) : Prog σ α := fun s => (f s, s)

def modify (f : σ → σ) : Prog σ Unit := fun s => ((), f s)

/-- Runs `x` where `c` holds, as one step of a larger program. -/
def when (c : Prop) [Decidable c] (x : Prog σ Unit) : Prog σ Unit :=
  if c then x else pure ()

/-- Continues with the value of `o`, or as `x` where it has none. -/
def elim (o : Option α) (x : Prog σ β) (f : α → Prog σ β) : Prog σ β :=
  match o with
  | none => x
  | some a => f a

/-- Continues with the value of `r`, or with its error. -/
def either {ε : Type} (r : Except ε α) (onError : ε → Prog σ β) (onOk : α → Prog σ β) : Prog σ β :=
  match r with
  | .error e => onError e
  | .ok a => onOk a

@[simp] theorem elim_none (x : Prog σ β) (f : α → Prog σ β) : elim none x f = x := rfl

@[simp] theorem elim_some (a : α) (x : Prog σ β) (f : α → Prog σ β) : elim (some a) x f = f a := rfl

@[simp] theorem either_error {ε : Type} (e : ε) (onError : ε → Prog σ β) (onOk : α → Prog σ β) :
    either (.error e) onError onOk = onError e := rfl

@[simp] theorem either_ok {ε : Type} (a : α) (onError : ε → Prog σ β) (onOk : α → Prog σ β) :
    either (.ok a) onError onOk = onOk a := rfl

/-- Short-circuit conjunction of two tests. -/
def and (x y : Prog σ Bool) : Prog σ Bool := do
  if ← x then y else pure false

theorem pure_run (a : α) (s : σ) : (pure a : Prog σ α) s = (a, s) := rfl

theorem bind_run (x : Prog σ α) (f : α → Prog σ β) (s : σ) :
    (x >>= f) s = f (x s).1 (x s).2 := rfl

theorem read_run (f : σ → α) (s : σ) : read f s = (f s, s) := rfl

theorem modify_run (f : σ → σ) (s : σ) : modify f s = ((), f s) := rfl

theorem ite_run {c : Prop} [Decidable c] (x y : Prog σ α) (s : σ) :
    (if c then x else y) s = if c then x s else y s := by
  split <;> rfl

theorem when_run {c : Prop} [Decidable c] (x : Prog σ Unit) (s : σ) :
    when c x s = if c then x s else ((), s) := ite_run x (pure ()) s

theorem and_run (x y : Prog σ Bool) (s : σ) :
    Prog.and x y s = if (x s).1 then y (x s).2 else (false, (x s).2) := by
  rw [Prog.and, bind_run, ite_run]
  rfl

theorem bind_run_of_eq {x : Prog σ α} {f : α → Prog σ β} {s s' : σ} {a : α} (h : x s = (a, s')) :
    (x >>= f) s = f a s' := by
  rw [bind_run, h]

end Prog

open Prog

variable {σ α β : Type}

/-- `Q` holds of the result and the state that `x` reaches from `s`. -/
def wp (x : Prog σ α) (Q : α → σ → Prop) (s : σ) : Prop := Q (x s).1 (x s).2

theorem wp_pure (a : α) (Q : α → σ → Prop) (s : σ) : wp (pure a) Q s = Q a s := rfl

theorem wp_bind (x : Prog σ α) (f : α → Prog σ β) (Q : β → σ → Prop) (s : σ) :
    wp (x >>= f) Q s = wp x (fun a s' => wp (f a) Q s') s := rfl

theorem wp_bind_assoc {γ : Type} (x : Prog σ α) (g : α → Prog σ β) (f : β → Prog σ γ)
    (Q : γ → σ → Prop) (s : σ) :
    wp ((x >>= g) >>= f) Q s = wp (x >>= fun a => g a >>= f) Q s := rfl

theorem wp_read (f : σ → α) (Q : α → σ → Prop) (s : σ) : wp (read f) Q s = Q (f s) s := rfl

theorem wp_ite {c : Prop} [Decidable c] (x y : Prog σ α) (Q : α → σ → Prop) (s : σ) :
    wp (if c then x else y) Q s = if c then wp x Q s else wp y Q s := by
  split <;> rfl

theorem wp_when_true (x : Prog σ Unit) {c : Prop} [Decidable c] (hc : c) {f : Unit → Prog σ β}
    (Q : β → σ → Prop) (s : σ) : wp (when c x >>= f) Q s = wp (x >>= f) Q s := by
  rw [when, if_pos hc]

theorem wp_when_false (x : Prog σ Unit) {c : Prop} [Decidable c] (hc : ¬ c) {f : Unit → Prog σ β}
    (Q : β → σ → Prop) (s : σ) : wp (when c x >>= f) Q s = wp (f ()) Q s := by
  rw [when, if_neg hc]
  rfl

theorem wp_when (x : Prog σ Unit) {c : Prop} [Decidable c] (Q : Unit → σ → Prop) (s : σ) :
    wp (when c x) Q s = if c then wp x Q s else Q () s := by
  rw [when, wp_ite, wp_pure]

theorem wp_mono {x : Prog σ α} {Q R : α → σ → Prop} {s : σ} (h : wp x Q s)
    (hi : ∀ a s', Q a s' → R a s') : wp x R s :=
  hi _ _ h

theorem wp_of_run {x : Prog σ α} {Q : α → σ → Prop} {s s' : σ} {a : α} (h : x s = (a, s'))
    (hq : Q a s') : wp x Q s := by
  rw [wp, h]
  exact hq

theorem wp_seq {x : Prog σ α} {f : α → Prog σ β} {Q : α → σ → Prop} {R : β → σ → Prop} {s : σ}
    (hx : wp x Q s) (hf : ∀ a s', Q a s' → wp (f a) R s') : wp (x >>= f) R s :=
  hf _ _ hx

theorem wp_any {x : Prog σ α} {f : α → Prog σ β} {R : β → σ → Prop} {s : σ}
    (hf : ∀ a s', wp (f a) R s') : wp (x >>= f) R s :=
  hf _ _

/-- Every step of `x` is a step of `R`. -/
class Respects (R : σ → σ → Prop) (x : Prog σ α) : Prop where
  step : ∀ s, R s (x s).2

namespace Respects

variable {R : σ → σ → Prop}

instance pure [Std.Refl R] (a : α) : Respects R (Pure.pure a : Prog σ α) :=
  ⟨fun s => Std.Refl.refl s⟩

instance bind [IsTrans σ R] (x : Prog σ α) (f : α → Prog σ β) [hx : Respects R x]
    [hf : ∀ a, Respects R (f a)] : Respects R (x >>= f) :=
  ⟨fun s => IsTrans.trans _ _ _ (hx.step s) ((hf (x s).1).step (x s).2)⟩

instance read [Std.Refl R] (f : σ → α) : Respects R (Prog.read f) := ⟨fun s => Std.Refl.refl s⟩

instance ite {c : Prop} [Decidable c] (x y : Prog σ α) [hx : Respects R x] [hy : Respects R y] :
    Respects R (if c then x else y) := by
  split <;> assumption

instance when [Std.Refl R] (c : Prop) [Decidable c] (x : Prog σ Unit) [Respects R x] :
    Respects R (Prog.when c x) := by
  unfold Prog.when
  infer_instance

instance elim (o : Option α) (x : Prog σ β) (f : α → Prog σ β) [Respects R x]
    [∀ a, Respects R (f a)] : Respects R (Prog.elim o x f) := by
  cases o
  · rw [Prog.elim_none]
    infer_instance
  · rw [Prog.elim_some]
    infer_instance

instance either {ε : Type} (r : Except ε α) (onError : ε → Prog σ β) (onOk : α → Prog σ β)
    [∀ e, Respects R (onError e)] [∀ a, Respects R (onOk a)] :
    Respects R (Prog.either r onError onOk) := by
  cases r
  · rw [Prog.either_error]
    infer_instance
  · rw [Prog.either_ok]
    infer_instance

instance and [Std.Refl R] [IsTrans σ R] (x y : Prog σ Bool) [Respects R x] [Respects R y] :
    Respects R (Prog.and x y) := by
  unfold Prog.and
  infer_instance

end Respects

end StateProgram
