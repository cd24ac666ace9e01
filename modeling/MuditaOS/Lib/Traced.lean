import Mathlib.Data.Option.Basic

/-!
# Computations that fail and keep a log

A `Traced` computation gives a value or fails, and either way leaves the events
it went through. It follows a pure computation when the two fail together, give
related values, and all the events are good exactly under a stated condition.
The rule for `bind` splits that condition at the first value.
-/

namespace MuditaOS.Lib

universe u v

structure Traced (ε : Type u) (α : Type v) where
  value : Option α
  log : List ε
  deriving DecidableEq, Repr

namespace Traced

variable {ε : Type u} {α β γ δ : Type v}

instance : Monad (Traced.{u, v} ε) where
  pure a := ⟨some a, []⟩
  bind x f :=
    match x.value with
    | none => ⟨none, x.log⟩
    | some a => ⟨(f a).value, x.log ++ (f a).log⟩

instance : LawfulMonad (Traced.{u, v} ε) := by
  refine LawfulMonad.mk' _ ?_ ?_ ?_
  · intro α ⟨value, log⟩
    cases value <;> simp [Functor.map]
  · intro α β a f
    rfl
  · intro α β γ ⟨value, log⟩ f g
    cases value with
    | none => rfl
    | some a => cases hf : (f a).value <;> simp [Bind.bind, hf]

def fail : Traced ε α := ⟨none, []⟩

/-- Fails with a last event. -/
def abort (e : ε) : Traced ε α := ⟨none, [e]⟩

/-- A value that is had by one event. -/
def event (e : ε) (a : α) : Traced ε α := ⟨some a, [e]⟩

theorem value_bind {x : Traced.{u, v} ε α} {f : α → Traced ε β} :
    (x >>= f).value = x.value.bind fun a => (f a).value := by
  obtain ⟨value, log⟩ := x
  cases value <;> rfl

/-- Every event of the computation satisfies `P`. -/
def Every (P : ε → Prop) (x : Traced ε α) : Prop := ∀ e ∈ x.log, P e

instance (P : ε → Prop) [DecidablePred P] (x : Traced ε α) : Decidable (x.Every P) :=
  inferInstanceAs (Decidable (∀ e ∈ x.log, P e))

/-- The computation and the pure `y` fail together or give values in `R`, and
its events are all good exactly when `c` holds. -/
structure Follows (P : ε → Prop) (R : α → β → Prop) (x : Traced ε α) (y : Option β)
    (c : Prop) : Prop where
  value : Option.Rel R x.value y
  every : x.Every P ↔ c

namespace Follows

variable {P : ε → Prop} {R : α → β → Prop} {S : γ → δ → Prop}

theorem pure {a : α} {b : β} (h : R a b) :
    Follows P R (Pure.pure a : Traced ε α) (some b) True :=
  ⟨.some h, by simp [Every, Pure.pure]⟩

theorem fail : Follows P R (Traced.fail : Traced ε α) none True :=
  ⟨.none, by simp [Every, Traced.fail]⟩

theorem event {e : ε} {a : α} {b : β} (h : R a b) :
    Follows P R (Traced.event e a) (some b) (P e) :=
  ⟨.some h, by simp [Every, Traced.event]⟩

theorem congr {x : Traced ε α} {y : Option β} {c d : Prop} (h : Follows P R x y c)
    (hcd : c ↔ d) : Follows P R x y d :=
  ⟨h.value, h.every.trans hcd⟩

theorem of_eq {x : Traced ε α} {y z : Option β} {c : Prop} (h : Follows P R x y c)
    (hyz : y = z) : Follows P R x z c := hyz ▸ h

theorem mono {T : α → β → Prop} {x : Traced ε α} {y : Option β} {c : Prop}
    (h : Follows P R x y c) (hRT : ∀ a b, R a b → T a b) : Follows P T x y c := by
  obtain ⟨value, log⟩ := x
  refine ⟨?_, h.every⟩
  cases h.value with
  | none => exact .none
  | some hR => exact .some (hRT _ _ hR)

/-- The pure side may go on with its value. -/
theorem map {T : α → δ → Prop} {x : Traced ε α} {y : Option β} {f : β → δ} {c : Prop}
    (h : Follows P R x y c) (hRT : ∀ a b, R a b → T a (f b)) : Follows P T x (y.map f) c := by
  obtain ⟨value, log⟩ := x
  refine ⟨?_, h.every⟩
  cases h.value with
  | none => exact .none
  | some hR => exact .some (hRT _ _ hR)

/-- First `x`, then what follows from its value. -/
theorem bind {x : Traced ε α} {y : Option β} {f : α → Traced ε γ} {g : β → Option δ} {c : Prop}
    {d : β → Prop} (hx : Follows P R x y c)
    (hf : ∀ a b, R a b → y = some b → Follows P S (f a) (g b) (d b)) :
    Follows P S (x >>= f) (y >>= g) (c ∧ ∀ b, y = some b → d b) := by
  obtain ⟨value, log⟩ := x
  cases hx.value with
  | none => exact ⟨.none, by simpa [Every, Bind.bind] using hx.every⟩
  | @some a b hR =>
      have hrest := hf a b hR rfl
      refine ⟨hrest.value, ?_⟩
      have hlog : (∀ e ∈ log, P e) ↔ c := hx.every
      have hmore : (∀ e ∈ (f a).log, P e) ↔ d b := hrest.every
      simp [Every, Bind.bind, or_imp, forall_and, hlog, hmore]

/-- Two parts that are good whatever happens. -/
theorem bind_true {x : Traced ε α} {y : Option β} {f : α → Traced ε γ} {g : β → Option δ}
    (hx : Follows P R x y True)
    (hf : ∀ a b, R a b → y = some b → Follows P S (f a) (g b) True) :
    Follows P S (x >>= f) (y >>= g) True :=
  (hx.bind hf).congr (by simp)

/-- What follows always fails, and is good whatever happens. -/
theorem bind_none {x : Traced ε α} {y : Option β} {f : α → Traced ε γ} {c : Prop}
    (hx : Follows P R x y c)
    (hf : ∀ a b, R a b → y = some b → Follows P S (f a) none True) :
    Follows P S (x >>= f) none c := by
  have hboth := hx.bind (g := fun _ => none) (d := fun _ => True) hf
  cases y <;> exact hboth.congr (by simp)

/-- A first part that always gives the value `b`. -/
theorem bind_value {x : Traced ε α} {b : β} {f : α → Traced ε γ} {y : Option δ} {c d : Prop}
    (hx : Follows P R x (some b) c) (hf : ∀ a, R a b → Follows P S (f a) y d) :
    Follows P S (x >>= f) y (c ∧ d) :=
  (hx.bind (g := fun _ => y) (d := fun _ => d)
    fun a _ hR hb => hf a (Option.some.inj hb ▸ hR)).congr (by simp)

/-- It may be good whatever happens, too. -/
theorem bind_some {x : Traced ε α} {b : β} {f : α → Traced ε γ} {y : Option δ} {d : Prop}
    (hx : Follows P R x (some b) True) (hf : ∀ a, R a b → Follows P S (f a) y d) :
    Follows P S (x >>= f) y d :=
  (hx.bind_value hf).congr (by simp)

/-- What follows always gives a value and is good whatever happens. -/
theorem bind_map {x : Traced ε α} {y : Option β} {f : α → Traced ε γ} {k : β → δ} {c : Prop}
    (hx : Follows P R x y c)
    (hf : ∀ a b, R a b → y = some b → Follows P S (f a) (some (k b)) True) :
    Follows P S (x >>= f) (y.map k) c := by
  have hboth := hx.bind (g := fun b => some (k b)) (d := fun _ => True) hf
  cases y <;> exact hboth.congr (by simp)

end Follows

end Traced

end MuditaOS.Lib
