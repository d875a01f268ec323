import Mathlib.Tactic

/-!
# Checks that may refuse

A validator is a computation in `Except`; what matters about it is often only whether it passes.
`Passes` says so, and its simp lemmas take a `do` block apart into the conditions of its steps.
-/

namespace Kyth.Check

variable {ε α β : Type}

/-- A check that returns a value. -/
def Passes (x : Except ε α) : Prop := ∃ a, x = .ok a

instance (x : Except ε α) : Decidable (Passes x) :=
  match x with
  | .ok a => .isTrue ⟨a, rfl⟩
  | .error _ => .isFalse fun ⟨_, h⟩ => nomatch h

@[simp] theorem passes_ok (a : α) : Passes (.ok a : Except ε α) := ⟨a, rfl⟩

@[simp] theorem passes_pure (a : α) : Passes (pure a : Except ε α) := ⟨a, rfl⟩

@[simp] theorem not_passes_error (e : ε) : ¬ Passes (.error e : Except ε α) :=
  fun ⟨_, h⟩ => nomatch h

@[simp] theorem not_passes_throw (e : ε) : ¬ Passes (throw e : Except ε α) :=
  not_passes_error e

@[simp] theorem throw_bind {e : ε} {f : α → Except ε β} :
    ((throw e : Except ε α) >>= f) = throw e := rfl

@[simp] theorem passes_map {f : α → β} {x : Except ε α} : Passes (f <$> x) ↔ Passes x := by
  cases x with
  | ok a => exact ⟨fun _ => ⟨a, rfl⟩, fun _ => ⟨f a, rfl⟩⟩
  | error e => exact ⟨fun ⟨_, h⟩ => (nomatch h), fun ⟨_, h⟩ => nomatch h⟩

/-- A sequence passes when its first step returns a value its second step accepts. -/
@[simp] theorem passes_bind {x : Except ε α} {f : α → Except ε β} :
    Passes (x >>= f) ↔ ∃ a, x = .ok a ∧ Passes (f a) := by
  cases x with
  | ok a => exact ⟨fun h => ⟨a, rfl, h⟩, fun ⟨_, ha, h⟩ => by cases ha; exact h⟩
  | error e => exact ⟨fun h => absurd h (not_passes_error e), fun ⟨_, ha, _⟩ => nomatch ha⟩

/-- Two checks in a row both have to pass. -/
@[simp] theorem passes_bind_const {x : Except ε α} {y : Except ε β} :
    Passes (x >>= fun _ => y) ↔ Passes x ∧ Passes y := by
  rw [passes_bind]
  exact ⟨fun ⟨a, ha, hy⟩ => ⟨⟨a, ha⟩, hy⟩, fun ⟨⟨a, ha⟩, hy⟩ => ⟨a, ha, hy⟩⟩

/-- A sequence returns a value when its steps do. -/
theorem bind_eq_ok {x : Except ε α} {f : α → Except ε β} {b : β} :
    (x >>= f) = .ok b ↔ ∃ a, x = .ok a ∧ f a = .ok b := by
  cases x with
  | ok a => exact ⟨fun h => ⟨a, rfl, h⟩, fun ⟨_, ha, h⟩ => by cases ha; exact h⟩
  | error e => exact ⟨fun h => (nomatch h), fun ⟨_, ha, _⟩ => nomatch ha⟩

@[simp] theorem passes_ite_throw {c : Prop} [Decidable c] {e : ε} {x : Except ε α} :
    Passes (if c then throw e else x) ↔ ¬ c ∧ Passes x := by
  by_cases hc : c <;> simp [hc]

@[simp] theorem passes_ite_error {c : Prop} [Decidable c] {e : ε} {x : Except ε α} :
    Passes (if c then .error e else x) ↔ ¬ c ∧ Passes x := by
  by_cases hc : c <;> simp [hc]

end Kyth.Check
