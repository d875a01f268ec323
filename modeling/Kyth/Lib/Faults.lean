import Kyth.Lib.Action

/-!
# Actions that answers can bring down

An action that asks its surroundings for answers, keeps a log of them and stops at a fault.
`FaultsExactly bad` says that it stops exactly when one of the answers that it received is bad. The
rules follow the structure of a `do` block, also of one that returns early with an error of its own.
-/

namespace Kyth.Action

variable {ι ε δ α β : Type} {bad : ι → Prop}

/-- The action comes to its end exactly when none of the answers that it received is bad. -/
def FaultsExactly (bad : ι → Prop) (x : Action (List ι) ε α) : Prop :=
  ∀ log, ∃ fresh, (x log).2 = log ++ fresh ∧ ((∃ a, (x log).1 = .ok a) ↔ ∀ i ∈ fresh, ¬ bad i)

/-- A sequence stops where its first step does. -/
theorem bind_error {σ : Type} {x : Action σ ε α} {f : α → Action σ ε β} {log : σ} {e : ε}
    (h : (x log).1 = .error e) : ((x >>= f) log).1 = .error e := by
  rw [bind_apply]
  cases hrun : x log with
  | mk r log' =>
    rw [hrun] at h
    cases h
    rfl

namespace FaultsExactly

theorem pure (a : α) : FaultsExactly bad (pure a : Action (List ι) ε α) :=
  fun log => ⟨[], (List.append_nil log).symm, by simp⟩

theorem bind {x : Action (List ι) ε α} {f : α → Action (List ι) ε β} (hx : FaultsExactly bad x)
    (hf : ∀ a, FaultsExactly bad (f a)) : FaultsExactly bad (x >>= f) := by
  intro log
  obtain ⟨fresh, hlog, hok⟩ := hx log
  rw [bind_apply]
  cases hrun : x log with
  | mk r log' =>
    rw [hrun] at hlog hok
    cases r with
    | error e =>
      refine ⟨fresh, hlog, iff_of_false (by simp) fun hgood => ?_⟩
      obtain ⟨a, ha⟩ := hok.2 hgood
      cases ha
    | ok a =>
      obtain ⟨more, hlog', hok'⟩ := hf a log'
      refine ⟨fresh ++ more, ?_, ?_⟩
      · have hlog : log' = log ++ fresh := hlog
        show (f a log').2 = _
        rw [hlog', hlog, List.append_assoc]
      · have hgood : ∀ i ∈ fresh, ¬ bad i := hok.1 ⟨a, rfl⟩
        rw [List.forall_mem_append]
        exact hok'.trans ⟨fun h => ⟨hgood, h⟩, fun h => h.2⟩

theorem ite {c : Prop} [Decidable c] {x y : Action (List ι) ε α} (hx : FaultsExactly bad x)
    (hy : FaultsExactly bad y) : FaultsExactly bad (if c then x else y) := by
  split_ifs
  · exact hx
  · exact hy

end FaultsExactly

/-- The same of an action that may also return early with an error. -/
def Survives (bad : ι → Prop) (x : ExceptT δ (Action (List ι) ε) α) : Prop :=
  FaultsExactly bad x.run

namespace Survives

theorem pure (a : α) : Survives bad (pure a : ExceptT δ (Action (List ι) ε) α) :=
  FaultsExactly.pure (Except.ok a)

theorem throw (d : δ) : Survives bad (throw d : ExceptT δ (Action (List ι) ε) α) :=
  FaultsExactly.pure (Except.error d)

theorem bind {x : ExceptT δ (Action (List ι) ε) α} {f : α → ExceptT δ (Action (List ι) ε) β}
    (hx : Survives bad x) (hf : ∀ a, Survives bad (f a)) : Survives bad (x >>= f) := by
  refine FaultsExactly.bind hx fun r => ?_
  cases r with
  | ok a => exact hf a
  | error d => exact FaultsExactly.pure _

theorem map {x : ExceptT δ (Action (List ι) ε) α} {f : α → β} (hx : Survives bad x) :
    Survives bad (f <$> x) :=
  bind hx fun a => pure (f a)

/-- The outcome of a step as a value. -/
theorem lift {x : Action (List ι) ε α} (hx : FaultsExactly bad x) :
    Survives bad (ExceptT.lift x : ExceptT δ (Action (List ι) ε) α) :=
  FaultsExactly.bind hx fun a => FaultsExactly.pure (Except.ok a)

/-- Another text for the error. -/
theorem adapt {δ' : Type} {x : ExceptT δ (Action (List ι) ε) α} {f : δ → δ'}
    (hx : Survives bad x) : Survives bad (x.adapt f) :=
  FaultsExactly.bind hx fun _ => FaultsExactly.pure _

theorem ite {c : Prop} [Decidable c] {x y : ExceptT δ (Action (List ι) ε) α}
    (hx : Survives bad x) (hy : Survives bad y) : Survives bad (if c then x else y) := by
  split_ifs
  · exact hx
  · exact hy

/-- A loop, turn by turn. -/
theorem forM {l : List β} {f : β → ExceptT δ (Action (List ι) ε) PUnit}
    (hf : ∀ b, Survives bad (f b)) : Survives bad (l.forM f) := by
  induction l with
  | nil => exact Survives.pure PUnit.unit
  | cons b l ih => exact bind (hf b) fun _ => ih

end Survives

end Kyth.Action
