import Mathlib.Tactic

/-!
# Actions: fallible computations on a state

An action runs on a state and returns a value or an error. A failed action keeps the state changes
it made before it failed, as code that returns early with `?` does.

* `bind_eq_ok` takes a successful sequence apart into its steps;
* `Frame R` says that an action moves the state along `R` however it ends. For a preorder `R` the
  rules `Frame.pure`, `Frame.bind` and so on follow the structure of a `do` block;
* `Ensures Q` says that an action leaves `Q` behind when it succeeds.
-/

namespace Kyth

/-- A fallible computation on a state. -/
def Action (σ ε α : Type) : Type := σ → Except ε α × σ

namespace Action

variable {σ ε α β : Type}

instance : Monad (Action σ ε) where
  pure a := fun s => (.ok a, s)
  bind x f := fun s =>
    match x s with
    | (.ok a, s') => f a s'
    | (.error e, s') => (.error e, s')

instance : MonadExceptOf ε (Action σ ε) where
  throw e := fun s => (.error e, s)
  tryCatch x handler := fun s =>
    match x s with
    | (.ok a, s') => (.ok a, s')
    | (.error e, s') => handler e s'

/-- The state. -/
def get : Action σ ε σ := fun s => (.ok s, s)

/-- Change the state. -/
def modify (f : σ → σ) : Action σ ε Unit := fun s => (.ok (), f s)

/-- A pure check. -/
def check (x : Except ε α) : Action σ ε α := fun s => (x, s)

@[simp] theorem pure_apply (a : α) (s : σ) : (pure a : Action σ ε α) s = (.ok a, s) := rfl

@[simp] theorem throw_apply (e : ε) (s : σ) : (throw e : Action σ ε α) s = (.error e, s) := rfl

@[simp] theorem get_apply (s : σ) : (get : Action σ ε σ) s = (.ok s, s) := rfl

@[simp] theorem modify_apply (f : σ → σ) (s : σ) :
    (modify f : Action σ ε Unit) s = (.ok (), f s) := rfl

@[simp] theorem check_apply (x : Except ε α) (s : σ) :
    (check x : Action σ ε α) s = (x, s) := rfl

/-- A sequence runs its second step where the first one succeeded. -/
theorem bind_apply (x : Action σ ε α) (f : α → Action σ ε β) (s : σ) :
    (x >>= f) s =
      match x s with
      | (.ok a, s') => f a s'
      | (.error e, s') => (.error e, s') := rfl

/-- A sequence succeeds when both of its steps do. -/
theorem bind_eq_ok {x : Action σ ε α} {f : α → Action σ ε β} {s s'' : σ} {b : β} :
    (x >>= f) s = (.ok b, s'') ↔ ∃ a s', x s = (.ok a, s') ∧ f a s' = (.ok b, s'') := by
  rw [bind_apply]
  constructor
  · intro h
    split at h
    · rename_i a s' hx
      exact ⟨a, s', hx, h⟩
    · cases h
  · rintro ⟨a, s', hx, h⟩
    rw [hx]
    exact h

/-- A sequence fails when one of its steps does. -/
theorem bind_eq_error {x : Action σ ε α} {f : α → Action σ ε β} {s s'' : σ} {e : ε} :
    (x >>= f) s = (.error e, s'') ↔
      x s = (.error e, s'') ∨ ∃ a s', x s = (.ok a, s') ∧ f a s' = (.error e, s'') := by
  rw [bind_apply]
  constructor
  · intro h
    split at h
    · rename_i a s' hx
      exact .inr ⟨a, s', hx, h⟩
    · rename_i e' s' hx
      cases h
      exact .inl hx
  · rintro (hx | ⟨a, s', hx, h⟩)
    · rw [hx]
    · rw [hx]
      exact h

/-- A guard that throws succeeds when it is not taken and the rest does. -/
theorem guard_eq_ok {c : Prop} [Decidable c] {e : ε} {f : β → Action σ ε α} {x : Action σ ε α}
    {s s' : σ} {a : α} :
    (if c then (throw e >>= f) else x) s = (.ok a, s') ↔ ¬ c ∧ x s = (.ok a, s') := by
  by_cases hc : c
  · rw [if_pos hc]
    exact iff_of_false (fun h => nomatch h) fun h => h.1 hc
  · rw [if_neg hc]
    exact ⟨fun h => ⟨hc, h⟩, fun h => h.2⟩

/-- What a sequence leaves behind: what its first step leaves when it fails, or what the second one
leaves. -/
theorem bind_leaves {Q : σ → Prop} {x : Action σ ε α} {f : α → Action σ ε β} {s : σ}
    (herror : ∀ e s', x s = (.error e, s') → Q s')
    (hok : ∀ a s', x s = (.ok a, s') → Q (f a s').2) : Q ((x >>= f) s).2 := by
  rw [bind_apply]
  split
  · rename_i a s' hx
    exact hok a s' hx
  · rename_i e s' hx
    exact herror e s' hx

/-- What a guard that throws leaves behind. -/
theorem guard_leaves {Q : σ → Prop} {c : Prop} [Decidable c] {e : ε} {f : β → Action σ ε α}
    {x : Action σ ε α} {s : σ} (hthrow : Q s) (hrest : ¬ c → Q (x s).2) :
    Q ((if c then (throw e >>= f) else x) s).2 := by
  by_cases hc : c
  · rw [if_pos hc]
    exact hthrow
  · rw [if_neg hc]
    exact hrest hc

@[simp] theorem throw_bind (e : ε) (f : α → Action σ ε β) :
    ((throw e : Action σ ε α) >>= f) = throw e := rfl

/-- A loop over a list succeeds when each of its turns does. -/
theorem of_forM_eq_ok {l : List β} {f : β → Action σ ε PUnit} {s s' : σ}
    (h : l.forM f s = (.ok ⟨⟩, s')) : ∀ b ∈ l, ∃ s₁ s₂, f b s₁ = (.ok ⟨⟩, s₂) := by
  induction l generalizing s with
  | nil => exact fun _ hnone => nomatch hnone
  | cons b l ih =>
    obtain ⟨done, s₁, hb, hl⟩ := bind_eq_ok.1 h
    exact List.forall_mem_cons.2 ⟨⟨s, s₁, hb⟩, ih hl⟩

/-- An action that moves the state along a relation, whether it succeeds or fails. -/
def Frame (R : σ → σ → Prop) (x : Action σ ε α) : Prop := ∀ s, R s (x s).2

namespace Frame

variable {R : σ → σ → Prop}

/-- What a frame says about a run that is known. -/
theorem of_eq {x : Action σ ε α} {s s' : σ} {r : Except ε α} (h : Frame R x) (hx : x s = (r, s')) :
    R s s' := by
  have hs := h s
  rwa [hx] at hs

theorem pure [Std.Refl R] (a : α) : Frame R (pure a : Action σ ε α) := fun s => refl_of R s

theorem throw [Std.Refl R] (e : ε) : Frame R (throw e : Action σ ε α) := fun s => refl_of R s

theorem get [Std.Refl R] : Frame R (get : Action σ ε σ) := fun s => refl_of R s

theorem check [Std.Refl R] (x : Except ε α) :
    Frame R (check x : Action σ ε α) := fun s => refl_of R s

theorem modify {f : σ → σ} (h : ∀ s, R s (f s)) : Frame R (modify f : Action σ ε Unit) := h

/-- A sequence from one state, when its first step is right there. -/
theorem bind_from [IsTrans σ R] {x : Action σ ε α} {f : α → Action σ ε β} {s : σ}
    (hx : R s (x s).2) (hf : ∀ a s', x s = (.ok a, s') → R s' (f a s').2) :
    R s ((x >>= f) s).2 := by
  rw [bind_apply]
  split
  · rename_i a s' heq
    rw [heq] at hx
    exact IsTrans.trans _ _ _ hx (hf a s' heq)
  · rename_i e s' heq
    rw [heq] at hx
    exact hx

/-- A sequence that starts behind the state that the relation starts at. -/
theorem bind_after [IsTrans σ R] {x : Action σ ε α} {f : α → Action σ ε β} {s t : σ}
    (hx : R s (x t).2) (hf : ∀ a, Frame R (f a)) : R s ((x >>= f) t).2 := by
  rw [bind_apply]
  split
  · rename_i a s' heq
    rw [heq] at hx
    exact IsTrans.trans _ _ _ hx (hf a s')
  · rename_i e s' heq
    rw [heq] at hx
    exact hx

/-- In a sequence the second step only has to be right where the first one left off. -/
theorem bind_at [IsTrans σ R] {x : Action σ ε α} {f : α → Action σ ε β} {s : σ} (hx : Frame R x)
    (hf : ∀ a s', x s = (.ok a, s') → R s' (f a s').2) : R s ((x >>= f) s).2 :=
  bind_from (hx s) hf

theorem bind [IsTrans σ R] {x : Action σ ε α} {f : α → Action σ ε β} (hx : Frame R x)
    (hf : ∀ a, Frame R (f a)) : Frame R (x >>= f) :=
  fun _ => bind_at hx fun a s' _ => hf a s'

/-- The second step only has to be right for the values the first one returns. -/
theorem bind_of [IsTrans σ R] {x : Action σ ε α} {f : α → Action σ ε β} {P : α → Prop}
    (hx : Frame R x) (hP : ∀ {s a s'}, x s = (.ok a, s') → P a) (hf : ∀ a, P a → Frame R (f a)) :
    Frame R (x >>= f) :=
  fun _ => bind_at hx fun a s' heq => hf a (hP heq) s'

theorem ite_of {c : Prop} [Decidable c] {x y : Action σ ε α} (hx : c → Frame R x)
    (hy : ¬ c → Frame R y) : Frame R (if c then x else y) := by
  split_ifs with hc
  · exact hx hc
  · exact hy hc

theorem ite {c : Prop} [Decidable c] {x y : Action σ ε α} (hx : Frame R x) (hy : Frame R y) :
    Frame R (if c then x else y) :=
  ite_of (fun _ => hx) fun _ => hy

/-- A guard that throws leaves only the rest to check. -/
theorem ite_throw [Std.Refl R] {c : Prop} [Decidable c] {e : ε} {f : β → Action σ ε α}
    {x : Action σ ε α} (hx : Frame R x) : Frame R (if c then (MonadExcept.throw e >>= f) else x) :=
  ite (throw e) hx

/-- After a check the rest only has to be right for the value it let through. -/
theorem check_bind_at [Std.Refl R] {x : Except ε α} {f : α → Action σ ε β} {s : σ}
    (hf : ∀ a, x = .ok a → R s (f a s).2) : R s ((Action.check x >>= f) s).2 := by
  rw [bind_apply, check_apply]
  cases x with
  | ok a => exact hf a rfl
  | error e => exact refl_of R s

theorem check_bind [Std.Refl R] {x : Except ε α} {f : α → Action σ ε β}
    (hf : ∀ a, x = .ok a → Frame R (f a)) : Frame R (Action.check x >>= f) :=
  fun s => check_bind_at fun a ha => hf a ha s

theorem forM [Std.Refl R] [IsTrans σ R] {l : List β} {f : β → Action σ ε PUnit}
    (hf : ∀ b ∈ l, Frame R (f b)) : Frame R (l.forM f) := by
  induction l with
  | nil => exact pure _
  | cons b l ih =>
    exact bind (hf b List.mem_cons_self) fun _ => ih fun b' hb' => hf b' (List.mem_cons_of_mem b hb')

end Frame

/-- An action that leaves a condition behind when it succeeds. -/
def Ensures (Q : σ → Prop) (x : Action σ ε α) : Prop := ∀ s a s', x s = (.ok a, s') → Q s'

namespace Ensures

variable {Q : σ → Prop}

theorem throw (e : ε) : Ensures Q (throw e : Action σ ε α) := fun _ _ _ h => nomatch h

/-- The second step of a sequence leaves the condition behind. -/
theorem bind {x : Action σ ε α} {f : α → Action σ ε β} (hf : ∀ a, Ensures Q (f a)) :
    Ensures Q (x >>= f) := by
  intro s b s'' h
  obtain ⟨a, s', -, hf'⟩ := bind_eq_ok.1 h
  exact hf a s' b s'' hf'

/-- The first step of a sequence leaves it behind, and the second one keeps it. -/
theorem bind_frame {R : σ → σ → Prop} {x : Action σ ε α} {f : α → Action σ ε β}
    (hx : Ensures Q x) (hf : ∀ a, Frame R (f a)) (hQ : ∀ {s s'}, R s s' → Q s → Q s') :
    Ensures Q (x >>= f) := by
  intro s b s'' h
  obtain ⟨a, s', hx', hf'⟩ := bind_eq_ok.1 h
  exact hQ ((hf a).of_eq hf') (hx s a s' hx')

theorem ite {c : Prop} [Decidable c] {x y : Action σ ε α} (hx : Ensures Q x) (hy : Ensures Q y) :
    Ensures Q (if c then x else y) := by
  split_ifs
  · exact hx
  · exact hy

/-- A guard that throws leaves only the rest to check. -/
theorem ite_throw {c : Prop} [Decidable c] {e : ε} {f : β → Action σ ε α} {x : Action σ ε α}
    (hx : Ensures Q x) : Ensures Q (if c then (MonadExcept.throw e >>= f) else x) :=
  ite (throw e) hx

end Ensures

end Action

end Kyth
