import Mathlib.Data.List.Nodup
import Mathlib.Data.List.Sublists

/-!
# Following links without revisiting

A search that follows one outgoing link per node and gives up at a node it has already seen, the
usual way to walk a finite graph that may contain cycles. `step a` is `none` at a dead end,
`some (.inl b)` when the search is over and `some (.inr a')` when it goes on at `a'`.

`Chases step a b` says that the links lead from `a` to the result `b`; `chase_iff` says that the
bounded search finds exactly these results, once it may take one step more than there are nodes.
-/

namespace Kyth.Chase

variable {α β : Type} [DecidableEq α] (step : α → Option (β ⊕ α))

/-- The search: a bound on the steps, the nodes seen so far, the current node. -/
def chase : ℕ → List α → α → Option β
  | 0, _, _ => none
  | fuel + 1, seen, a =>
      if a ∈ seen then none
      else
        match step a with
        | none => none
        | some (.inl b) => some b
        | some (.inr a') => chase fuel (a :: seen) a'

/-- The links lead from `a` to the result `b` in `n` steps. -/
inductive ChasesIn : ℕ → α → β → Prop
  | found {a : α} {b : β} : step a = some (.inl b) → ChasesIn 0 a b
  | next {n : ℕ} {a a' : α} {b : β} :
      step a = some (.inr a') → ChasesIn n a' b → ChasesIn (n + 1) a b

/-- The links lead from `a` to the result `b`. -/
def Chases (a : α) (b : β) : Prop := ∃ n, ChasesIn step n a b

variable {step}

omit [DecidableEq α] in
/-- A node has one outgoing link, so the number of steps is determined. -/
theorem ChasesIn.unique {n m : ℕ} {a : α} {b c : β} (h : ChasesIn step n a b)
    (h' : ChasesIn step m a c) : n = m := by
  induction h generalizing m with
  | found hs =>
    cases h' with
    | found => rfl
    | next hs' => rw [hs] at hs'; cases hs'
  | next hs _ ih =>
    cases h' with
    | found hs' => rw [hs] at hs'; cases hs'
    | next hs' h' =>
      rw [hs] at hs'
      cases hs'
      rw [ih h']

theorem chase_sound {fuel : ℕ} {seen : List α} {a : α} {b : β}
    (h : chase step fuel seen a = some b) : Chases step a b := by
  induction fuel generalizing seen a with
  | zero => cases h
  | succ fuel ih =>
    rw [chase] at h
    split_ifs at h
    split at h
    · cases h
    · rename_i b' hs
      cases h
      exact ⟨0, .found hs⟩
    · rename_i a' hs
      obtain ⟨n, hn⟩ := ih h
      exact ⟨n + 1, .next hs hn⟩

/-- The bounded search is complete: the nodes seen so far are farther from the result than the
current one, and they are too few to exhaust the bound. -/
theorem chase_complete {keys : List α} (hkeys : ∀ a, (step a).isSome → a ∈ keys) {fuel n : ℕ}
    {seen : List α} {a : α} {b : β} (hfuel : keys.length < fuel + seen.length)
    (hnodup : seen.Nodup) (hsub : seen ⊆ keys)
    (hseen : ∀ s ∈ seen, ∃ m, n < m ∧ ChasesIn step m s b) (h : ChasesIn step n a b) :
    chase step fuel seen a = some b := by
  have hnot : a ∉ seen := by
    intro ha
    obtain ⟨m, hm, hc⟩ := hseen a ha
    exact absurd (h.unique hc) (by omega)
  induction fuel generalizing n seen a with
  | zero =>
    have := (hnodup.subperm hsub).length_le
    omega
  | succ fuel ih =>
    rw [chase, if_neg hnot]
    cases h with
    | found hs => rw [hs]
    | next hs h =>
      rename_i n a'
      rw [hs]
      have hfar : ∀ s ∈ a :: seen, ∃ m, n < m ∧ ChasesIn step m s b := by
        intro s hs'
        rcases List.mem_cons.1 hs' with rfl | hs'
        · exact ⟨n + 1, by omega, .next hs h⟩
        · obtain ⟨m, hm, hc⟩ := hseen s hs'
          exact ⟨m, by omega, hc⟩
      refine ih (by simp only [List.length_cons]; omega) (List.nodup_cons.2 ⟨hnot, hnodup⟩) ?_
        hfar h ?_
      · exact List.cons_subset.2 ⟨hkeys a (by rw [hs]; rfl), hsub⟩
      · intro ha
        obtain ⟨m, hm, hc⟩ := hfar a' ha
        exact absurd (h.unique hc) (by omega)

/-- The search with one step more than there are nodes finds exactly the linked results. -/
theorem chase_iff {keys : List α} (hkeys : ∀ a, (step a).isSome → a ∈ keys) {a : α} {b : β} :
    chase step (keys.length + 1) [] a = some b ↔ Chases step a b := by
  constructor
  · exact chase_sound
  · rintro ⟨n, h⟩
    exact chase_complete hkeys (by simp) List.nodup_nil (List.nil_subset _) (by simp) h

end Kyth.Chase
