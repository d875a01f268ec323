import Mathlib.Data.List.AList
import Mathlib.Data.List.Induction

/-!
# Replaying a list of edits

A table that is built by walking a list of operations, each of which writes one key, drops one key,
clears the table or leaves it alone. What the table holds for a key at the end is decided by the last
operation that concerns the key.
-/

namespace Kyth.Replay

variable {α β σ : Type}

/-- What an operation does to the table. -/
inductive Edit (α β : Type)
  | clear
  | put (key : α) (value : β)
  | drop (key : α)
  | skip

/-- An edit that decides what the table holds for a key. -/
def Edit.Concerns (key : α) : Edit α β → Prop
  | .clear => True
  | .put key' _ => key' = key
  | .drop key' => key' = key
  | .skip => False

variable [DecidableEq α]

/-- The table after an edit. -/
def Edit.apply (table : AList fun _ : α => β) : Edit α β → AList fun _ : α => β
  | .clear => ∅
  | .put key value => table.insert key value
  | .drop key => table.erase key
  | .skip => table

/-- The table after a list of operations. -/
def replay (edit : σ → Edit α β) (ops : List σ) : AList fun _ : α => β :=
  ops.foldl (fun table op => (edit op).apply table) ∅

variable {edit : σ → Edit α β} {ops : List σ} {op : σ} {key : α} {value : β}

@[simp] theorem replay_nil : replay edit [] = ∅ := rfl

theorem replay_concat (edit : σ → Edit α β) (ops : List σ) (op : σ) :
    replay edit (ops ++ [op]) = (edit op).apply (replay edit ops) := by
  simp only [replay, List.foldl_append, List.foldl_cons, List.foldl_nil]

theorem Edit.lookup_apply_of_not_concerns {e : Edit α β} (h : ¬ e.Concerns key)
    (table : AList fun _ : α => β) : (e.apply table).lookup key = table.lookup key := by
  cases e with
  | clear => exact absurd trivial h
  | put key' value => exact AList.lookup_insert_ne (Ne.symm h)
  | drop key' => exact AList.lookup_erase_ne (Ne.symm h)
  | skip => rfl

/-- An edit that concerns a key and leaves something there wrote it. -/
theorem Edit.eq_put_of_lookup {e : Edit α β} (h : e.Concerns key) {table : AList fun _ : α => β}
    (hvalue : (e.apply table).lookup key = some value) : e = .put key value := by
  cases e with
  | clear => cases hvalue
  | put key' value' =>
    obtain rfl : key' = key := h
    rw [Edit.apply, AList.lookup_insert, Option.some.injEq] at hvalue
    rw [hvalue]
  | drop key' =>
    obtain rfl : key' = key := h
    rw [Edit.apply, AList.lookup_erase] at hvalue
    cases hvalue
  | skip => exact h.elim

/-- The table holds a value if and only if the last operation that concerns its key wrote it. -/
theorem lookup_replay_eq_some :
    (replay edit ops).lookup key = some value ↔
      ∃ before op after, ops = before ++ op :: after ∧ edit op = .put key value ∧
        ∀ op' ∈ after, ¬ (edit op').Concerns key := by
  induction ops using List.reverseRecOn with
  | nil =>
    constructor
    · intro h
      cases h
    · rintro ⟨before, op, after, hops, -, -⟩
      simp at hops
  | append_singleton ops last ih =>
    rw [replay_concat]
    constructor
    · intro h
      by_cases hlast : (edit last).Concerns key
      · exact ⟨ops, last, [], rfl, Edit.eq_put_of_lookup hlast h, by simp⟩
      · rw [Edit.lookup_apply_of_not_concerns hlast] at h
        obtain ⟨before, op, after, rfl, hput, hafter⟩ := ih.1 h
        refine ⟨before, op, after ++ [last], by simp, hput, fun op' hop' => ?_⟩
        obtain hop' | hop' := List.mem_append.1 hop'
        · exact hafter op' hop'
        · rwa [List.mem_singleton.1 hop']
    · rintro ⟨before, op, after, hops, hput, hafter⟩
      obtain rfl | ⟨after', last', rfl⟩ := List.eq_nil_or_concat after
      · obtain ⟨rfl, hop⟩ := List.append_inj' hops rfl
        cases hop
        rw [hput, Edit.apply, AList.lookup_insert]
      · rw [List.concat_eq_append, ← List.cons_append, ← List.append_assoc] at hops
        obtain ⟨rfl, hop⟩ := List.append_inj' hops rfl
        cases hop
        rw [Edit.lookup_apply_of_not_concerns (hafter last (by simp)), ih]
        exact ⟨before, op, after', rfl, hput, fun op' hop' => hafter op' (by simp [hop'])⟩

end Kyth.Replay
