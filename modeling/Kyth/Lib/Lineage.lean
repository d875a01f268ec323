import Mathlib.Logic.Function.Basic
import Mathlib.Data.List.Basic

/-!
# Read, modify, replace

A cell that several calls update without holding it in between: each call loads the value and later
replaces it by what it makes of the value it has seen. A replacement drops whatever was stored since its
load, so the value at the end is made by some of the calls only. They are the lineage of the value, and
the schedule alone decides them.
-/

namespace Kyth.Lineage

variable {ι σ τ : Type}

/-- A step of a call: the load, or the replacement. -/
inductive Step (ι : Type)
  | load (i : ι)
  | replace (i : ι)
  deriving DecidableEq, Repr

/-- How far a call has come. -/
inductive Phase (σ : Type)
  | waiting
  | loaded (seen : σ)
  | returned
  deriving DecidableEq, Repr

/-- The cell and the calls on it. -/
structure Cell (ι σ : Type) where
  value : σ
  phases : ι → Phase σ

/-- The cell before any call. -/
def Cell.start (value : σ) : Cell ι σ := ⟨value, fun _ => .waiting⟩

/-- The phase after a change of the type of the values. -/
def Phase.map (f : σ → τ) : Phase σ → Phase τ
  | .waiting => .waiting
  | .loaded seen => .loaded (f seen)
  | .returned => .returned

/-- The cell after a change of the type of the values. -/
def Cell.map (f : σ → τ) (c : Cell ι σ) : Cell ι τ := ⟨f c.value, fun i => (c.phases i).map f⟩

@[simp] theorem Phase.map_waiting (f : σ → τ) : (Phase.waiting).map f = .waiting := rfl

@[simp] theorem Phase.map_loaded (f : σ → τ) (seen : σ) :
    (Phase.loaded seen).map f = .loaded (f seen) := rfl

@[simp] theorem Phase.map_returned (f : σ → τ) : (Phase.returned).map f = .returned := rfl

variable [DecidableEq ι]

/-- A step of the schedule, where `make i` is what the call `i` makes of a value. A step out of turn
changes nothing. -/
def Cell.step (make : ι → σ → σ) (c : Cell ι σ) : Step ι → Cell ι σ
  | .load i =>
    match c.phases i with
    | .waiting => { c with phases := Function.update c.phases i (.loaded c.value) }
    | _ => c
  | .replace i =>
    match c.phases i with
    | .loaded seen => ⟨make i seen, Function.update c.phases i .returned⟩
    | _ => c

/-- A whole schedule. -/
def Cell.run (make : ι → σ → σ) (c : Cell ι σ) (steps : List (Step ι)) : Cell ι σ :=
  steps.foldl (Cell.step make) c

/-- The calls that made the value, the last one first: what the schedule does to lists when every call
puts itself in front. -/
def lineage (steps : List (Step ι)) : List ι := ((Cell.start []).run List.cons steps).value

variable {make : ι → σ → σ} {make' : ι → τ → τ} {f : σ → τ}

theorem map_update (f : σ → τ) (phases : ι → Phase σ) (i : ι) (phase : Phase σ) :
    (fun j => (Function.update phases i phase j).map f) =
      Function.update (fun j => (phases j).map f) i (phase.map f) := by
  funext j
  by_cases h : j = i
  · subst h
    rw [Function.update_self, Function.update_self]
  · rw [Function.update_of_ne h, Function.update_of_ne h]

/-- What commutes with the calls commutes with a step. -/
theorem Cell.map_step (h : ∀ i s, f (make i s) = make' i (f s)) (c : Cell ι σ) (step : Step ι) :
    (c.step make step).map f = (c.map f).step make' step := by
  obtain ⟨value, phases⟩ := c
  cases step with
  | load i => cases hphase : phases i <;> simp [Cell.step, Cell.map, hphase, map_update]
  | replace i => cases hphase : phases i <;> simp [Cell.step, Cell.map, hphase, map_update, h]

/-- What commutes with the calls commutes with a schedule. -/
theorem Cell.map_run (h : ∀ i s, f (make i s) = make' i (f s)) (c : Cell ι σ)
    (steps : List (Step ι)) : (c.run make steps).map f = (c.map f).run make' steps := by
  induction steps generalizing c with
  | nil => rfl
  | cons step steps ih =>
    show ((c.step make step).run make steps).map f = ((c.map f).step make' step).run make' steps
    rw [ih, map_step h]

/-- The value at the end is made by the calls of its lineage, one on top of the other. -/
theorem value_run (make : ι → σ → σ) (value : σ) (steps : List (Step ι)) :
    ((Cell.start value).run make steps).value = (lineage steps).foldr make value := by
  have hcons : ∀ (i : ι) (calls : List ι),
      (fun calls : List ι => calls.foldr make value) (i :: calls) = make i (calls.foldr make value) :=
    fun _ _ => rfl
  exact (congrArg Cell.value (Cell.map_run hcons (Cell.start []) steps)).symm

end Kyth.Lineage
