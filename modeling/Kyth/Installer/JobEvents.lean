import Kyth.Installer.Job
import Mathlib.Data.List.DropRight
import Mathlib.Tactic

/-!
# The events of a worker (`installer_job.rs`)

Only a worker appends events to the history of its supervisor. `Worker.appends` is the event that a
step appends, and `Worker.step_of_running` says everything a step of a running worker does. What a
worker has told by the time it stands somewhere is `Told`: the phases up to there, in the order of
`PHASES`, and one terminal event at the end.

`replayLocked` is what a subscriber reads of a history.
-/

namespace Kyth.Job

open Word

/-- `EventReplay`. -/
structure EventReplay where
  events : List JobEvent
  nextEventId : ℕ
  resetRequired : Bool
  deriving DecidableEq, Repr

/-- `replay_locked`. -/
def replayLocked (state : JobState) (lastEventId : ℕ) : EventReplay where
  events := state.history.filter fun event => decide (lastEventId < event.id)
  nextEventId := state.nextEventId
  resetRequired :=
    match state.history.head? with
    | some event => decide (satAddU64 lastEventId 1 < event.id)
    | none => false

/-- A `Done` or an `Error`. -/
def JobEventKind.isTerminal : JobEventKind → Bool
  | .phase _ => false
  | .done _ _ => true
  | .error _ _ _ => true

def JobEventKind.isDone : JobEventKind → Bool
  | .done _ _ => true
  | _ => false

/-- The event that a step of a worker appends. -/
def Worker.appends (flags : List Bool) (answer : Answer) (worker : Worker) (state : JobState) :
    Option JobEventKind :=
  if state.isRunning worker.jobId then
    match worker.place with
    | .entering phase _ => some (.phase phase)
    | .before [] =>
        if state.runtime.cancelRequested ∨ worker.isCancelled flags = true then none
        else
          some (.done answer.mokState (if answer.mokState = some "staged" ∨
            answer.mokState = some "pending" then some true else none))
    | .finishing event => some event
    | _ => none
  else none

def WorkerAt.isExited : WorkerAt → Bool
  | .exited => true
  | _ => false

/-- What a worker has told when it stands somewhere. -/
def Told : WorkerAt → List JobEventKind → Prop
  | .spawned, told => told = []
  | .before rest, told => ∃ before, phases = before ++ rest ∧ told = before.map .phase
  | .entering phase rest, told =>
      ∃ before, phases = before ++ phase :: rest ∧ told = before.map .phase
  | .executing phase rest, told =>
      ∃ before, phases = before ++ phase :: rest ∧ told = (before ++ [phase]).map .phase
  | .returned phase rest _, told =>
      ∃ before, phases = before ++ phase :: rest ∧ told = (before ++ [phase]).map .phase
  | .finishing event, told =>
      event.isTerminal = true ∧ event.isDone = false ∧
        ∃ before, before <+: phases ∧ told = before.map .phase
  | .exited, told =>
      ∃ before event, before <+: phases ∧ event.isTerminal = true ∧
        told = before.map .phase ++ [event]

/-- How many steps a worker has before it at most. -/
def WorkerAt.stepsLeft : WorkerAt → ℕ
  | .spawned => 4 * phases.length + 3
  | .before rest => 4 * rest.length + 2
  | .entering _ rest => 4 * rest.length + 5
  | .executing _ rest => 4 * rest.length + 4
  | .returned _ rest _ => 4 * rest.length + 3
  | .finishing _ => 1
  | .exited => 0

/-- A history with an event appended. -/
@[irreducible] def pushEvent (history : List JobEvent) (id : ℕ) (kind : JobEventKind) :
    List JobEvent :=
  (history ++ [(⟨id, kind⟩ : JobEvent)]).rtake maxEventHistory

theorem appendEvent_eq (kind : JobEventKind) (state : JobState) :
    appendEvent kind state = (satAddU64 state.nextEventId 1,
      { state with
        nextEventId := satAddU64 state.nextEventId 1
        history := pushEvent state.history (satAddU64 state.nextEventId 1) kind }) := by
  unfold appendEvent pushEvent List.rtake
  rfl

/-- What a step does, given the event it appends. -/
structure Worker.Stepped (worker : Worker) (state : JobState) (appended : Option JobEventKind)
    (worker' : Worker) (state' : JobState) : Prop where
  jobId : worker'.jobId = worker.jobId
  stateJobId : state'.jobId = state.jobId
  active : state'.workerActive = !worker'.place.isExited
  requested : worker'.place.isExited = false →
    state'.runtime.cancelRequested = state.runtime.cancelRequested
  nextEventId : state'.nextEventId =
    if appended.isSome then satAddU64 state.nextEventId 1 else state.nextEventId
  history : state'.history =
    (appended.map (pushEvent state.history (satAddU64 state.nextEventId 1))).getD state.history
  told : ∀ told, Told worker.place told → Told worker'.place (told ++ appended.toList)
  done : ∀ told kind, Told worker.place told → appended = some kind → kind.isDone = true →
    state.runtime.cancelRequested = false
  progress : worker'.place.stepsLeft < worker.place.stepsLeft

/-- A step that appends nothing and goes on. -/
theorem Worker.stepped_silent {worker worker' : Worker} {state state' : JobState}
    (hjobId : worker'.jobId = worker.jobId) (hlive : worker'.place.isExited = false)
    (hactive : state.workerActive = true)
    (hstate : ∃ lifecycle, state' = { state with runtime := { state.runtime with lifecycle } })
    (htold : ∀ told, Told worker.place told → Told worker'.place told)
    (hprogress : worker'.place.stepsLeft < worker.place.stepsLeft) :
    worker.Stepped state none worker' state' := by
  obtain ⟨lifecycle, rfl⟩ := hstate
  refine ⟨hjobId, rfl, by simp [hactive, hlive], fun _ => rfl, rfl, rfl, fun told ht => ?_, ?_,
    hprogress⟩
  · rw [Option.toList_none, List.append_nil]
    exact htold told ht
  · intro told kind ht hkind
    cases hkind

/-- A step that appends a terminal event and exits. -/
theorem Worker.stepped_last {worker worker' : Worker} {state state' : JobState}
    {kind : JobEventKind} (hjobId : worker'.jobId = worker.jobId)
    (hexited : worker'.place = .exited) (hstateJobId : state'.jobId = state.jobId)
    (hidle : state'.workerActive = false)
    (hid : state'.nextEventId = satAddU64 state.nextEventId 1)
    (hhistory : state'.history = pushEvent state.history (satAddU64 state.nextEventId 1) kind)
    (htold : ∀ told, Told worker.place told → Told .exited (told ++ [kind]))
    (hdone : ∀ told, Told worker.place told → kind.isDone = true →
      state.runtime.cancelRequested = false)
    (hprogress : 0 < worker.place.stepsLeft) :
    worker.Stepped state (some kind) worker' state' := by
  refine ⟨hjobId, hstateJobId, by rw [hidle, hexited]; rfl, fun hlive => ?_,
    hid.trans (if_pos rfl).symm, hhistory, fun told ht => ?_,
    fun told kind' ht hkind hd => ?_, by rw [hexited]; exact hprogress⟩
  · rw [hexited] at hlive
    cases hlive
  · rw [hexited]
    exact htold told ht
  · cases hkind
    exact hdone told ht hd

/-- A step of a worker that owns the slot. -/
theorem Worker.step_of_running {flags : List Bool} {answer : Answer} {worker : Worker}
    {state : JobState} (hrunning : state.isRunning worker.jobId)
    (hlive : worker.place.isExited = false) :
    worker.Stepped state (worker.appends flags answer state) (worker.step flags answer state).1
      (worker.step flags answer state).2 := by
  obtain ⟨jobId, token, place⟩ := worker
  have hactive : state.workerActive = true := hrunning.2
  have hsame : ∃ lifecycle, state = { state with runtime := { state.runtime with lifecycle } } :=
    ⟨state.runtime.lifecycle, rfl⟩
  unfold Worker.appends Worker.step
  rw [if_pos hrunning]
  cases place with
  | spawned =>
    dsimp only
    rw [if_pos hrunning]
    refine stepped_silent rfl rfl hactive ⟨.installing, rfl⟩ ?_ (Nat.lt_succ_self 26)
    intro told htold
    exact ⟨[], rfl, htold⟩
  | before rest =>
    cases rest with
    | nil =>
      dsimp only
      rw [if_pos hrunning]
      by_cases hcancel : state.runtime.cancelRequested ∨
          Worker.isCancelled flags { jobId, token, place := .before [] } = true
      · rw [if_pos hcancel, if_pos hcancel]
        refine stepped_silent rfl rfl hactive hsame ?_ (Nat.lt_succ_self 1)
        rintro told ⟨before, hbefore, htold⟩
        exact ⟨rfl, rfl, before, ⟨[], hbefore.symm⟩, htold⟩
      · rw [if_neg hcancel, if_neg hcancel]
        have hfresh : state.runtime.cancelRequested = false := by
          simpa using fun hreq => hcancel (.inl hreq)
        rw [recordDone, appendEvent_eq]
        refine stepped_last rfl rfl rfl rfl rfl rfl ?_ (fun _ _ _ => hfresh) (Nat.succ_pos 1)
        rintro told ⟨before, hbefore, htold⟩
        exact ⟨before, _, ⟨[], hbefore.symm⟩, rfl, by rw [htold]⟩
    | cons phase rest =>
      dsimp only
      split_ifs with hcancel
      · refine stepped_silent rfl rfl hactive hsame ?_ ?_
        · rintro told ⟨before, hbefore, htold⟩
          exact ⟨rfl, rfl, before, ⟨_, hbefore.symm⟩, htold⟩
        · simp only [WorkerAt.stepsLeft]
          omega
      · refine stepped_silent rfl rfl hactive hsame (fun told htold => htold) ?_
        simp only [WorkerAt.stepsLeft, List.length_cons]
        omega
  | entering phase rest =>
    dsimp only
    rw [if_pos hrunning, appendEvent_eq]
    refine ⟨rfl, rfl, hactive, fun _ => rfl, (if_pos rfl).symm, rfl, ?_, ?_, Nat.lt_succ_self _⟩
    · rintro told ⟨before, hbefore, htold⟩
      exact ⟨before, hbefore, by rw [htold, List.map_append]; rfl⟩
    · intro told kind htold hkind hdone
      cases hkind
      cases hdone
  | executing phase rest =>
    refine stepped_silent rfl rfl hactive hsame (fun told htold => htold) ?_
    simp only [WorkerAt.stepsLeft]
    omega
  | returned phase rest result =>
    dsimp only
    split_ifs with hcancel
    · refine stepped_silent rfl rfl hactive hsame ?_ ?_
      · rintro told ⟨before, hbefore, htold⟩
        exact ⟨rfl, rfl, before ++ [phase], ⟨rest, by simp [hbefore]⟩, htold⟩
      · simp only [WorkerAt.stepsLeft]
        omega
    · cases result with
      | error message =>
        refine stepped_silent rfl rfl hactive hsame ?_ ?_
        · rintro told ⟨before, hbefore, htold⟩
          exact ⟨rfl, rfl, before ++ [phase], ⟨rest, by simp [hbefore]⟩, htold⟩
        · simp only [WorkerAt.stepsLeft]
          omega
      | ok _ =>
        refine stepped_silent rfl rfl hactive hsame ?_ ?_
        · rintro told ⟨before, hbefore, htold⟩
          exact ⟨before ++ [phase], by simp [hbefore], htold⟩
        · simp only [WorkerAt.stepsLeft]
          omega
  | finishing event =>
    dsimp only
    rw [finishTerminal, if_pos hrunning, appendEvent_eq]
    refine stepped_last rfl rfl rfl rfl rfl rfl ?_ ?_ Nat.one_pos
    · rintro told ⟨hterminal, -, before, hbefore, htold⟩
      exact ⟨before, event, hbefore, hterminal, by rw [htold]⟩
    · rintro told ⟨-, hnot, -⟩ hdone
      rw [hnot] at hdone
      cases hdone
  | exited => cases hlive

end Kyth.Job
