import Kyth.Lib.Word

/-!
# The supervisor of an install job (`installer_job.rs`)

A `JobSupervisor` owns a `JobState` behind a mutex and at most one worker thread. Everything that
happens under the lock is one function here; a worker is a state machine whose steps are its
critical sections and its reads of the cancellation flag, so that requests may come in between.
Cancellation tokens are addresses of flags that all clones of a token share.

What the executor answers (`Answer`) is part of a step. A panicking phase counts as a failed one,
as the source arranges.
-/

namespace Kyth.Job

open Word

/-- `Phase`. -/
inductive Phase
  | prepare
  | storage
  | image
  | configure
  | secureBoot
  | complete
  deriving DecidableEq, Repr

/-- `Lifecycle`. -/
inductive Lifecycle
  | idle
  | validated
  | partitioning
  | installing
  | done
  | failed
  deriving DecidableEq, Repr

/-- `RuntimeSnapshot`. -/
structure RuntimeSnapshot where
  lifecycle : Lifecycle
  phase : Phase
  cancelRequested : Bool
  deriving DecidableEq, Repr

/-- `CANCELLATION_MESSAGE`. -/
def cancellationMessage : String :=
  "Installation cancelled by user. Disk changes may have already started."

/-- `MAX_EVENT_HISTORY`. -/
def maxEventHistory : ℕ := 1024

/-- `PHASES`. -/
def phases : List Phase := [.prepare, .storage, .image, .configure, .secureBoot, .complete]

/-- `JobEventKind`. -/
inductive JobEventKind
  | phase (phase : Phase)
  | done (mokState : Option String) (requiresRebootConfirmation : Option Bool)
  | error (message : String) (phase : Option Phase) (cancelled : Bool)
  deriving DecidableEq, Repr

/-- `JobEvent`. -/
structure JobEvent where
  id : ℕ
  kind : JobEventKind
  deriving DecidableEq, Repr

/-- `StartReceipt`. -/
structure StartReceipt where
  jobId : ℕ
  firstEventId : ℕ
  deriving DecidableEq, Repr

/-- `JobState`. The token of the running job is the address of its flag. -/
structure JobState where
  nextJobId : ℕ := 0
  nextEventId : ℕ := 0
  jobId : Option ℕ := none
  runtime : RuntimeSnapshot := ⟨.idle, .prepare, false⟩
  cancellation : Option ℕ := none
  workerActive : Bool := false
  terminalEventId : Option ℕ := none
  history : List JobEvent := []
  deriving DecidableEq, Repr

/-- `append_event`. -/
def appendEvent (kind : JobEventKind) (state : JobState) : ℕ × JobState :=
  let id := satAddU64 state.nextEventId 1
  let history := state.history ++ [⟨id, kind⟩]
  (id, { state with
    nextEventId := id
    history := history.drop (history.length - maxEventHistory) })

/-! ### Requests -/

/-- The critical section that claims the slot of a supervisor, with the address of a new flag. -/
def claim (flag : ℕ) (state : JobState) : Except String StartReceipt × JobState :=
  if state.workerActive then (.error "An installation is already running.", state)
  else
    let jobId := satAddU64 state.nextJobId 1
    (.ok ⟨jobId, satAddU64 state.nextEventId 1⟩,
      { state with
        nextJobId := jobId
        jobId := some jobId
        runtime := ⟨.validated, .prepare, false⟩
        cancellation := some flag
        workerActive := true
        terminalEventId := none })

/-- The critical section that gives the slot back when no worker could be started. -/
def unclaim (state : JobState) : JobState :=
  { state with
    workerActive := false
    cancellation := none
    runtime := { state.runtime with lifecycle := .failed, cancelRequested := false } }

/-- `JobSupervisor::start`, with what the executor answers to `record_job_started` and whether the
thread could be spawned. -/
def JobState.start (flag : ℕ) (recorded spawned : Except String Unit) (state : JobState) :
    Except String StartReceipt × JobState :=
  match claim flag state with
  | (.error error, state) => (.error error, state)
  | (.ok receipt, state) =>
      match recorded, spawned with
      | .error error, _ =>
          (.error ("could not persist installer job correlation: " ++ error), unclaim state)
      | .ok _, .error error => (.error ("could not start installer worker: " ++ error), unclaim state)
      | .ok _, .ok _ => (.ok receipt, state)

/-- The critical section of `cancel`: it marks the request and takes the token. -/
def requestCancel (state : JobState) : Except String (Option ℕ) × JobState :=
  if state.workerActive then
    (.ok state.cancellation,
      { state with runtime := { state.runtime with cancelRequested := true } })
  else (.error "No installation is running to cancel.", state)

/-! ### The worker -/

/-- What the executor answers to a worker. -/
structure Answer where
  result : Except String Unit
  mokState : Option String

/-- Where a worker stands between two of its steps. -/
inductive WorkerAt
  | spawned
  /-- Before the phases that are left; with none left, before it records success. -/
  | before (rest : List Phase)
  | entering (phase : Phase) (rest : List Phase)
  | executing (phase : Phase) (rest : List Phase)
  | returned (phase : Phase) (rest : List Phase) (result : Except String Unit)
  /-- The executor has recorded the outcome; the terminal event is still to come. -/
  | finishing (event : JobEventKind)
  | exited

/-- A worker thread. Without a token in the state it polls a flag of its own, which nobody sets. -/
structure Worker where
  jobId : ℕ
  token : Option ℕ := none
  place : WorkerAt := .spawned

/-- The guard of every critical section of a worker. -/
def JobState.isRunning (state : JobState) (jobId : ℕ) : Prop :=
  state.jobId = some jobId ∧ state.workerActive = true

instance (state : JobState) (jobId : ℕ) : Decidable (state.isRunning jobId) :=
  inferInstanceAs (Decidable (_ ∧ _))

/-- `is_cancelled` on the token of a worker. -/
def Worker.isCancelled (flags : List Bool) (worker : Worker) : Bool :=
  match worker.token with
  | some flag => flags.getD flag false
  | none => false

/-- `finish_terminal`. -/
def finishTerminal (jobId : ℕ) (event : JobEventKind) (state : JobState) : JobState :=
  if state.isRunning jobId then
    let (id, state) := appendEvent event
      { state with
        runtime := { state.runtime with lifecycle := .failed, cancelRequested := false }
        cancellation := none
        workerActive := false }
    { state with terminalEventId := some id }
  else state

/-- The event of `finish_cancelled`. -/
def cancelledEvent (phase : Phase) : JobEventKind := .error cancellationMessage (some phase) true

/-- The last critical section of a worker whose phases all succeeded. -/
def recordDone (mokState : Option String) (state : JobState) : JobState :=
  let (id, state) := appendEvent
    (.done mokState
      (if mokState = some "staged" ∨ mokState = some "pending" then some true else none))
    { state with
      runtime := ⟨.done, .complete, false⟩
      cancellation := none
      workerActive := false }
  { state with terminalEventId := some id }

/-- One step of `run_worker`. -/
def Worker.step (flags : List Bool) (answer : Answer) (worker : Worker) (state : JobState) :
    Worker × JobState :=
  let cancelled := worker.isCancelled flags
  match worker.place with
  | .spawned =>
      if state.isRunning worker.jobId then
        ({ worker with token := state.cancellation, place := .before phases },
          { state with runtime := { state.runtime with lifecycle := .installing } })
      else ({ worker with place := .exited }, state)
  | .before (phase :: rest) =>
      ({ worker with
        place := if cancelled then .finishing (cancelledEvent phase) else .entering phase rest },
        state)
  | .entering phase rest =>
      if state.isRunning worker.jobId then
        ({ worker with place := .executing phase rest },
          (appendEvent (.phase phase)
            { state with runtime := { state.runtime with phase := phase } }).2)
      else ({ worker with place := .exited }, state)
  | .executing phase rest => ({ worker with place := .returned phase rest answer.result }, state)
  | .returned phase rest result =>
      ({ worker with
        place :=
          if cancelled then .finishing (cancelledEvent phase)
          else
            match result with
            | .error message => .finishing (.error message (some phase) false)
            | .ok _ => .before rest },
        state)
  | .before [] =>
      if state.isRunning worker.jobId then
        if state.runtime.cancelRequested ∨ cancelled = true then
          ({ worker with place := .finishing (cancelledEvent .complete) }, state)
        else ({ worker with place := .exited }, recordDone answer.mokState state)
      else ({ worker with place := .exited }, state)
  | .finishing event => ({ worker with place := .exited }, finishTerminal worker.jobId event state)
  | .exited => (worker, state)

end Kyth.Job
